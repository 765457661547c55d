import Knowledge.Evidence.Readback

/-!
Bodies that scopes share while some of them are forgotten. The key of a shared body is taken
from the wrap of another scope, so that an ingest depends on how far the forgetting of that
scope has come.
-/

set_option autoImplicit false

namespace Knowledge.Evidence
open Knowledge.Cipher
open Knowledge.Sync (Uuid)
open Knowledge.Transition
open EvidenceStore

namespace EvidenceStore

theorem bumpRefCount_scopeKeys (s : EvidenceStore) (hash : ContentHash) :
    (s.bumpRefCount hash).scopeKeys = s.scopeKeys := by
  unfold bumpRefCount
  split
  · rfl
  · rfl

theorem admitBody_scopeKeys {s t : EvidenceStore} {scope : ScopeId} {key : AeadKey}
    {donor : Option (Ciphertext AeadKey × AeadKey)} {body : Bytes} {hash : ContentHash}
    (h : s.admitBody scope key donor body hash = .ok t) : t.scopeKeys = s.scopeKeys := by
  unfold admitBody at h
  split at h
  · obtain rfl := Except.ok.inj h
    rfl
  · simp only at h
    split at h
    · obtain rfl := Except.ok.inj h
      exact s.bumpRefCount_scopeKeys hash
    · split at h
      · split at h
        · cases h
        · obtain rfl := Except.ok.inj h
          exact s.bumpRefCount_scopeKeys hash
      · obtain rfl := Except.ok.inj h
        exact s.bumpRefCount_scopeKeys hash

/-- The keys that admitting a body resolves are in the cache already. -/
def Warm (s : EvidenceStore) (scope : ScopeId) (hash : ContentHash) : Prop :=
  ∀ other, other = scope ∨ (∃ w, s.db.wrap hash other = some w ∧ other ≠ scope) →
    s.resolved other = s.scopeKeys

theorem Warm.dedupDonor {s : EvidenceStore} {scope : ScopeId} {hash : ContentHash}
    (h : s.Warm scope hash) (any : AnyWrap) :
    (s.dedupDonor any hash scope).1.scopeKeys = s.scopeKeys := by
  obtain ⟨donor, wrapped, hw, hne, heq⟩ | ⟨-, heq⟩ := s.dedupDonor_cases any hash scope
  · rw [heq]
    exact h donor (.inr ⟨wrapped, hw, hne⟩)
  · rw [heq]

theorem Warm.ingestBodyTable {s : EvidenceStore} {scope : ScopeId} {body : Bytes}
    (h : s.Warm scope (contentHash body)) (any : AnyWrap) (sourceRef : Option String)
    (importance : ImportanceClass) (languageTag : Option String) (now : Int) :
    (s.ingestBodyTable any scope body sourceRef importance (contentHash body) languageTag
      now).1.scopeKeys = s.scopeKeys := by
  have hself : resolved { s with draws := s.draws+1 } scope = s.scopeKeys := h scope (.inl rfl)
  have hdonor := Warm.dedupDonor (s := { s with draws := s.draws+1 }) h any
  simp only [EvidenceStore.ingestBodyTable, draw, scopeKey_eq, hself]
  split
  · exact hdonor
  · rename_i t hok
    exact (admitBody_scopeKeys hok).trans hdonor

theorem Warm.saveApproved {s : EvidenceStore} {scope : ScopeId} {plaintext : Bytes}
    (h : s.Warm scope (contentHash plaintext)) (any : AnyWrap) (documentId : Uuid) (now : Int) :
    (s.saveApprovedDocumentPayload any scope documentId plaintext (contentHash plaintext)
      now).1.scopeKeys = s.scopeKeys := by
  suffices hadmit : (s.admitApprovedDocBody any scope plaintext
      (contentHash plaintext)).1.scopeKeys = s.scopeKeys by
    unfold saveApprovedDocumentPayload
    split
    · rename_i heq
      rwa [heq] at hadmit
    · rename_i heq
      rw [heq] at hadmit
      exact hadmit
  have hself : s.resolved scope = s.scopeKeys := h scope (.inl rfl)
  have hdonor := h.dedupDonor any
  simp only [admitApprovedDocBody, scopeKey_eq, hself]
  split
  · rfl
  · split
    · rfl
    · split
      · rename_i heq
        rw [heq] at hdonor
        split
        · exact hdonor
        · exact (bumpRefCount_scopeKeys _ _).trans hdonor
      · rename_i heq
        rw [heq] at hdonor
        exact hdonor

end EvidenceStore

structure Database.Bare (db : Database) : Prop where
  ring : db.ringBuffer = []
  memory : db.memoryObjects = ∅
  instances : db.connectorInstances = ∅
  tokens : db.connectorTokens = ∅

theorem Database.Bare.of_rows {db db' : Database} (h : db.Bare) (hrows : db.SameRows db') :
    db'.Bare :=
  ⟨hrows.ringBuffer.trans h.ring, hrows.memoryObjects.trans h.memory,
    hrows.connectorInstances.trans h.instances, hrows.connectorTokens.trans h.tokens⟩

/-- The cache holds just the stored keys, and every wrap of a scope that is not between the two
steps of forgetting is under the key stored for that scope. -/
structure Orderly (s : EvidenceStore) (half : List ScopeId) : Prop where
  cached : ∀ scope, s.scopeKeys.lookup scope = s.dekFor scope
  wraps : ∀ hash scope w, s.db.wrap hash scope = some w → scope ∉ half →
    w.key = s.keyFor scope ∧ ∃ key, s.dekFor scope = some key
  bare : s.db.Bare

section

variable {s t : EvidenceStore} {half : List ScopeId} {scope : ScopeId}

theorem Orderly.hydrated (h : Orderly s half) {P : ScopeId → Prop} (hs : s.HydratedOn P) :
    s.Hydrated := by
  refine ⟨hs.opens, fun scope _ => ?_⟩
  rw [keyFor, h.cached]

theorem Orderly.resolved_eq (h : Orderly s half) {scope : ScopeId} {key : AeadKey}
    (hkey : s.dekFor scope = some key) : s.resolved scope = s.scopeKeys := by
  rw [← h.cached] at hkey
  rw [resolved, hkey]

theorem Orderly.warm (h : Orderly s half) {scope : ScopeId} {key : AeadKey}
    (hkey : s.dekFor scope = some key) {hash : ContentHash}
    (hdonors : ∀ donor ∈ half, donor ≠ scope → s.db.wrap hash donor = none) :
    s.Warm scope hash := by
  rintro other (rfl | ⟨w, hw, hne⟩)
  · exact h.resolved_eq hkey
  · have hhalf : other ∉ half := fun hmem => by
      rw [hdonors other hmem hne] at hw
      cases hw
    obtain ⟨-, key', hkey'⟩ := h.wraps hash other w hw hhalf
    exact h.resolved_eq hkey'

theorem Orderly.not_stranded (h : Orderly s half) {scope : ScopeId} {hash : ContentHash}
    (hdonors : ∀ donor ∈ half, donor ≠ scope → s.db.wrap hash donor = none) :
    ¬ Stranded s scope hash := by
  rintro ⟨donor, w, hw, hne, hkey⟩
  have hhalf : donor ∉ half := fun hmem => by
    rw [hdonors donor hmem hne] at hw
    cases hw
  exact hkey (h.wraps hash donor w hw hhalf).1

theorem Orderly.admits (h : Orderly s half) {scope : ScopeId} {body : Bytes} {key : AeadKey}
    (ha : Admits s t scope body) (hkey : s.dekFor scope = some key)
    (hcache : t.scopeKeys = s.scopeKeys) : Orderly t half := by
  refine ⟨fun other => ?_, fun hash other w hw hhalf => ?_, h.bare.of_rows ha.rows⟩
  · rw [hcache, ha.resolves.dekFor]
    exact h.cached other
  · rw [ha.resolves.keyFor, ha.resolves.dekFor]
    obtain hold | ⟨-, rfl, hwkey⟩ := ha.wraps hash other w hw
    · exact h.wraps hash other w hold hhalf
    · exact ⟨hwkey, key, hkey⟩

theorem Orderly.congr (h : Orderly s half) (hmaster : t.masterKey = s.masterKey)
    (hcache : t.scopeKeys = s.scopeKeys) (hdeks : t.db.scopeDeks = s.db.scopeDeks)
    (hwraps : t.db.keyWraps = s.db.keyWraps) (hbare : t.db.Bare) : Orderly t half := by
  have hdek : ∀ scope, t.dekFor scope = s.dekFor scope := fun scope => by
    rw [dekFor, dekFor, hdeks, hmaster]
  have hkey : ∀ scope, t.keyFor scope = s.keyFor scope := fun scope => by
    rw [keyFor, keyFor, hcache, legacyKey, legacyKey, hmaster]
  refine ⟨fun scope => ?_, fun hash scope w hw hhalf => ?_, hbare⟩
  · rw [hcache, hdek]
    exact h.cached scope
  · rw [Database.wrap, hwraps] at hw
    rw [hkey, hdek]
    exact h.wraps hash scope w hw hhalf

theorem ensureScopeDek_new (hcache : s.scopeKeys.lookup scope = none)
    (hrow : s.db.scopeDeks.lookup scope = none) (now : Int) :
    ∃ dek, (s.ensureScopeDek scope now).1.scopeKeys = s.scopeKeys.insert scope dek ∧
      Provides s (s.ensureScopeDek scope now).1 scope dek := by
  have hstore : ∀ (u : EvidenceStore) (dek : AeadKey), u.db.scopeDeks.lookup scope = none →
      (u.storeScopeDek scope dek now).scopeKeys = u.scopeKeys.insert scope dek := by
    intro u dek hu
    simp only [storeScopeDek, draw, hu]
  simp only [ensureScopeDek, hcache, hrow]
  split
  · exact ⟨_, hstore s _ hrow, provides_storeScopeDek hrow _ now⟩
  · refine ⟨_, hstore { s with draws := s.draws+1 } _ hrow, ?_⟩
    obtain ⟨h1, h2, h3, h4, h5, h6, h7, h8⟩ := provides_storeScopeDek (s := { s with
      draws := s.draws+1 }) hrow (.random s.draws) now
    exact ⟨h1, h2, Nat.lt_trans (Nat.lt_succ_self _) h3, h4, h5, h6, h7, h8⟩

theorem Orderly.lookup_eq_none (h : Orderly s half) (hs : s.Hydrated)
    (hcache : s.scopeKeys.lookup scope = none) : s.db.scopeDeks.lookup scope = none := by
  rw [h.cached] at hcache
  exact hs.lookup_eq_none hcache

theorem Orderly.ensureScopeDek (h : Orderly s half) (hs : s.Hydrated) (scope : ScopeId)
    (now : Int) : Orderly (s.ensureScopeDek scope now).1 half := by
  cases hcache : s.scopeKeys.lookup scope with
  | some key =>
    simp only [EvidenceStore.ensureScopeDek, hcache]
    exact h
  | none =>
    have hrow := h.lookup_eq_none hs hcache
    obtain ⟨dek, hkeys, hp⟩ := ensureScopeDek_new hcache hrow now
    refine ⟨fun other => ?_, fun hash other w hw hhalf => ?_, ?_⟩
    · rw [hkeys, hp.dek, Table.lookup_insert_ite, h.cached]
    · rw [Database.wrap, hp.data.keyWraps] at hw
      obtain ⟨hkey, key, hdek⟩ := h.wraps hash other w hw hhalf
      have hne : other ≠ scope := by
        rintro rfl
        rw [dekFor_eq_none hrow] at hdek
        cases hdek
      rw [hp.key, if_neg hne, hp.dek, if_neg hne]
      exact ⟨hkey, key, hdek⟩
    · exact ⟨hp.data.ringBuffer.trans h.bare.ring, hp.data.memoryObjects.trans h.bare.memory,
        hp.data.connectorInstances.trans h.bare.instances,
        hp.data.connectorTokens.trans h.bare.tokens⟩

theorem Orderly.provisioned (h : Orderly s half) (hs : s.Hydrated) (scope : ScopeId) (now : Int) :
    ∃ key, (s.ensureScopeDek scope now).1.dekFor scope = some key := by
  cases hcache : s.scopeKeys.lookup scope with
  | some key =>
    simp only [EvidenceStore.ensureScopeDek, hcache]
    exact ⟨key, (h.cached scope).symm.trans hcache⟩
  | none =>
    obtain ⟨dek, -, hp⟩ := ensureScopeDek_new hcache (h.lookup_eq_none hs hcache) now
    exact ⟨dek, by rw [hp.dek, if_pos rfl]⟩

theorem Orderly.deleteScopeDek (h : Orderly s half) (scope : ScopeId) :
    Orderly (s.deleteScopeDek scope) (scope :: half) := by
  refine ⟨fun other => ?_, fun hash other w hw hhalf => ?_, ⟨h.bare.1, h.bare.2, h.bare.3, h.bare.4⟩⟩
  · rw [dekFor_deleteScopeDek]
    simp only [EvidenceStore.deleteScopeDek, Table.lookup_erase_ite]
    split
    · rfl
    · exact h.cached other
  · rw [List.mem_cons, not_or] at hhalf
    rw [keyFor_deleteScopeDek, if_neg hhalf.1, dekFor_deleteScopeDek, if_neg hhalf.1]
    exact h.wraps hash other w hw hhalf.2

theorem Orderly.purge (h : Orderly s half) (scope : ScopeId) :
    Orderly (s.purgeBodyKeyWrapsForScope scope) (half.filter (· ≠ scope)) := by
  refine ⟨h.cached, fun hash other w hw hhalf => ?_, h.bare.of_rows (.of_bodies _ _ _)⟩
  rw [wrap_purge] at hw
  split at hw
  · cases hw
  · rename_i hne
    refine h.wraps hash other w hw fun hmem => hhalf ?_
    simp [hmem, hne]

theorem Orderly.reopen (h : Orderly s half) (hs : s.Hydrated) : Orderly s.reopen.1 half := by
  obtain ⟨hdb, hmaster, -, -, hkey⟩ := reopen_spec hs
  have hdek : ∀ scope, s.reopen.1.dekFor scope = s.dekFor scope := fun scope => by
    rw [dekFor, dekFor, hdb, hmaster]
  refine ⟨fun scope => ?_, fun hash scope w hw hhalf => ?_, ?_⟩
  · obtain heq | ⟨deks, hcache, heq⟩ := reopen_cases hs
    · rw [heq]
      exact h.cached scope
    · rw [heq]
      exact hcache scope
  · rw [hdb] at hw
    rw [hkey scope trivial, hdek]
    exact h.wraps hash scope w hw hhalf
  · rw [hdb]
    exact h.bare

end

namespace Books

def provisioned (b : Books) (scope : ScopeId) : Prop := ∃ key, b.store.dekFor scope = some key

/-- Bodies for the table and approved documents go to scopes that have a stored key; besides
them, scopes are provisioned and forgotten and the store is opened again. -/
def Shares (b : Books) : Op → Prop
  | .ingest _ scope body _ importance _ _ => b.provisioned scope ∧
    routeStorageWithThreshold body.length importance b.store.config.inlineThresholdBytes =
      .bodyTable
  | .saveApprovedDocumentPayload _ scope _ _ _ => b.provisioned scope
  | .ensureScopeDek _ _ | .deleteScopeDek _ | .purgeBodyKeyWraps _ | .reopen => True
  | _ => False

/-- No other scope that is between the two steps of forgetting has a wrap of the content. -/
def spares (b : Books) (scope : ScopeId) (hash : ContentHash) : Prop :=
  ∀ donor ∈ b.half, donor ≠ scope → b.store.db.wrap hash donor = none

def DonorsWhole (b : Books) : Op → Prop
  | .ingest _ scope body _ _ _ _ => b.spares scope (contentHash body)
  | .saveApprovedDocumentPayload _ scope _ plaintext _ => b.spares scope (contentHash plaintext)
  | _ => True

def accepts (b : Books) : Op → Prop
  | .ingest any scope body sourceRef importance languageTag now => ∃ result,
    (b.store.ingestWithLanguage any scope body sourceRef importance languageTag now).2 = .ok result
  | .saveApprovedDocumentPayload any scope documentId plaintext now =>
    (b.store.saveApprovedDocumentPayload any scope documentId plaintext (contentHash plaintext)
      now).2 = .ok ()
  | _ => True

end Books

open Books

/-- The ledger is kept, the keys are in order, and scopes are purged only once forgotten. -/
structure Tidy (b : Books) : Prop where
  upkept : Upkept b
  orderly : Orderly b.store b.half
  half : ∀ scope ∈ b.half, scope ∈ b.forgotten

section

variable {b : Books}

theorem Tidy.hydrated (h : Tidy b) : b.store.Hydrated := h.orderly.hydrated h.upkept.hydrated

theorem Tidy.mintsUnused (h : Tidy b) (scope : ScopeId) (now : Int) :
    b.MintsUnused (.ensureScopeDek scope now) := by
  intro hlive hcache hrow hevidence
  have hhalf : scope ∉ b.half := fun hmem => hlive (h.half scope hmem)
  refine ⟨fun hash => ?_, fun r hr => ?_, fun kind => ?_, fun id row hl => ?_, fun id row hl => ?_⟩
  · cases hw : b.store.db.wrap hash scope with
    | none => rfl
    | some w =>
      obtain ⟨-, key, hdek⟩ := h.orderly.wraps hash scope w hw hhalf
      rw [dekFor_eq_none hrow] at hdek
      cases hdek
  · rw [h.orderly.bare.ring] at hr
    cases hr
  · rw [h.orderly.bare.memory]
    exact AList.lookup_empty _
  · rw [h.orderly.bare.instances] at hl
    cases hl
  · rw [h.orderly.bare.tokens] at hl
    cases hl

theorem Tidy.ingest_ok (h : Tidy b) {scope : ScopeId} {body : Bytes}
    (hspares : b.spares scope (contentHash body)) (any : AnyWrap) (sourceRef : Option String)
    (importance : ImportanceClass) (languageTag : Option String) (now : Int) :
    ∃ t, Admits b.store t scope body ∧
      b.store.ingestBodyTable any scope body sourceRef importance (contentHash body) languageTag
        now = (t.insertEvidence ⟨b.store.draws⟩ ⟨scope, contentHash body, none,
          some (contentHash body), sourceRef, importance, .bodyTable, now, languageTag⟩,
          .ok ⟨⟨b.store.draws⟩, .bodyTable, contentHash body⟩) := by
  obtain ⟨t, ha, -, heq⟩ | ⟨t, err, -, hstranded, -⟩ := ingestBodyTable_cases h.upkept.bodies any
    scope body sourceRef importance languageTag now
  · exact ⟨t, ha, heq⟩
  · exact absurd hstranded (h.orderly.not_stranded hspares)

theorem Tidy.saveApproved_ok (h : Tidy b) {scope : ScopeId} {plaintext : Bytes}
    (hspares : b.spares scope (contentHash plaintext)) (any : AnyWrap) (documentId : Uuid)
    (now : Int) :
    ∃ t, Admits b.store t scope plaintext ∧
      b.store.saveApprovedDocumentPayload any scope documentId plaintext (contentHash plaintext)
        now = ({ t with
          db := { t.db with
            approvedDocuments := (t.db.approvedDocuments.insert (scope, documentId)
              ⟨contentHash plaintext, min plaintext.length (2^63-1), now⟩) } },
          .ok ()) := by
  obtain hok | ⟨t, err, -, hstranded, -⟩ :=
    saveApprovedDocumentPayload_cases h.upkept.bodies any scope documentId plaintext now
  · exact hok
  · exact absurd hstranded (h.orderly.not_stranded hspares)

theorem Tidy.accepts (h : Tidy b) {op : Op} (hshares : b.Shares op) (hdonors : b.DonorsWhole op) :
    b.accepts op := by
  cases op with
  | ingest any scope body sourceRef importance languageTag now =>
    obtain ⟨t, -, heq⟩ := h.ingest_ok hdonors any sourceRef importance languageTag now
    simp only [Books.accepts, ingestWithLanguage, hshares.2, heq]
    exact ⟨_, rfl⟩
  | saveApprovedDocumentPayload any scope documentId plaintext now =>
    obtain ⟨t, -, heq⟩ := h.saveApproved_ok hdonors any documentId now
    simp only [Books.accepts, heq]
  | _ => trivial

theorem Tidy.orderly_ingest (h : Tidy b) {scope : ScopeId} {body : Bytes}
    (hprovisioned : b.provisioned scope) (hspares : b.spares scope (contentHash body))
    (any : AnyWrap) (sourceRef : Option String) (importance : ImportanceClass)
    (languageTag : Option String) (now : Int) :
    Orderly (b.store.ingestBodyTable any scope body sourceRef importance (contentHash body)
      languageTag now).1 b.half := by
  obtain ⟨key, hkey⟩ := hprovisioned
  obtain ⟨t, ha, heq⟩ := h.ingest_ok hspares any sourceRef importance languageTag now
  have hcache := (h.orderly.warm hkey hspares).ingestBodyTable any sourceRef importance
    languageTag now
  rw [heq] at hcache ⊢
  have ht := h.orderly.admits ha hkey hcache
  exact ht.congr rfl rfl rfl rfl ⟨ht.bare.1, ht.bare.2, ht.bare.3, ht.bare.4⟩

theorem Tidy.orderly_saveApproved (h : Tidy b) {scope : ScopeId} {plaintext : Bytes}
    (hprovisioned : b.provisioned scope) (hspares : b.spares scope (contentHash plaintext))
    (any : AnyWrap) (documentId : Uuid) (now : Int) :
    Orderly (b.store.saveApprovedDocumentPayload any scope documentId plaintext
      (contentHash plaintext) now).1 b.half := by
  obtain ⟨key, hkey⟩ := hprovisioned
  obtain ⟨t, ha, heq⟩ := h.saveApproved_ok hspares any documentId now
  have hcache := (h.orderly.warm hkey hspares).saveApproved any documentId now
  rw [heq] at hcache ⊢
  have ht := h.orderly.admits ha hkey hcache
  exact ht.congr rfl rfl rfl rfl ⟨ht.bare.1, ht.bare.2, ht.bare.3, ht.bare.4⟩

theorem Tidy.next (h : Tidy b) {op : Op} (henabled : b.enabled op) (hshares : b.Shares op)
    (hdonors : b.DonorsWhole op) : Tidy (b.next op) := by
  cases op with
  | ingest any scope body sourceRef importance languageTag now =>
    refine ⟨h.upkept.next henabled trivial, ?_, h.half⟩
    simp only [Books.next, Books.after, ingestWithLanguage, hshares.2]
    exact h.orderly_ingest hshares.1 hdonors any sourceRef importance languageTag now
  | saveApprovedDocumentPayload any scope documentId plaintext now =>
    exact ⟨h.upkept.next henabled trivial, h.orderly_saveApproved hshares hdonors any documentId now,
      h.half⟩
  | ensureScopeDek scope now =>
    exact ⟨h.upkept.next henabled (h.mintsUnused scope now),
      h.orderly.ensureScopeDek h.hydrated scope now, h.half⟩
  | deleteScopeDek scope =>
    refine ⟨h.upkept.next henabled trivial, h.orderly.deleteScopeDek scope, fun other hmem => ?_⟩
    obtain rfl | hmem := List.mem_cons.mp hmem
    · exact List.mem_cons_self
    · exact List.mem_cons_of_mem _ (h.half other hmem)
  | purgeBodyKeyWraps scope =>
    exact ⟨h.upkept.next henabled trivial, h.orderly.purge scope,
      fun other hmem => h.half other (List.mem_of_mem_filter hmem)⟩
  | reopen =>
    exact ⟨h.upkept.next henabled trivial, h.orderly.reopen h.hydrated, h.half⟩
  | _ => exact hshares.elim

theorem Tidy.provisioned_next (h : Tidy b) {op : Op} (hshares : b.Shares op)
    (hdonors : b.DonorsWhole op) {scope : ScopeId} (hne : ∀ other, op = .deleteScopeDek other →
      other ≠ scope) (hprovisioned : b.provisioned scope) : (b.next op).provisioned scope := by
  obtain ⟨key, hkey⟩ := hprovisioned
  cases op with
  | ingest any into body sourceRef importance languageTag now =>
    obtain ⟨t, ha, heq⟩ := h.ingest_ok hdonors any sourceRef importance languageTag now
    refine ⟨key, ?_⟩
    simp only [Books.next, Books.after, ingestWithLanguage, hshares.2, heq]
    exact (ha.resolves.dekFor scope).trans hkey
  | saveApprovedDocumentPayload any into documentId plaintext now =>
    obtain ⟨t, ha, heq⟩ := h.saveApproved_ok hdonors any documentId now
    refine ⟨key, ?_⟩
    simp only [Books.next, Books.after, heq]
    exact (ha.resolves.dekFor scope).trans hkey
  | ensureScopeDek other now =>
    simp only [Books.next, Books.provisioned]
    obtain ⟨hquiet, -⟩ | ⟨-, -, hp, -⟩ | ⟨-, -, -, hp, -⟩ :=
      ensureScopeDek_cases h.hydrated other trivial now
    · exact ⟨key, (hquiet.resolves.dekFor scope).trans hkey⟩
    · rw [hp.dek]
      split
      · exact ⟨_, rfl⟩
      · exact ⟨key, hkey⟩
    · rw [hp.dek]
      split
      · exact ⟨_, rfl⟩
      · exact ⟨key, hkey⟩
  | deleteScopeDek other =>
    refine ⟨key, (dekFor_deleteScopeDek b.store other scope).trans ?_⟩
    rw [if_neg (hne other rfl).symm, hkey]
  | purgeBodyKeyWraps other => exact ⟨key, hkey⟩
  | reopen =>
    obtain ⟨hdb, hmaster, -, -, -⟩ := reopen_spec h.hydrated
    refine ⟨key, ?_⟩
    simp only [Books.next]
    rw [dekFor, hdb, hmaster]
    exact hkey
  | _ => exact hshares.elim

end

theorem tidy_of_reachable {masterKey : MasterKey} {config : EvidenceStoreConfig} {b : Books}
    (h : ((system masterKey config).restrict fun b op =>
      b.Shares op ∧ b.DonorsWhole op).Reachable b) : Tidy b := by
  refine h.invariant Tidy ?_ ?_
  · rintro b rfl
    refine ⟨upkept_start masterKey config, ⟨fun _ => rfl, fun hash scope w hw => ?_,
      ⟨rfl, rfl, rfl, rfl⟩⟩, fun scope hmem => ?_⟩
    · cases hw
    · cases hmem
  · rintro b op b' - hb ⟨⟨henabled, rfl⟩, hshares, hdonors⟩
    exact hb.next henabled hshares hdonors

/-- What scopes that share bodies may count on: live ones read what they wrote, and a body is
there just as long as somebody has a wrap of it. -/
structure SoundlyShared (b : Books) : Prop where
  readable : Readable b
  wrapped : ∀ hash, (∃ row, b.store.db.bodyStore.lookup hash = some row) ↔
    ∃ scope w, b.store.db.wrap hash scope = some w

/-- In every run in which no body is stored while another scope between the two steps of
forgetting still has a wrap of it, bodies are shared soundly and every call that stores one
succeeds. A scope has a stored key from when it is provisioned until the key is deleted. -/
theorem shared_bodies_sound {masterKey : MasterKey} {config : EvidenceStoreConfig} {b : Books}
    (h : ((system masterKey config).restrict fun b op =>
      b.Shares op ∧ b.DonorsWhole op).Reachable b) :
    SoundlyShared b ∧ (∀ op, b.Shares op → b.DonorsWhole op → b.accepts op) ∧
      (∀ scope now, (b.next (.ensureScopeDek scope now)).provisioned scope) ∧
      ∀ op scope, b.Shares op → b.DonorsWhole op → (∀ other, op = .deleteScopeDek other →
        other ≠ scope) → b.provisioned scope → (b.next op).provisioned scope := by
  have htidy := tidy_of_reachable h
  refine ⟨⟨htidy.upkept.readable, htidy.upkept.bodies.exists_body_iff⟩, ?_, ?_, ?_⟩
  · exact fun op => htidy.accepts
  · exact htidy.orderly.provisioned htidy.hydrated
  · exact fun op scope hshares hdonors hne => htidy.provisioned_next hshares hdonors hne

/-- One scope stores a body and is forgotten up to the purge; the store is opened again. -/
def halfForgotten : List Op :=
  [.ensureScopeDek 1 0, .ensureScopeDek 2 0,
    .ingest anyFirst 1 [1, 2, 3, 4, 5] none .useful none 0, .deleteScopeDek 1, .reopen]

def Books.IntoLive (b : Books) : Op → Prop
  | .ingest _ scope _ _ _ _ _ | .saveApprovedDocumentPayload _ scope _ _ _ => b.live scope
  | _ => True

/-- Another scope then cannot store the same body: the only wrap of it does not open under the
legacy key that the forgotten scope now resolves to. -/
theorem half_forgotten_donor_refuses : ¬ ∀ (masterKey : MasterKey) (config : EvidenceStoreConfig)
    (b : Books), ((system masterKey config).restrict Books.Shares).Reachable b →
      SoundlyShared b ∧ ∀ op, b.Shares op → b.IntoLive op → b.accepts op := by
  intro h
  have hreach : ((system 7 sampleConfig).restrict Books.Shares).Reachable
      (halfForgotten.foldl next (.start 7 sampleConfig)) :=
    Legal.reachable_restrict ⟨⟨trivial, trivial⟩, ⟨trivial, trivial⟩,
      ⟨trivial, Option.isSome_iff_exists.mp (by decide +kernel), by decide +kernel⟩,
      ⟨trivial, trivial⟩, ⟨trivial, trivial⟩, trivial⟩ (.init rfl)
  have hlive : (halfForgotten.foldl next (.start 7 sampleConfig)).live 2 := by decide +kernel
  obtain ⟨result, hok⟩ := (h 7 sampleConfig _ hreach).2
    (.ingest anyFirst 2 [1, 2, 3, 4, 5] none .useful none 0)
    ⟨Option.isSome_iff_exists.mp (by decide +kernel), by decide +kernel⟩ hlive
  have hrefused : ((halfForgotten.foldl next (.start 7 sampleConfig)).store.ingestWithLanguage
      anyFirst 2 [1, 2, 3, 4, 5] none .useful none 0).2.toOption = none := by decide +kernel
  rw [hok] at hrefused
  cases hrefused

def sharedThenForgotten : List Op :=
  [.ensureScopeDek 1 0, .ensureScopeDek 2 0, .ingest anyFirst 1 [1, 2, 3, 4, 5] none .useful none 0,
    .ingest anyFirst 2 [1, 2, 3, 4, 5] none .useful none 0,
    .deleteScopeDek 1, .reopen, .purgeBodyKeyWraps 1]

theorem shared_bodies_sound_two :
    ((sharedThenForgotten.foldl next (.start 7 sampleConfig)).store.readBody ⟨8⟩).2 =
      .ok [1, 2, 3, 4, 5] := by
  have hreach : ((system 7 sampleConfig).restrict fun b op =>
      b.Shares op ∧ b.DonorsWhole op).Reachable
      (sharedThenForgotten.foldl next (.start 7 sampleConfig)) :=
    Legal.reachable_restrict ⟨⟨trivial, trivial, trivial⟩, ⟨trivial, trivial, trivial⟩,
      ⟨trivial, ⟨Option.isSome_iff_exists.mp (by decide +kernel), by decide +kernel⟩,
        fun donor hmem => nomatch hmem⟩,
      ⟨trivial, ⟨Option.isSome_iff_exists.mp (by decide +kernel), by decide +kernel⟩,
        fun donor hmem => nomatch hmem⟩,
      ⟨trivial, trivial, trivial⟩, ⟨trivial, trivial, trivial⟩,
      ⟨List.mem_cons_self, trivial, trivial⟩, trivial⟩ (.init rfl)
  exact (shared_bodies_sound hreach).1.readable.bodies ⟨8⟩ 2 [1, 2, 3, 4, 5] (by decide +kernel)
    (by decide +kernel)

end Knowledge.Evidence
