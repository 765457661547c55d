import Knowledge.Evidence.Writes

/-!
What was written reads back. The invariant ties the ledger to the tables: under each entry of
a live scope there is a row sealed under the key the scope resolves to.
-/

set_option autoImplicit false

namespace Knowledge.Evidence
open Knowledge.Cipher
open Knowledge.Sync (Uuid)
open Knowledge.Transition
open EvidenceStore

/-- Where an ingested body is: in its row, or in a body the scope has a wrap of. -/
inductive Placed (wrap : ContentHash → ScopeId → Option (Ciphertext AeadKey)) (key : AeadKey)
    (id : EvidenceId) (scope : ScopeId) (body : Bytes) (row : EvidenceRow) : Prop where
  | inline (c : Ciphertext Bytes) (hpath : row.storagePath = .inline) (hbody : row.body = some c)
      (hsealed : SealedAs c key (ingestAad scope id (contentHash body)) body)
  | bodyTable (w : Ciphertext AeadKey) (hpath : row.storagePath = .bodyTable)
      (href : row.bodyRef = some (contentHash body))
      (hwrap : wrap (contentHash body) scope = some w)

structure Kept (l : Ledger) (db : Database) (key : ScopeId → AeadKey) (live : ScopeId → Prop) :
    Prop where
  bodies : ∀ id scope body, l.bodies.lookup id = some (scope, body) → live scope →
    ∃ row, db.evidence.lookup id = some row ∧ row.scopeId = scope ∧
      row.contentHash = contentHash body ∧ Placed db.wrap (key scope) id scope body row
  wraps : ∀ hash scope w, db.wrap hash scope = some w → live scope → w.key = key scope
  ring : ∀ r ∈ db.ringBuffer, r.id ≤ db.ringSequence ∧
    ∃ body, l.ring.lookup r.id = some (r.scopeId, body) ∧
      (live r.scopeId → SealedAs r.body (key r.scopeId) (ringBufferAad r.scopeId) body)
  memory : ∀ scope kind plaintext, l.memory.lookup (scope, kind) = some plaintext → live scope →
    ∃ row, db.memoryObjects.lookup (scope, kind) = some row ∧
      SealedAs row.payload (key scope) (memoryAad scope kind) plaintext
  instances : ∀ id scope kind plaintext, l.instances.lookup id = some (scope, kind, plaintext) →
    live scope → ∃ row, db.connectorInstances.lookup id = some row ∧ row.scopeId = scope ∧
      row.kind = kind ∧
      SealedAs row.payload (key scope) (connectorInstanceAad scope id kind) plaintext
  tokens : ∀ id scope plaintext, l.tokens.lookup id = some (scope, plaintext) → live scope →
    ∃ row, db.connectorTokens.lookup id = some row ∧ row.scopeId = scope ∧
      SealedAs row.payload (key scope) (connectorTokenAad scope id) plaintext
  approved : ∀ scope id plaintext, l.approved.lookup (scope, id) = some plaintext → live scope →
    ∃ row, db.approvedDocuments.lookup (scope, id) = some row ∧
      row.contentHash = contentHash plaintext ∧
      ∃ w, db.wrap (contentHash plaintext) scope = some w

structure Upkept (b : Books) : Prop where
  hydrated : b.store.HydratedOn b.live
  bodies : b.store.db.Bodies
  kept : Kept b.ledger b.store.db b.store.keyFor b.live

section

variable {l : Ledger} {db : Database} {key : ScopeId → AeadKey} {live : ScopeId → Prop}

theorem Kept.narrow (h : Kept l db key live) {key' : ScopeId → AeadKey} {live' : ScopeId → Prop}
    (hlive : ∀ scope, live' scope → live scope)
    (hkey : ∀ scope, live' scope → key' scope = key scope) : Kept l db key' live' := by
  constructor
  · intro id scope body hl hs
    rw [hkey scope hs]
    exact h.bodies id scope body hl (hlive scope hs)
  · intro hash scope w hw hs
    rw [hkey scope hs]
    exact h.wraps hash scope w hw (hlive scope hs)
  · intro r hr
    obtain ⟨hid, body, hl, hsealed⟩ := h.ring r hr
    refine ⟨hid, body, hl, fun hs => ?_⟩
    rw [hkey _ hs]
    exact hsealed (hlive _ hs)
  · intro scope kind plaintext hl hs
    rw [hkey scope hs]
    exact h.memory scope kind plaintext hl (hlive scope hs)
  · intro id scope kind plaintext hl hs
    rw [hkey scope hs]
    exact h.instances id scope kind plaintext hl (hlive scope hs)
  · intro id scope plaintext hl hs
    rw [hkey scope hs]
    exact h.tokens id scope plaintext hl (hlive scope hs)
  · intro scope id plaintext hl hs
    exact h.approved scope id plaintext hl (hlive scope hs)

theorem Kept.rewrapped (h : Kept l db key live) {db' : Database} (hrows : db.SameRows db')
    (hkept : ∀ hash scope w, db.wrap hash scope = some w → live scope →
      ∃ w', db'.wrap hash scope = some w')
    (hwraps : ∀ hash scope w, db'.wrap hash scope = some w → live scope →
      w.key = key scope) : Kept l db' key live := by
  constructor
  · intro id scope body hl hs
    obtain ⟨row, hrow, hscope, hhash, hplaced⟩ := h.bodies id scope body hl hs
    refine ⟨row, by rw [hrows.evidence, hrow], hscope, hhash, ?_⟩
    cases hplaced with
    | inline c hpath hbody hsealed => exact .inline c hpath hbody hsealed
    | bodyTable w hpath href hwrap =>
      obtain ⟨w', hw'⟩ := hkept _ scope w hwrap hs
      exact .bodyTable w' hpath href hw'
  · exact hwraps
  · rw [hrows.ringBuffer, hrows.ringSequence]
    exact h.ring
  · rw [hrows.memoryObjects]
    exact h.memory
  · rw [hrows.connectorInstances]
    exact h.instances
  · rw [hrows.connectorTokens]
    exact h.tokens
  · intro scope id plaintext hl hs
    obtain ⟨row, hrow, hhash, w, hw⟩ := h.approved scope id plaintext hl hs
    exact ⟨row, by rw [hrows.approvedDocuments, hrow], hhash, hkept _ scope w hw hs⟩

end

theorem Upkept.quiet {b : Books} (h : Upkept b) {t : EvidenceStore} (hq : Quiet b.store t) :
    Upkept { b with store := t } := by
  refine ⟨hq.resolves.hydrated h.hydrated, ?_, ?_⟩
  · rw [hq.db]
    exact h.bodies
  · rw [hq.db]
    exact h.kept.narrow (fun _ hs => hs) fun scope _ => hq.resolves.keyFor scope

theorem evict_subset (cap : Nat) (rows : List RingRow) : RingRow.evict cap rows ⊆ rows := by
  fun_induction RingRow.evict cap rows with
  | case1 rows _ => exact List.Subset.refl _
  | case2 rows _ _ => exact List.Subset.refl _
  | case3 rows _ v _ ih => exact fun r hr => List.mem_of_mem_filter (ih hr)

section

variable {b : Books}

theorem Upkept.write (h : Upkept b) {t : EvidenceStore} {ledger : Ledger}
    (hres : Resolves b.store t) (hbodies : t.db.Bodies)
    (hkept : Kept ledger t.db b.store.keyFor b.live) :
    Upkept { b with store := t, ledger := ledger } :=
  ⟨hres.hydrated h.hydrated, hbodies,
    hkept.narrow (fun _ hs => hs) fun scope _ => hres.keyFor scope⟩

theorem Upkept.saveMemoryBlob (h : Upkept b) (scope : ScopeId) (kind : String) (plaintext : Bytes)
    (now : Int) : Upkept (b.next (.saveMemoryBlob scope kind plaintext now)) := by
  simp only [Books.next, Books.after, saveMemoryBlob_eq]
  refine h.write (resolves_of_resolved scope rfl rfl (Nat.le_succ _) rfl rfl)
    (h.bodies.congr rfl rfl) { h.kept with memory := fun scope' kind' plaintext' hl hs => ?_ }
  rw [Table.lookup_insert_ite] at hl
  simp only [Table.lookup_insert_ite]
  split at hl
  · rename_i heq
    obtain ⟨rfl, rfl⟩ := Prod.mk.inj heq
    obtain rfl := Option.some.inj hl
    rw [if_pos rfl]
    exact ⟨_, rfl, rfl, rfl, rfl⟩
  · rename_i hne
    rw [if_neg hne]
    exact h.kept.memory scope' kind' plaintext' hl hs

theorem Upkept.saveConnectorToken (h : Upkept b) (instanceId : Uuid) (scope : ScopeId)
    (plaintext : Bytes) (now : Int) :
    Upkept (b.next (.saveConnectorToken instanceId scope plaintext now)) := by
  simp only [Books.next, Books.after, saveConnectorToken_eq]
  refine h.write (resolves_of_resolved scope rfl rfl (Nat.le_succ _) rfl rfl)
    (h.bodies.congr rfl rfl) { h.kept with tokens := fun id scope' plaintext' hl hs => ?_ }
  rw [Table.lookup_insert_ite] at hl
  simp only [Table.lookup_insert_ite]
  split at hl
  · rename_i heq
    subst heq
    obtain ⟨rfl, rfl⟩ := Prod.mk.inj (Option.some.inj hl)
    rw [if_pos rfl]
    exact ⟨_, rfl, rfl, rfl, rfl, rfl⟩
  · rename_i hne
    rw [if_neg hne]
    exact h.kept.tokens id scope' plaintext' hl hs

theorem Upkept.saveConnectorInstance (h : Upkept b) (instanceId : Uuid) (scope : ScopeId)
    (kindTag : String) (plaintext : Bytes) (now : Int) :
    Upkept (b.next (.saveConnectorInstance instanceId scope kindTag plaintext now)) := by
  simp only [Books.next, Books.after]
  obtain ⟨t, err, heq, hquiet⟩ | heq :=
    b.store.saveConnectorInstance_cases instanceId scope kindTag plaintext now
  · rw [heq]
    exact h.quiet hquiet
  · rw [heq]
    refine h.write (resolves_of_resolved scope rfl rfl (Nat.le_succ _) rfl rfl)
      (h.bodies.congr rfl rfl) { h.kept with instances := fun id scope' kind plaintext' hl hs => ?_ }
    rw [Table.lookup_insert_ite] at hl
    simp only [Table.lookup_insert_ite]
    split at hl
    · rename_i heq
      subst heq
      obtain ⟨rfl, hrest⟩ := Prod.mk.inj (Option.some.inj hl)
      obtain ⟨rfl, rfl⟩ := Prod.mk.inj hrest
      rw [if_pos rfl]
      exact ⟨_, rfl, rfl, rfl, rfl, rfl, rfl⟩
    · rename_i hne
      rw [if_neg hne]
      exact h.kept.instances id scope' kind plaintext' hl hs

theorem Upkept.ringBufferInsert (h : Upkept b) (scope : ScopeId) (body : Bytes)
    (priority now : Int) : Upkept (b.next (.ringBufferInsert scope body priority now)) := by
  simp only [Books.next, Books.after, ringBufferInsert_eq]
  refine h.write (resolves_of_resolved scope rfl rfl (Nat.le_succ _) rfl rfl)
    (h.bodies.congr rfl rfl) { h.kept with ring := fun r hr => ?_ }
  simp only [Table.lookup_insert_ite]
  obtain hr | hr := List.mem_append.mp (evict_subset _ _ hr)
  · obtain ⟨hid, body', hl, hsealed⟩ := h.kept.ring r hr
    refine ⟨Nat.le_succ_of_le hid, body', ?_, hsealed⟩
    rw [if_neg (by omega), hl]
  · obtain rfl := List.mem_singleton.mp hr
    exact ⟨Nat.le_refl _, body, if_pos rfl, fun _ => ⟨rfl, rfl, rfl⟩⟩

theorem Upkept.ringBufferReadWindow (h : Upkept b) (scope : ScopeId) (now : Int) :
    Upkept (b.next (.ringBufferReadWindow scope now)) := by
  have hquiet := b.store.quiet_resolved scope
  simp only [Books.next, EvidenceStore.ringBufferReadWindow, scopeKey_eq]
  split
  · exact h.quiet hquiet
  · rename_i entries _
    refine h.write ⟨hquiet.resolves.master, hquiet.resolves.config, hquiet.resolves.draws,
      hquiet.resolves.deks, hquiet.resolves.cache⟩ (h.bodies.congr rfl rfl)
      { h.kept with ring := fun r hr => ?_ }
    obtain ⟨r₀, hr₀, rfl⟩ := List.mem_map.mp hr
    by_cases hid : r₀.id ∈ entries.map RingBufferEntry.id
    · rw [if_pos hid]
      exact h.kept.ring r₀ hr₀
    · rw [if_neg hid]
      exact h.kept.ring r₀ hr₀

theorem Upkept.ingestInline (h : Upkept b) (scope : ScopeId) (body : Bytes)
    (sourceRef : Option String) (importance : ImportanceClass) (languageTag : Option String)
    (now : Int) :
    Upkept { b with
      store := (b.store.ingestInline scope body sourceRef importance (contentHash body)
        languageTag now).1
      ledger := { b.ledger with
        bodies := (b.ledger.bodies.insert ⟨b.store.draws⟩ (scope, body)) } } := by
  simp only [ingestInline_eq]
  refine h.write (resolves_of_resolved scope rfl rfl (Nat.le_add_right _ 2) rfl rfl)
    (h.bodies.congr rfl rfl) { h.kept with bodies := fun id scope' body' hl hs => ?_ }
  rw [Table.lookup_insert_ite] at hl
  simp only [Table.lookup_insert_ite]
  split at hl
  · rename_i heq
    subst heq
    obtain ⟨rfl, rfl⟩ := Prod.mk.inj (Option.some.inj hl)
    rw [if_pos rfl]
    exact ⟨_, rfl, rfl, rfl, .inline _ rfl rfl ⟨rfl, rfl, rfl⟩⟩
  · rename_i hne
    rw [if_neg hne]
    exact h.kept.bodies id scope' body' hl hs

theorem Upkept.admits (h : Upkept b) {t : EvidenceStore} {scope : ScopeId} {body : Bytes}
    (ha : Admits b.store t scope body) : Upkept { b with store := t } := by
  refine h.write ha.resolves ha.bodies (h.kept.rewrapped ha.rows ?_ ?_)
  · intro hash scope' w hw _
    exact ⟨w, ha.kept hash scope' w hw⟩
  · intro hash scope' w hw hs
    obtain hold | ⟨-, rfl, hkey⟩ := ha.wraps hash scope' w hw
    · exact h.kept.wraps hash scope' w hold hs
    · exact hkey

theorem Upkept.ingestBodyTable (h : Upkept b) {t : EvidenceStore} {scope : ScopeId} {body : Bytes}
    (ha : Admits b.store t scope body) (id : EvidenceId) {row : EvidenceRow}
    (hscope : row.scopeId = scope) (hhash : row.contentHash = contentHash body)
    (hpath : row.storagePath = .bodyTable) (href : row.bodyRef = some (contentHash body)) :
    Upkept { b with
      store := t.insertEvidence id row
      ledger := { b.ledger with bodies := (b.ledger.bodies.insert id (scope, body)) } } := by
  have ht := h.admits ha
  obtain ⟨w, hw⟩ := ha.has
  refine ⟨⟨ht.hydrated.opens, ht.hydrated.agrees⟩, ht.bodies.congr rfl rfl,
    { ht.kept with bodies := fun id' scope' body' hl hs => ?_ }⟩
  rw [Table.lookup_insert_ite] at hl
  simp only [insertEvidence, Table.lookup_insert_ite]
  split at hl
  · rename_i heq
    subst heq
    obtain ⟨rfl, rfl⟩ := Prod.mk.inj (Option.some.inj hl)
    rw [if_pos rfl]
    exact ⟨row, rfl, hscope, hhash, .bodyTable w hpath href hw⟩
  · rename_i hne
    rw [if_neg hne]
    exact ht.kept.bodies id' scope' body' hl hs

theorem Upkept.saveApproved (h : Upkept b) (any : AnyWrap) (scope : ScopeId) (documentId : Uuid)
    (plaintext : Bytes) (now : Int) :
    Upkept (b.next (.saveApprovedDocumentPayload any scope documentId plaintext now)) := by
  simp only [Books.next, Books.after]
  obtain ⟨t, ha, heq⟩ | ⟨t, err, hquiet, -, heq⟩ :=
    saveApprovedDocumentPayload_cases h.bodies any scope documentId plaintext now
  · have ht := h.admits ha
    obtain ⟨w, hw⟩ := ha.has
    rw [heq]
    refine ⟨⟨ht.hydrated.opens, ht.hydrated.agrees⟩, ht.bodies.congr rfl rfl,
      { ht.kept with approved := fun scope' id plaintext' hl hs => ?_ }⟩
    rw [Table.lookup_insert_ite] at hl
    simp only [Table.lookup_insert_ite]
    split at hl
    · rename_i heq
      obtain ⟨rfl, rfl⟩ := Prod.mk.inj heq
      obtain rfl := Option.some.inj hl
      rw [if_pos rfl]
      exact ⟨_, rfl, rfl, w, hw⟩
    · rename_i hne
      rw [if_neg hne]
      exact ht.kept.approved scope' id plaintext' hl hs
  · rw [heq]
    exact h.quiet hquiet

theorem Upkept.ingest (h : Upkept b) (any : AnyWrap) (scope : ScopeId) (body : Bytes)
    (sourceRef : Option String) (importance : ImportanceClass) (languageTag : Option String)
    (now : Int) :
    Upkept (b.next (.ingest any scope body sourceRef importance languageTag now)) := by
  simp only [Books.next, Books.after, Books.ingested, ingestWithLanguage]
  cases routeStorageWithThreshold body.length importance b.store.config.inlineThresholdBytes with
  | inline =>
    have hinline := h.ingestInline scope body sourceRef importance languageTag now
    simp only [ingestInline_eq] at hinline ⊢
    exact hinline
  | bodyTable =>
    obtain ⟨t, ha, -, heq⟩ | ⟨t, err, hquiet, -, heq⟩ := ingestBodyTable_cases h.bodies any scope body
      sourceRef importance languageTag now
    · simp only [heq]
      exact h.ingestBodyTable ha ⟨b.store.draws⟩ rfl rfl rfl rfl
    · simp only [heq]
      exact h.quiet hquiet
  | ringBuffer =>
    have hring := h.ringBufferInsert scope body 0 now
    simp only [Books.next, Books.after, EvidenceStore.ringBufferInsert, ringBufferInsert_eq, draw]
      at hring ⊢
    exact hring.quiet (quiet_draw _ _ (Nat.le_succ _))

structure Idle (db : Database) (scope : ScopeId) : Prop where
  wraps : ∀ hash, db.wrap hash scope = none
  ring : ∀ r ∈ db.ringBuffer, r.scopeId ≠ scope
  memory : ∀ kind, db.memoryObjects.lookup (scope, kind) = none
  instances : ∀ id row, db.connectorInstances.lookup id = some row → row.scopeId ≠ scope
  tokens : ∀ id row, db.connectorTokens.lookup id = some row → row.scopeId ≠ scope

/-- A live scope without evidence, without a row in `scope_deks` and without a cached key is
provisioned only while nothing else is sealed for it. -/
def Books.MintsUnused (b : Books) : Op → Prop
  | .ensureScopeDek scope _ => b.live scope → b.store.scopeKeys.lookup scope = none →
    b.store.db.scopeDeks.lookup scope = none → hasEvidence b.store.db scope = false →
    Idle b.store.db scope
  | _ => True

/-- The key of a scope for which nothing is sealed may change. -/
theorem Kept.rekey {l : Ledger} {db : Database} {key key' : ScopeId → AeadKey}
    {live : ScopeId → Prop} (h : Kept l db key live) {scope : ScopeId}
    (hevidence : hasEvidence db scope = false) (hidle : live scope → Idle db scope)
    (hkey : ∀ other, other ≠ scope → key' other = key other) : Kept l db key' live := by
  have hne : ∀ {other : ScopeId}, (other = scope → live scope → False) → live other →
      key' other = key other := by
    intro other hfalse hlive
    refine hkey other fun heq => ?_
    exact hfalse heq (heq ▸ hlive)
  have hrow : ∀ id row, db.evidence.lookup id = some row → row.scopeId ≠ scope := by
    intro id row hlookup
    simpa using Table.any_eq_false.mp hevidence id row hlookup
  constructor
  · intro id other body hl hs
    obtain ⟨row, hlookup, hscope, hrest⟩ := h.bodies id other body hl hs
    rw [hne (fun heq _ => hrow id row hlookup (hscope.trans heq)) hs]
    exact ⟨row, hlookup, hscope, hrest⟩
  · intro hash other w hw hs
    rw [h.wraps hash other w hw hs, hne _ hs]
    rintro rfl hlive
    rw [(hidle hlive).wraps hash] at hw
    cases hw
  · intro r hr
    obtain ⟨hid, body, hl, hsealed⟩ := h.ring r hr
    refine ⟨hid, body, hl, fun hs => ?_⟩
    rw [hne (fun heq hlive => (hidle hlive).ring r hr heq) hs]
    exact hsealed hs
  · intro other kind plaintext hl hs
    obtain ⟨row, hlookup, hsealed⟩ := h.memory other kind plaintext hl hs
    refine ⟨row, hlookup, ?_⟩
    rw [hne _ hs]
    · exact hsealed
    · rintro rfl hlive
      rw [(hidle hlive).memory kind] at hlookup
      cases hlookup
  · intro id other kind plaintext hl hs
    obtain ⟨row, hlookup, hscope, hrest⟩ := h.instances id other kind plaintext hl hs
    rw [hne (fun heq hlive => (hidle hlive).instances id row hlookup (hscope.trans heq)) hs]
    exact ⟨row, hlookup, hscope, hrest⟩
  · intro id other plaintext hl hs
    obtain ⟨row, hlookup, hscope, hrest⟩ := h.tokens id other plaintext hl hs
    rw [hne (fun heq hlive => (hidle hlive).tokens id row hlookup (hscope.trans heq)) hs]
    exact ⟨row, hlookup, hscope, hrest⟩
  · exact h.approved

theorem Kept.sameData {l : Ledger} {db db' : Database} {key : ScopeId → AeadKey}
    {live : ScopeId → Prop} (h : Kept l db key live) (hdata : db.SameData db')
    (hseq : db'.ringSequence = db.ringSequence) : Kept l db' key live := by
  have hwrap : db'.wrap = db.wrap := by
    funext hash scope
    rw [Database.wrap, Database.wrap, hdata.keyWraps]
  constructor
  · rw [hdata.evidence, hwrap]
    exact h.bodies
  · rw [hwrap]
    exact h.wraps
  · rw [hdata.ringBuffer, hseq]
    exact h.ring
  · rw [hdata.memoryObjects]
    exact h.memory
  · rw [hdata.connectorInstances]
    exact h.instances
  · rw [hdata.connectorTokens]
    exact h.tokens
  · rw [hdata.approvedDocuments, hwrap]
    exact h.approved

theorem Upkept.provides (h : Upkept b) {t : EvidenceStore} {scope : ScopeId} {dek : AeadKey}
    (hp : Provides b.store t scope dek) (hkept : Kept b.ledger b.store.db t.keyFor b.live) :
    Upkept { b with store := t } :=
  ⟨hp.hydrated h.hydrated, h.bodies.congr hp.data.bodyStore hp.data.keyWraps,
    hkept.sameData hp.data hp.sequence⟩

theorem Upkept.ensureScopeDek (h : Upkept b) (scope : ScopeId) (now : Int)
    (hmint : b.MintsUnused (.ensureScopeDek scope now)) :
    Upkept (b.next (.ensureScopeDek scope now)) := by
  by_cases hlive : b.live scope
  · obtain ⟨hquiet, -⟩ | ⟨-, -, hprovides, -⟩ | ⟨hcache, hrow, hevidence, hprovides, -⟩ :=
      ensureScopeDek_cases h.hydrated scope hlive now
    · exact h.quiet hquiet
    · refine h.provides hprovides (h.kept.narrow (fun _ hs => hs) fun other _ => ?_)
      rw [hprovides.key]
      split
      · rename_i heq
        rw [heq]
      · rfl
    · refine h.provides hprovides (h.kept.rekey hevidence
        (fun hlive => hmint hlive hcache hrow hevidence) fun other hne => ?_)
      rw [hprovides.key, if_neg hne]
  · have hr := rekeys_ensureScopeDek h.hydrated scope now
    have hne : ∀ other, b.live other → other ≠ scope := by
      rintro other hother rfl
      exact hlive hother
    refine ⟨⟨hr.opens, fun other hother => ?_⟩,
      h.bodies.congr hr.data.bodyStore hr.data.keyWraps,
      (h.kept.narrow (fun _ hs => hs) fun other hother => ?_).sameData hr.data hr.sequence⟩
    · simp only [Books.next, legacyKey]
      rw [hr.key other (hne other hother), hr.dek other (hne other hother), hr.master]
      exact h.hydrated.agrees other hother
    · exact hr.key other (hne other hother)

theorem Upkept.deleteScopeDek (h : Upkept b) (scope : ScopeId) :
    Upkept (b.next (.deleteScopeDek scope)) := by
  have hlive : ∀ other, (b.next (.deleteScopeDek scope)).live other →
      other ≠ scope ∧ b.live other := by
    intro other hs
    exact ⟨fun heq => hs (heq ▸ List.mem_cons_self), fun hmem => hs (List.mem_cons_of_mem _ hmem)⟩
  have hdeleted := hydrated_deleteScopeDek h.hydrated scope
  refine ⟨⟨hdeleted.opens, fun other hs => hdeleted.agrees other (hlive other hs).2⟩,
    h.bodies.congr rfl rfl, ?_⟩
  refine Kept.sameData (h.kept.narrow (fun other hs => (hlive other hs).2) fun other hs => ?_)
    ⟨rfl, rfl, rfl, rfl, rfl, rfl, rfl, rfl, rfl⟩ rfl
  exact (keyFor_deleteScopeDek b.store scope other).trans (if_neg (hlive other hs).1)

theorem Upkept.purge (h : Upkept b) (scope : ScopeId) (hforgotten : scope ∈ b.forgotten) :
    Upkept (b.next (.purgeBodyKeyWraps scope)) := by
  refine ⟨⟨h.hydrated.opens, h.hydrated.agrees⟩, bodies_purge h.bodies scope, ?_⟩
  have hne : ∀ other, b.live other → other ≠ scope := by
    rintro other hs rfl
    exact hs hforgotten
  refine h.kept.rewrapped (.of_bodies _ _ _) ?_ ?_
  · intro hash other w hw hs
    exact ⟨w, (wrap_purge b.store scope hash other).trans (by rw [if_neg (hne other hs), hw])⟩
  · intro hash other w hw hs
    have hwrap := (wrap_purge b.store scope hash other).symm.trans hw
    rw [if_neg (hne other hs)] at hwrap
    exact h.kept.wraps hash other w hwrap hs

theorem Upkept.reopen (h : Upkept b) : Upkept (b.next .reopen) := by
  obtain ⟨hdb, -, -, -, hkey⟩ := reopen_spec h.hydrated
  have hbodies : b.store.reopen.1.db.bodyStore = b.store.db.bodyStore := by rw [hdb]
  have hwraps : b.store.reopen.1.db.keyWraps = b.store.db.keyWraps := by rw [hdb]
  refine ⟨hydrated_reopen h.hydrated, h.bodies.congr hbodies hwraps, ?_⟩
  simp only [Books.next]
  rw [hdb]
  exact h.kept.narrow (fun _ hs => hs) fun scope hs => hkey scope hs

theorem Upkept.next (h : Upkept b) {op : Op} (henabled : b.enabled op)
    (hmint : b.MintsUnused op) : Upkept (b.next op) := by
  cases op with
  | ingest any scope body sourceRef importance languageTag now =>
    exact h.ingest any scope body sourceRef importance languageTag now
  | ringBufferInsert scope body priority now => exact h.ringBufferInsert scope body priority now
  | ringBufferReadWindow scope now => exact h.ringBufferReadWindow scope now
  | readBody id => exact h.quiet (b.store.quiet_readBody id)
  | saveMemoryBlob scope kind plaintext now => exact h.saveMemoryBlob scope kind plaintext now
  | loadMemoryBlob scope kind => exact h.quiet (b.store.quiet_loadMemoryBlob scope kind)
  | saveConnectorInstance instanceId scope kindTag plaintext now =>
    exact h.saveConnectorInstance instanceId scope kindTag plaintext now
  | loadConnectorInstances => exact h.quiet (b.store.quiet_openInstances _)
  | saveConnectorToken instanceId scope plaintext now =>
    exact h.saveConnectorToken instanceId scope plaintext now
  | loadConnectorTokens => exact h.quiet (b.store.quiet_openTokens _)
  | saveApprovedDocumentPayload any scope documentId plaintext now =>
    exact h.saveApproved any scope documentId plaintext now
  | loadApprovedDocumentPayload scope documentId =>
    exact h.quiet (b.store.quiet_loadApprovedDocumentPayload scope documentId)
  | ensureScopeDek scope now => exact h.ensureScopeDek scope now hmint
  | deleteScopeDek scope => exact h.deleteScopeDek scope
  | purgeBodyKeyWraps scope => exact h.purge scope henabled
  | reopen => exact h.reopen

end

open Books

theorem upkept_start (masterKey : MasterKey) (config : EvidenceStoreConfig) :
    Upkept (start masterKey config) := by
  have hstart := hydrated_start masterKey config
  refine ⟨⟨hstart.opens, fun scope _ => hstart.agrees scope trivial⟩, Database.bodies_empty, ?_⟩
  constructor
  · intro id scope body hl
    cases hl
  · intro hash scope w hw
    cases hw
  · intro r hr
    cases hr
  · intro scope kind plaintext hl
    cases hl
  · intro id scope kind plaintext hl
    cases hl
  · intro id scope plaintext hl
    cases hl
  · intro scope id plaintext hl
    cases hl

theorem upkept_of_reachable {masterKey : MasterKey} {config : EvidenceStoreConfig} {b : Books}
    (h : ((system masterKey config).restrict Books.MintsUnused).Reachable b) : Upkept b := by
  refine h.invariant Upkept ?_ ?_
  · rintro b rfl
    exact upkept_start masterKey config
  · rintro b op b' - hb ⟨⟨henabled, rfl⟩, hmint⟩
    exact hb.next henabled hmint

/-- Every entry of the ledger that belongs to a live scope, and in the ring has not been
evicted, reads back as it was written. -/
structure Readable (b : Books) : Prop where
  bodies : ∀ id scope body, b.ledger.bodies.lookup id = some (scope, body) → b.live scope →
    (b.store.readBody id).2 = .ok body
  ring : ∀ id scope body, b.ledger.ring.lookup id = some (scope, body) → b.live scope →
    (∃ r ∈ b.store.db.ringBuffer, r.id = id) → ∀ now, ∃ entries,
      (b.store.ringBufferReadWindow scope now).2 = .ok entries ∧
        ∃ e ∈ entries, e.id = id ∧ e.body = body
  memory : ∀ scope kind plaintext, b.ledger.memory.lookup (scope, kind) = some plaintext →
    b.live scope → (b.store.loadMemoryBlob scope kind).2 = .ok (some plaintext)
  instances : ∀ id scope kind plaintext,
    b.ledger.instances.lookup id = some (scope, kind, plaintext) → b.live scope →
    ∃ entries, b.store.loadConnectorInstances.2 = .ok entries ∧
      (id, scope, kind, plaintext) ∈ entries
  tokens : ∀ id scope plaintext, b.ledger.tokens.lookup id = some (scope, plaintext) →
    b.live scope → ∃ entries, b.store.loadConnectorTokens.2 = .ok entries ∧
      (id, scope, plaintext) ∈ entries
  approved : ∀ scope id plaintext, b.ledger.approved.lookup (scope, id) = some plaintext →
    b.live scope → (b.store.loadApprovedDocumentPayload scope id).2 = .ok (some plaintext)

theorem Upkept.open_body {b : Books} (h : Upkept b) {scope : ScopeId} (hs : b.live scope)
    {body : Bytes} {w : Ciphertext AeadKey}
    (hw : b.store.db.wrap (contentHash body) scope = some w) :
    ∃ row, b.store.db.bodyStore.lookup (contentHash body) = some row ∧
      unwrapCek (b.store.keyFor scope) w (contentHash body) = .ok w.plain ∧
      decryptAead w.plain row.body (bodyTableAad (contentHash body)) = .ok body := by
  obtain ⟨haad, row, hrow, hcek⟩ := h.bodies.wraps _ scope w hw
  obtain ⟨hbaad, hhash⟩ := h.bodies.bodies _ row hrow
  have hplain : row.body.plain = body := ContentHash.mk.inj hhash
  have hwrap : SealedAs w (b.store.keyFor scope) (cekWrapAad (contentHash body)) w.plain :=
    ⟨h.kept.wraps _ scope w hw hs, haad, rfl⟩
  have hbody : SealedAs row.body w.plain (bodyTableAad (contentHash body)) body :=
    ⟨hcek, hbaad, hplain⟩
  exact ⟨row, hrow, hwrap.decrypt, hbody.decrypt⟩

theorem Upkept.readBody {b : Books} (h : Upkept b) {id : EvidenceId} {scope : ScopeId}
    {body : Bytes} (hl : b.ledger.bodies.lookup id = some (scope, body)) (hs : b.live scope) :
    (b.store.readBody id).2 = .ok body := by
  obtain ⟨row, hrow, rfl, hhash, hplaced⟩ := h.kept.bodies id scope body hl hs
  simp only [EvidenceStore.readBody, hrow, scopeKey_eq]
  cases hplaced with
  | inline c hpath hbody hsealed =>
    simp only [hpath, hbody, hhash]
    exact hsealed.decrypt
  | bodyTable w hpath href hwrap =>
    obtain ⟨bodyRow, hbodyRow, hunwrap, hdecrypt⟩ := h.open_body hs hwrap
    have hlookup : b.store.db.keyWraps.lookup (contentHash body, row.scopeId) = some w := hwrap
    simp only [hpath, href, hbodyRow, hlookup, hhash, hunwrap, hdecrypt]

theorem openWindow_ok {key : AeadKey} {scope : ScopeId} {rows : List RingRow}
    (h : ∀ r ∈ rows, decryptAead key r.body (ringBufferAad scope) = .ok r.body.plain) :
    openWindow key scope rows =
      .ok (rows.map fun r => ⟨r.id, scope, r.body.plain, r.createdAt⟩) := by
  induction rows with
  | nil => rfl
  | cons r rest ih =>
    simp only [openWindow, h r List.mem_cons_self,
      ih fun r' hr' => h r' (List.mem_cons_of_mem _ hr'), List.map_cons]

theorem Upkept.readWindow {b : Books} (h : Upkept b) {id : Nat} {scope : ScopeId} {body : Bytes}
    (hl : b.ledger.ring.lookup id = some (scope, body)) (hs : b.live scope)
    (hkept : ∃ r ∈ b.store.db.ringBuffer, r.id = id) (now : Int) :
    ∃ entries, (b.store.ringBufferReadWindow scope now).2 = .ok entries ∧
      ∃ e ∈ entries, e.id = id ∧ e.body = body := by
  have hsealed : ∀ r ∈ b.store.db.ringBuffer, r.scopeId = scope → ∃ plain,
      b.ledger.ring.lookup r.id = some (scope, plain) ∧
        SealedAs r.body (b.store.keyFor scope) (ringBufferAad scope) plain := by
    rintro r hr rfl
    obtain ⟨-, plain, hlookup, hopen⟩ := h.kept.ring r hr
    exact ⟨plain, hlookup, hopen hs⟩
  have hrows : ∀ r ∈ (b.store.db.ringBuffer.filter fun r => r.scopeId = scope).mergeSort
      RingRow.older, decryptAead (b.store.keyFor scope) r.body (ringBufferAad scope) =
        .ok r.body.plain := by
    intro r hr
    rw [List.mem_mergeSort, List.mem_filter, decide_eq_true_eq] at hr
    obtain ⟨plain, -, hopen⟩ := hsealed r hr.1 hr.2
    rw [hopen.decrypt, hopen.plain]
  refine ⟨_, (ringBufferReadWindow_snd b.store scope now).trans (openWindow_ok hrows), ?_⟩
  obtain ⟨r, hr, rfl⟩ := hkept
  obtain ⟨-, plain, hlookup, -⟩ := h.kept.ring r hr
  obtain ⟨hscope, rfl⟩ := Prod.mk.inj (Option.some.inj (hlookup.symm.trans hl))
  obtain ⟨plain', hlookup', hopen⟩ := hsealed r hr hscope
  obtain ⟨-, rfl⟩ := Prod.mk.inj (Option.some.inj (hlookup'.symm.trans hl))
  refine ⟨_, List.mem_map.mpr ⟨r, ?_, rfl⟩, rfl, hopen.plain⟩
  rw [List.mem_mergeSort, List.mem_filter, decide_eq_true_eq]
  exact ⟨hr, hscope⟩

theorem Upkept.readable {b : Books} (h : Upkept b) : Readable b := by
  constructor
  · intro id scope body hl hs
    exact h.readBody hl hs
  · intro id scope body hl hs hkept now
    exact h.readWindow hl hs hkept now
  · intro scope kind plaintext hl hs
    obtain ⟨row, hrow, hsealed⟩ := h.kept.memory scope kind plaintext hl hs
    simp only [EvidenceStore.loadMemoryBlob, hrow, scopeKey_eq, hsealed.decrypt]
  · intro id scope kind plaintext hl hs
    obtain ⟨row, hrow, rfl, rfl, hsealed⟩ := h.kept.instances id scope kind plaintext hl hs
    refine ⟨_, loadConnectorInstances_snd b.store, List.mem_flatMap.mpr
      ⟨(id, row), Table.mem_rows_iff.mpr hrow, ?_⟩⟩
    simp only [instanceEntry, hsealed.decrypt, List.mem_singleton]
  · intro id scope plaintext hl hs
    obtain ⟨row, hrow, rfl, hsealed⟩ := h.kept.tokens id scope plaintext hl hs
    refine ⟨_, loadConnectorTokens_snd b.store, List.mem_flatMap.mpr
      ⟨(id, row), Table.mem_rows_iff.mpr hrow, ?_⟩⟩
    simp only [tokenEntry, hsealed.decrypt, List.mem_singleton]
  · intro scope id plaintext hl hs
    obtain ⟨row, hrow, hhash, w, hw⟩ := h.kept.approved scope id plaintext hl hs
    obtain ⟨bodyRow, hbodyRow, hunwrap, hdecrypt⟩ := h.open_body hs hw
    have hlookup : b.store.db.keyWraps.lookup (contentHash plaintext, scope) = some w := hw
    rw [loadApprovedDocumentPayload_snd hrow, hhash]
    simp only [EvidenceStore.loadApprovedDocBody, hlookup, scopeKey_eq, hunwrap, hbodyRow, hdecrypt]

/-- In every run that provisions a scope before anything but evidence is sealed for it, what
was written reads back. -/
theorem written_reads_back {masterKey : MasterKey} {config : EvidenceStoreConfig} {b : Books}
    (h : ((system masterKey config).restrict Books.MintsUnused).Reachable b) : Readable b :=
  (upkept_of_reachable h).readable

def lateProvision : List Op :=
  [.saveMemoryBlob 1 "notes" [8] 0, .reopen, .ensureScopeDek 1 0]

/-- The blob was sealed under the legacy key, which was only cached; the new key that is drawn
for the scope does not open it. -/
theorem provisioning_loses_blob : ¬ ∀ (masterKey : MasterKey) (config : EvidenceStoreConfig)
    (b : Books), (system masterKey config).Reachable b → Readable b := by
  intro h
  have hread := h 7 sampleConfig (lateProvision.foldl next (.start 7 sampleConfig))
    (Legal.reachable ⟨trivial, trivial, trivial, trivial⟩ (.init rfl))
  have hblob := hread.memory 1 "notes" [8] (by decide +kernel) (by decide +kernel)
  have hlost : ((lateProvision.foldl next (.start 7 sampleConfig)).store.loadMemoryBlob 1
      "notes").2.toOption = none := by decide +kernel
  rw [hblob] at hlost
  cases hlost

/-- One scope is provisioned and written to, another forgotten, and the store opened again. -/
def earlyProvision : List Op :=
  [.ensureScopeDek 1 0, .saveMemoryBlob 1 "notes" [8] 0, .deleteScopeDek 2, .purgeBodyKeyWraps 2,
    .reopen]

theorem written_reads_back_notes :
    ((earlyProvision.foldl next (.start 7 sampleConfig)).store.loadMemoryBlob 1 "notes").2 =
      .ok (some [8]) := by
  have hidle : Idle (start 7 sampleConfig).store.db 1 := by
    refine ⟨fun _ => rfl, fun r hr => ?_, fun _ => rfl, fun id row hrow => ?_, fun id row hrow => ?_⟩
    · cases hr
    · cases hrow
    · cases hrow
  have hreach : ((system 7 sampleConfig).restrict Books.MintsUnused).Reachable
      (earlyProvision.foldl next (.start 7 sampleConfig)) :=
    Legal.reachable_restrict ⟨⟨trivial, fun _ _ _ _ => hidle⟩, ⟨trivial, trivial⟩,
      ⟨trivial, trivial⟩, ⟨List.mem_cons_self, trivial⟩, ⟨trivial, trivial⟩, trivial⟩ (.init rfl)
  exact (written_reads_back hreach).memory 1 "notes" [8] (by decide +kernel) (by decide +kernel)

end Knowledge.Evidence
