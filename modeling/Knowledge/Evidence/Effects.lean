import Knowledge.Evidence.Writes

/-!
Everything a call may do to the evidence, the bodies and the keys of scopes, in one place: the
invariants of whole runs are read off this list.
-/

set_option autoImplicit false

namespace Knowledge.Evidence
open Knowledge.Cipher
open Knowledge.Sync (Uuid)
open Database

namespace EvidenceStore

structure Keeps (s t : EvidenceStore) : Prop where
  resolves : Resolves s t
  evidence : t.db.evidence = s.db.evidence
  bodyStore : t.db.bodyStore = s.db.bodyStore
  keyWraps : t.db.keyWraps = s.db.keyWraps

theorem Quiet.keeps {s t : EvidenceStore} (h : Quiet s t) : Keeps s t := by
  refine ⟨h.resolves, ?_, ?_, ?_⟩
  · rw [h.db]
  · rw [h.db]
  · rw [h.db]

theorem keeps_of_resolved {s t : EvidenceStore} (scope : ScopeId)
    (hmaster : t.masterKey = s.masterKey) (hconfig : t.config = s.config)
    (hdraws : s.draws ≤ t.draws) (hdeks : t.db.scopeDeks = s.db.scopeDeks)
    (hcache : t.scopeKeys = s.resolved scope) (hevidence : t.db.evidence = s.db.evidence)
    (hbodies : t.db.bodyStore = s.db.bodyStore) (hwraps : t.db.keyWraps = s.db.keyWraps) :
    Keeps s t :=
  ⟨resolves_of_resolved scope hmaster hconfig hdraws hdeks hcache, hevidence, hbodies, hwraps⟩

theorem keeps_ringBufferInsert (s : EvidenceStore) (scope : ScopeId) (body : Bytes)
    (priority now : Int) : Keeps s (s.ringBufferInsertWithPriority scope body priority now).1 := by
  rw [ringBufferInsert_eq]
  exact keeps_of_resolved scope rfl rfl (Nat.le_succ _) rfl rfl rfl rfl rfl

theorem keeps_ringBufferReadWindow (s : EvidenceStore) (scope : ScopeId) (now : Int) :
    Keeps s (s.ringBufferReadWindow scope now).1 := by
  simp only [ringBufferReadWindow, scopeKey_eq]
  split
  · exact (s.quiet_resolved scope).keeps
  · exact keeps_of_resolved scope rfl rfl (Nat.le_refl _) rfl rfl rfl rfl rfl

theorem keeps_saveConnectorInstance (s : EvidenceStore) (instanceId : Uuid) (scope : ScopeId)
    (kindTag : String) (plaintext : Bytes) (now : Int) :
    Keeps s (s.saveConnectorInstance instanceId scope kindTag plaintext now).1 := by
  obtain ⟨t, err, heq, hquiet⟩ | heq :=
    s.saveConnectorInstance_cases instanceId scope kindTag plaintext now
  · rw [heq]
    exact hquiet.keeps
  · rw [heq]
    exact keeps_of_resolved scope rfl rfl (Nat.le_succ _) rfl rfl rfl rfl rfl

/-- What a call does: most leave evidence and bodies alone, and an ingest adds one row under an
id that was just drawn. -/
inductive Effect (s : EvidenceStore) : Op → EvidenceStore → Prop where
  | keeps {op : Op} {t : EvidenceStore} (hkeeps : Keeps s t) : Effect s op t
  | inline {any : AnyWrap} {scope : ScopeId} {body : Bytes} {sourceRef : Option String}
      {importance : ImportanceClass} {languageTag : Option String} {now : Int} {t : EvidenceStore}
      {row : EvidenceRow} {c : Ciphertext Bytes}
      (hroute : routeStorageWithThreshold body.length importance s.config.inlineThresholdBytes =
        .inline)
      (hresolves : Resolves s t) (hdraws : s.draws < t.draws)
      (hevidence : t.db.evidence = s.db.evidence.insert ⟨s.draws⟩ row)
      (hbodies : t.db.bodyStore = s.db.bodyStore) (hwraps : t.db.keyWraps = s.db.keyWraps)
      (hscope : row.scopeId = scope) (hpath : row.storagePath = .inline)
      (hbody : row.body = some c) (hkey : c.key = s.keyFor scope) :
      Effect s (.ingest any scope body sourceRef importance languageTag now) t
  | table {any : AnyWrap} {scope : ScopeId} {body : Bytes} {sourceRef : Option String}
      {importance : ImportanceClass} {languageTag : Option String} {now : Int} {t : EvidenceStore}
      {row : EvidenceRow}
      (hroute : routeStorageWithThreshold body.length importance s.config.inlineThresholdBytes =
        .bodyTable)
      (hadmits : Admits s t scope body) (hdraws : s.draws < t.draws)
      (hscope : row.scopeId = scope) (hpath : row.storagePath = .bodyTable) :
      Effect s (.ingest any scope body sourceRef importance languageTag now)
        (t.insertEvidence ⟨s.draws⟩ row)
  | approved {any : AnyWrap} {scope : ScopeId} {documentId : Uuid} {plaintext : Bytes} {now : Int}
      {t u : EvidenceStore} (hadmits : Admits s t scope plaintext) (hkeeps : Keeps t u) :
      Effect s (.saveApprovedDocumentPayload any scope documentId plaintext now) u
  | provides {scope : ScopeId} {now : Int} {t : EvidenceStore} {dek : AeadKey}
      (hrow : s.db.scopeDeks.lookup scope = none) (hprovides : Provides s t scope dek)
      (hdek : dek = s.legacyKey scope ∨
        dek = .random s.draws ∧ hasEvidence s.db scope = false) :
      Effect s (.ensureScopeDek scope now) t
  | deletes {scope : ScopeId} : Effect s (.deleteScopeDek scope) (s.deleteScopeDek scope)
  | purges {scope : ScopeId} :
      Effect s (.purgeBodyKeyWraps scope) (s.purgeBodyKeyWrapsForScope scope)
  | reopens {t : EvidenceStore} (hdb : t.db = s.db) (hmaster : t.masterKey = s.masterKey)
      (hdraws : t.draws = s.draws) (hkey : ∀ scope, t.keyFor scope = s.keyFor scope) :
      Effect s .reopen t

section

variable {s t : EvidenceStore} {op : Op}

theorem effect_ingest (hb : s.db.Bodies) (any : AnyWrap) (scope : ScopeId) (body : Bytes)
    (sourceRef : Option String) (importance : ImportanceClass) (languageTag : Option String)
    (now : Int) :
    Effect s (.ingest any scope body sourceRef importance languageTag now)
      (s.ingestWithLanguage any scope body sourceRef importance languageTag now).1 := by
  unfold ingestWithLanguage
  simp only
  cases hroute : routeStorageWithThreshold body.length importance s.config.inlineThresholdBytes with
  | inline =>
    simp only [ingestInline_eq]
    exact .inline hroute (resolves_of_resolved scope rfl rfl (Nat.le_add_right _ 2) rfl rfl)
      (Nat.lt_add_of_pos_right (by decide)) rfl rfl rfl rfl rfl rfl rfl
  | bodyTable =>
    simp only
    obtain ⟨t, ha, hdraws, heq⟩ | ⟨t, err, hquiet, -, heq⟩ :=
      ingestBodyTable_cases hb any scope body sourceRef importance languageTag now
    · rw [heq]
      exact .table hroute ha hdraws rfl rfl
    · rw [heq]
      exact .keeps hquiet.keeps
  | ringBuffer =>
    simp only [ringBufferInsert, ringBufferInsert_eq, draw]
    exact .keeps (keeps_of_resolved scope rfl rfl (Nat.le_add_right _ 2) rfl rfl rfl rfl rfl)

theorem effect_saveApproved (hb : s.db.Bodies) (any : AnyWrap) (scope : ScopeId)
    (documentId : Uuid) (plaintext : Bytes) (now : Int) :
    Effect s (.saveApprovedDocumentPayload any scope documentId plaintext now)
      (s.saveApprovedDocumentPayload any scope documentId plaintext (contentHash plaintext)
        now).1 := by
  obtain ⟨t, ha, heq⟩ | ⟨t, err, hquiet, -, heq⟩ :=
    saveApprovedDocumentPayload_cases hb any scope documentId plaintext now
  · rw [heq]
    exact .approved ha ⟨resolves_of_eq rfl rfl (Nat.le_refl _) rfl rfl, rfl, rfl, rfl⟩
  · rw [heq]
    exact .keeps hquiet.keeps

theorem effect_ensureScopeDek (hs : s.Hydrated) (scope : ScopeId) (now : Int) :
    Effect s (.ensureScopeDek scope now) (s.ensureScopeDek scope now).1 := by
  obtain ⟨hquiet, -⟩ | ⟨hrow, -, hp, -⟩ | ⟨-, hrow, hevidence, hp, -⟩ :=
    ensureScopeDek_cases hs scope trivial now
  · exact .keeps hquiet.keeps
  · refine .provides hrow hp (.inl ?_)
    rw [hs.agrees scope trivial, dekFor_eq_none hrow]
    rfl
  · exact .provides hrow hp (.inr ⟨rfl, hevidence⟩)

theorem next_effect {b : Books} (hs : b.store.Hydrated) (hb : b.store.db.Bodies) (op : Op) :
    Effect b.store op (b.next op).store := by
  cases op with
  | ingest any scope body sourceRef importance languageTag now =>
    exact effect_ingest hb any scope body sourceRef importance languageTag now
  | ringBufferInsert scope body priority now =>
    exact .keeps (b.store.keeps_ringBufferInsert scope body priority now)
  | ringBufferReadWindow scope now => exact .keeps (b.store.keeps_ringBufferReadWindow scope now)
  | readBody id => exact .keeps (b.store.quiet_readBody id).keeps
  | saveMemoryBlob scope kind plaintext now =>
    simp only [Books.next, Books.after, saveMemoryBlob_eq]
    exact .keeps (keeps_of_resolved scope rfl rfl (Nat.le_succ _) rfl rfl rfl rfl rfl)
  | loadMemoryBlob scope kind => exact .keeps (b.store.quiet_loadMemoryBlob scope kind).keeps
  | saveConnectorInstance instanceId scope kindTag plaintext now =>
    exact .keeps (b.store.keeps_saveConnectorInstance instanceId scope kindTag plaintext now)
  | loadConnectorInstances => exact .keeps (b.store.quiet_openInstances _).keeps
  | saveConnectorToken instanceId scope plaintext now =>
    simp only [Books.next, Books.after, saveConnectorToken_eq]
    exact .keeps (keeps_of_resolved scope rfl rfl (Nat.le_succ _) rfl rfl rfl rfl rfl)
  | loadConnectorTokens => exact .keeps (b.store.quiet_openTokens _).keeps
  | saveApprovedDocumentPayload any scope documentId plaintext now =>
    exact effect_saveApproved hb any scope documentId plaintext now
  | loadApprovedDocumentPayload scope documentId =>
    exact .keeps (b.store.quiet_loadApprovedDocumentPayload scope documentId).keeps
  | ensureScopeDek scope now => exact effect_ensureScopeDek hs scope now
  | deleteScopeDek scope => exact .deletes
  | purgeBodyKeyWraps scope => exact .purges
  | reopen =>
    obtain ⟨hdb, hmaster, -, hdraws, hkey⟩ := reopen_spec hs
    exact .reopens hdb hmaster hdraws fun scope => hkey scope trivial

theorem Effect.hydrated (h : Effect s op t) (hs : s.Hydrated) : t.Hydrated := by
  cases h with
  | keeps hkeeps => exact hkeeps.resolves.hydrated hs
  | inline _ hresolves => exact hresolves.hydrated hs
  | table _ hadmits =>
    have ht := hadmits.resolves.hydrated hs
    exact ⟨ht.opens, ht.agrees⟩
  | approved hadmits hkeeps => exact hkeeps.resolves.hydrated (hadmits.resolves.hydrated hs)
  | provides _ hprovides => exact hprovides.hydrated hs
  | deletes => exact hydrated_deleteScopeDek hs _
  | purges => exact ⟨hs.opens, hs.agrees⟩
  | reopens hdb hmaster _ hkey =>
    have hdek : ∀ scope, t.dekFor scope = s.dekFor scope := fun scope => by
      rw [dekFor, dekFor, hdb, hmaster]
    refine ⟨fun scope row hrow => ?_, fun scope _ => ?_⟩
    · rw [hdb] at hrow
      rw [hdek]
      exact hs.opens scope row hrow
    · rw [hkey, hdek, legacyKey, hmaster]
      exact hs.agrees scope trivial

theorem Effect.bodies (h : Effect s op t) (hb : s.db.Bodies) : t.db.Bodies := by
  cases h with
  | keeps hkeeps => exact hb.congr hkeeps.bodyStore hkeeps.keyWraps
  | inline _ _ _ _ hbodies hwraps => exact hb.congr hbodies hwraps
  | table _ hadmits => exact hadmits.bodies.congr rfl rfl
  | approved hadmits hkeeps => exact hadmits.bodies.congr hkeeps.bodyStore hkeeps.keyWraps
  | provides _ hprovides => exact hb.congr hprovides.data.bodyStore hprovides.data.keyWraps
  | deletes => exact hb.congr rfl rfl
  | purges => exact bodies_purge hb _
  | reopens hdb =>
    rw [hdb]
    exact hb

/-- Content keys come from nowhere: one that is wrapped was there before or has just been drawn.
Rows of `evidence` are never overwritten. -/
structure Grows (s t : EvidenceStore) : Prop where
  master : t.masterKey = s.masterKey
  draws : s.draws ≤ t.draws
  ceks : ∀ hash scope w, t.db.wrap hash scope = some w →
    (∃ scope' w', s.db.wrap hash scope' = some w' ∧ w'.plain = w.plain) ∨
    ∃ n, w.plain = .random n ∧ s.draws ≤ n ∧ n < t.draws
  evidence : ∀ id row, id.draw < s.draws → s.db.evidence.lookup id = some row →
    t.db.evidence.lookup id = some row

theorem grows_of_wraps (hmaster : t.masterKey = s.masterKey) (hdraws : s.draws ≤ t.draws)
    (hwraps : ∀ hash scope w, t.db.wrap hash scope = some w → s.db.wrap hash scope = some w)
    (hevidence : ∀ id row, id.draw < s.draws → s.db.evidence.lookup id = some row →
      t.db.evidence.lookup id = some row) : Grows s t :=
  ⟨hmaster, hdraws, fun hash scope w hw => .inl ⟨scope, w, hwraps hash scope w hw, rfl⟩, hevidence⟩

theorem lookup_evidence_insert {evidence : Table EvidenceId EvidenceRow} {id : EvidenceId}
    {draws : Nat} {row row' : EvidenceRow} (hid : id.draw < draws)
    (h : evidence.lookup id = some row) : (evidence.insert ⟨draws⟩ row').lookup id = some row := by
  rw [Table.lookup_insert_ite, if_neg, h]
  rintro rfl
  exact Nat.lt_irrefl _ hid

theorem Effect.grows (h : Effect s op t) : Grows s t := by
  cases h with
  | keeps hkeeps =>
    refine grows_of_wraps hkeeps.resolves.master hkeeps.resolves.draws (fun hash scope w hw => ?_)
      fun id row _ hrow => ?_
    · rwa [wrap, hkeeps.keyWraps] at hw
    · rwa [hkeeps.evidence]
  | inline _ hresolves _ hevidence _ hwraps =>
    refine grows_of_wraps hresolves.master hresolves.draws (fun hash scope w hw => ?_)
      fun id row hid hrow => ?_
    · rwa [wrap, hwraps] at hw
    · rw [hevidence]
      exact lookup_evidence_insert hid hrow
  | table _ hadmits =>
    refine ⟨hadmits.resolves.master, hadmits.resolves.draws, hadmits.ceks, fun id row hid hrow => ?_⟩
    rw [insertEvidence, hadmits.rows.evidence]
    exact lookup_evidence_insert hid hrow
  | approved hadmits hkeeps =>
    refine ⟨hkeeps.resolves.master.trans hadmits.resolves.master,
      Nat.le_trans hadmits.resolves.draws hkeeps.resolves.draws, fun hash scope w hw => ?_,
      fun id row _ hrow => ?_⟩
    · rw [wrap, hkeeps.keyWraps] at hw
      obtain hold | ⟨n, hn, hle, hlt⟩ := hadmits.ceks hash scope w hw
      · exact .inl hold
      · exact .inr ⟨n, hn, hle, Nat.lt_of_lt_of_le hlt hkeeps.resolves.draws⟩
    · rwa [hkeeps.evidence, hadmits.rows.evidence]
  | provides _ hprovides =>
    refine grows_of_wraps hprovides.master (Nat.le_of_lt hprovides.draws)
      (fun hash scope w hw => ?_) fun id row _ hrow => ?_
    · rwa [wrap, hprovides.data.keyWraps] at hw
    · rwa [hprovides.data.evidence]
  | deletes =>
    exact grows_of_wraps rfl (Nat.le_refl _) (fun _ _ _ hw => hw) fun _ _ _ hrow => hrow
  | purges =>
    refine grows_of_wraps rfl (Nat.le_refl _) (fun hash scope w hw => ?_) fun _ _ _ hrow => hrow
    rw [wrap_purge] at hw
    split at hw
    · cases hw
    · exact hw
  | reopens hdb hmaster hdraws =>
    refine grows_of_wraps hmaster (Nat.le_of_eq hdraws.symm) (fun hash scope w hw => ?_)
      fun id row _ hrow => ?_
    · rwa [hdb] at hw
    · rwa [hdb]

theorem Effect.dek_cases (h : Effect s op t) :
    (∀ scope key, t.dekFor scope = some key → s.dekFor scope = some key) ∨
      ∃ scope dek, Provides s t scope dek ∧ (dek = s.legacyKey scope ∨ dek = .random s.draws) := by
  cases h with
  | keeps hkeeps => exact .inl fun scope key hkey => by rwa [hkeeps.resolves.dekFor] at hkey
  | inline _ hresolves => exact .inl fun scope key hkey => by rwa [hresolves.dekFor] at hkey
  | table _ hadmits =>
    exact .inl fun scope key hkey => (hadmits.resolves.dekFor scope).symm.trans hkey
  | approved hadmits hkeeps =>
    exact .inl fun scope key hkey => by
      rwa [hkeeps.resolves.dekFor, hadmits.resolves.dekFor] at hkey
  | provides _ hprovides hdek => exact .inr ⟨_, _, hprovides, hdek.imp_right And.left⟩
  | deletes =>
    refine .inl fun scope key hkey => ?_
    rw [dekFor_deleteScopeDek] at hkey
    split at hkey
    · cases hkey
    · exact hkey
  | purges => exact .inl fun scope key hkey => hkey
  | reopens hdb hmaster => exact .inl fun scope key hkey => by rwa [dekFor, hdb, hmaster] at hkey

theorem Effect.row_cases (h : Effect s op t) {id : EvidenceId} {row : EvidenceRow}
    (hrow : t.db.evidence.lookup id = some row) :
    s.db.evidence.lookup id = some row ∨ id = ⟨s.draws⟩ ∧ s.draws < t.draws ∧
      (row.storagePath = .bodyTable ∨
        ∃ any scope body sourceRef importance languageTag now c,
          op = .ingest any scope body sourceRef importance languageTag now ∧
          routeStorageWithThreshold body.length importance s.config.inlineThresholdBytes = .inline ∧
          row.scopeId = scope ∧ row.body = some c ∧ c.key = s.keyFor scope) := by
  cases h with
  | keeps hkeeps => exact .inl (by rwa [hkeeps.evidence] at hrow)
  | inline hroute hresolves hdraws hevidence hbodies hwraps hscope hpath hbody hkey =>
    rw [hevidence, Table.lookup_insert_ite] at hrow
    split at hrow
    · rename_i hid
      obtain rfl := Option.some.inj hrow
      exact .inr ⟨hid, hdraws, .inr ⟨_, _, _, _, _, _, _, _, rfl, hroute, hscope, hbody, hkey⟩⟩
    · exact .inl hrow
  | table hroute hadmits hdraws hscope hpath =>
    rw [insertEvidence, Table.lookup_insert_ite] at hrow
    split at hrow
    · rename_i hid
      obtain rfl := Option.some.inj hrow
      exact .inr ⟨hid, hdraws, .inl hpath⟩
    · exact .inl (by rwa [hadmits.rows.evidence] at hrow)
  | approved hadmits hkeeps => exact .inl (by rwa [hkeeps.evidence, hadmits.rows.evidence] at hrow)
  | provides _ hprovides => exact .inl (by rwa [hprovides.data.evidence] at hrow)
  | deletes => exact .inl hrow
  | purges => exact .inl hrow
  | reopens hdb => exact .inl (by rwa [hdb] at hrow)

def stores (s : EvidenceStore) : Op → Option (ScopeId × ContentHash)
  | .ingest _ scope body _ importance _ _ =>
    if routeStorageWithThreshold body.length importance s.config.inlineThresholdBytes = .bodyTable
    then some (scope, contentHash body) else none
  | .saveApprovedDocumentPayload _ scope _ plaintext _ => some (scope, contentHash plaintext)
  | _ => none

theorem Effect.wrap_cases (h : Effect s op t) {hash : ContentHash} {scope : ScopeId}
    {w : Ciphertext AeadKey} (hw : t.db.wrap hash scope = some w) :
    s.db.wrap hash scope = some w ∨ s.stores op = some (scope, hash) := by
  cases h with
  | keeps hkeeps => exact .inl (by rwa [wrap, hkeeps.keyWraps] at hw)
  | inline _ _ _ _ _ hwraps => exact .inl (by rwa [wrap, hwraps] at hw)
  | table hroute hadmits =>
    obtain hold | ⟨rfl, rfl, -⟩ := hadmits.wraps hash scope w hw
    · exact .inl hold
    · exact .inr (by rw [stores, if_pos hroute])
  | approved hadmits hkeeps =>
    rw [wrap, hkeeps.keyWraps] at hw
    obtain hold | ⟨rfl, rfl, -⟩ := hadmits.wraps hash scope w hw
    · exact .inl hold
    · exact .inr rfl
  | provides _ hprovides => exact .inl (by rwa [wrap, hprovides.data.keyWraps] at hw)
  | deletes => exact .inl hw
  | purges =>
    rw [wrap_purge] at hw
    split at hw
    · cases hw
    · exact .inl hw
  | reopens hdb => exact .inl (by rwa [hdb] at hw)

/-- What holds of a store in every run: keys agree with the file, bodies with their wraps, and ids
are drawn. -/
structure Settled (s : EvidenceStore) : Prop where
  hydrated : s.Hydrated
  bodies : s.db.Bodies
  ids : ∀ id row, s.db.evidence.lookup id = some row → id.draw < s.draws

theorem settled_start (masterKey : MasterKey) (config : EvidenceStoreConfig) :
    Settled (Books.start masterKey config).store := by
  refine ⟨hydrated_start masterKey config, bodies_empty, fun id row hrow => ?_⟩
  cases hrow

theorem Settled.effect {b : Books} (h : Settled b.store) (op : Op) :
    Effect b.store op (b.next op).store := next_effect h.hydrated h.bodies op

theorem Settled.next {b : Books} (h : Settled b.store) (op : Op) : Settled (b.next op).store := by
  have he := h.effect op
  refine ⟨he.hydrated h.hydrated, he.bodies h.bodies, fun id row hrow => ?_⟩
  obtain hold | ⟨rfl, hdraws, -⟩ := he.row_cases hrow
  · exact Nat.lt_of_lt_of_le (h.ids id row hold) he.grows.draws
  · exact hdraws

end

end EvidenceStore

end Knowledge.Evidence
