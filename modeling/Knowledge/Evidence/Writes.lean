import Knowledge.Evidence.Provision

/-!
What each call that writes leaves behind, as one equation or one case distinction for it.
-/

set_option autoImplicit false

namespace Knowledge.Evidence
open Knowledge.Cipher
open Knowledge.Sync (Uuid)

namespace EvidenceStore

section

variable (s : EvidenceStore)

theorem ingestInline_eq (scope : ScopeId) (body : Bytes) (sourceRef : Option String)
    (importance : ImportanceClass) (hash : ContentHash) (languageTag : Option String) (now : Int) :
    s.ingestInline scope body sourceRef importance hash languageTag now =
      ({ s with
        scopeKeys := s.resolved scope
        draws := s.draws+2
        db := { s.db with
          evidence := (s.db.evidence.insert ⟨s.draws⟩
            ⟨scope, hash, some (encryptAead (s.keyFor scope) (s.draws+1) body
              (ingestAad scope ⟨s.draws⟩ hash)), none, sourceRef, importance, .inline, now,
              languageTag⟩) } },
        .ok ⟨⟨s.draws⟩, .inline, hash⟩) := by
  simp only [ingestInline, draw, scopeKey_eq]
  rfl

theorem ringBufferInsert_eq (scope : ScopeId) (body : Bytes) (priority now : Int) :
    s.ringBufferInsertWithPriority scope body priority now =
      ({ s with
        scopeKeys := s.resolved scope
        draws := s.draws+1
        db := { s.db with
          ringBuffer := (RingRow.evict (min s.config.ringBufferMaxBytes (2^63-1))
            (s.db.ringBuffer ++ [⟨s.db.ringSequence+1, scope, encryptAead (s.keyFor scope) s.draws
              body (ringBufferAad scope), min (body.length+16+24) (2^63-1), now, now, priority⟩]))
          ringSequence := s.db.ringSequence+1 } },
        .ok ()) := by
  simp only [ringBufferInsertWithPriority, draw, scopeKey_eq]

theorem saveMemoryBlob_eq (scope : ScopeId) (kind : String) (plaintext : Bytes) (now : Int) :
    s.saveMemoryBlob scope kind plaintext now =
      ({ s with
        scopeKeys := s.resolved scope
        draws := s.draws+1
        db := { s.db with
          memoryObjects := (s.db.memoryObjects.insert (scope, kind)
            ⟨encryptAead (s.keyFor scope) s.draws plaintext (memoryAad scope kind), now⟩) } },
        .ok ()) := by
  simp only [saveMemoryBlob, draw, scopeKey_eq]

theorem saveConnectorToken_eq (instanceId : Uuid) (scope : ScopeId) (plaintext : Bytes)
    (now : Int) :
    s.saveConnectorToken instanceId scope plaintext now =
      ({ s with
        scopeKeys := s.resolved scope
        draws := s.draws+1
        db := { s.db with
          connectorTokens := (s.db.connectorTokens.insert instanceId
            ⟨scope, encryptAead (s.keyFor scope) s.draws plaintext
              (connectorTokenAad scope instanceId), now⟩) } },
        .ok ()) := by
  simp only [saveConnectorToken, draw, scopeKey_eq]

theorem saveConnectorInstance_cases (instanceId : Uuid) (scope : ScopeId) (kindTag : String)
    (plaintext : Bytes) (now : Int) :
    (∃ t err, s.saveConnectorInstance instanceId scope kindTag plaintext now = (t, .error err) ∧
      Quiet s t) ∨
    s.saveConnectorInstance instanceId scope kindTag plaintext now =
      ({ s with
        scopeKeys := s.resolved scope
        draws := s.draws+1
        db := { s.db with
          connectorInstances := (s.db.connectorInstances.insert instanceId
            ⟨scope, kindTag, encryptAead (s.keyFor scope) s.draws plaintext
              (connectorInstanceAad scope instanceId kindTag), now⟩) } },
        .ok ()) := by
  simp only [saveConnectorInstance, draw, scopeKey_eq]
  split
  · refine .inl ⟨_, _, rfl, resolves_of_resolved scope rfl rfl (Nat.le_succ _) rfl rfl, rfl⟩
  · exact .inr rfl

end

theorem Admits.of_quiet {s t u : EvidenceStore} {scope : ScopeId} {body : Bytes}
    (h : Quiet s t) (h' : Admits t u scope body) : Admits s u scope body := by
  refine ⟨h.resolves.trans h'.resolves, h.db ▸ h'.rows, h'.bodies, h'.has, ?_, ?_, ?_⟩
  · intro hash other w hw
    exact h'.kept hash other w (by rw [h.db, hw])
  · intro hash other w hw
    rw [← h.db, ← h.resolves.keyFor]
    exact h'.wraps hash other w hw
  · intro hash other w hw
    rw [← h.db]
    obtain hold | ⟨n, hn, hle, hlt⟩ := h'.ceks hash other w hw
    · exact .inl hold
    · exact .inr ⟨n, hn, Nat.le_trans h.resolves.draws hle, hlt⟩

theorem Donates.of_quiet {s t : EvidenceStore} (h : Quiet s t) {scope : ScopeId}
    {hash : ContentHash} {donor : Option (Ciphertext AeadKey × AeadKey)}
    (hd : Donates s scope hash donor) : Donates t scope hash donor := by
  cases donor with
  | none =>
    intro other hne
    rw [h.db]
    exact hd other hne
  | some pair =>
    obtain ⟨d, hw, hne, hkey⟩ := hd
    exact ⟨d, by rw [h.db, hw], hne, by rw [h.resolves.keyFor, hkey]⟩

/-- Another scope's wrap of the content, sealed under a key that is no longer that scope's. -/
def Stranded (s : EvidenceStore) (scope : ScopeId) (hash : ContentHash) : Prop :=
  ∃ donor w, s.db.wrap hash donor = some w ∧ donor ≠ scope ∧ w.key ≠ s.keyFor donor

/-- A body-table ingest: the body is there for the scope and so is the row, or a stranded wrap
was taken for a donor. -/
theorem ingestBodyTable_cases {s : EvidenceStore} (h : s.db.Bodies) (any : AnyWrap)
    (scope : ScopeId) (body : Bytes) (sourceRef : Option String) (importance : ImportanceClass)
    (languageTag : Option String) (now : Int) :
    (∃ t, Admits s t scope body ∧ s.draws < t.draws ∧
      s.ingestBodyTable any scope body sourceRef importance (contentHash body) languageTag now =
        (t.insertEvidence ⟨s.draws⟩ ⟨scope, contentHash body, none, some (contentHash body),
          sourceRef, importance, .bodyTable, now, languageTag⟩,
          .ok ⟨⟨s.draws⟩, .bodyTable, contentHash body⟩)) ∨
    (∃ t err, Quiet s t ∧ Stranded s scope (contentHash body) ∧
      s.ingestBodyTable any scope body sourceRef importance (contentHash body) languageTag now =
        (t, .error err)) := by
  have hdraw : Quiet s { s with draws := s.draws+1 } := s.quiet_draw _ (Nat.le_succ _)
  have hkey : Quiet s { s with draws := s.draws+1, scopeKeys := s.resolved scope } :=
    ⟨resolves_of_resolved scope rfl rfl (Nat.le_succ _) rfl rfl, rfl⟩
  obtain ⟨hres, hdb, hdraws, hdonates⟩ := dedupDonor_spec
    { s with draws := s.draws+1, scopeKeys := s.resolved scope } any (contentHash body) scope
  generalize hdedup : dedupDonor { s with draws := s.draws+1, scopeKeys := s.resolved scope } any
    (contentHash body) scope = dedup at hres hdb hdraws hdonates
  obtain ⟨t, donor⟩ := dedup
  have hquiet : Quiet s t := hkey.trans ⟨hres, hdb⟩
  have hb : t.db.Bodies := by
    rw [hquiet.db]
    exact h
  have hkeys : t.keyFor scope = keyFor { s with draws := s.draws+1 } scope := by
    rw [hquiet.resolves.keyFor, hdraw.resolves.keyFor]
  have hcache : resolved { s with draws := s.draws+1 } scope = s.resolved scope := rfl
  obtain ⟨u, hok, hadmits⟩ | ⟨err, wrapped, key, herr, hsome, hne⟩ :=
    admitBody_cases hb (hdonates.of_quiet ⟨hres, hdb⟩)
  · refine .inl ⟨u, .of_quiet hquiet hadmits, ?_, ?_⟩
    · exact Nat.lt_of_succ_le (Nat.le_trans (Nat.le_of_eq hdraws.symm) hadmits.resolves.draws)
    · rw [hkeys] at hok
      simp only [ingestBodyTable, draw, scopeKey_eq, hcache, hdedup, hok]
  · refine .inr ⟨t, err, hquiet, ?_, ?_⟩
    · subst hsome
      obtain ⟨d, hw, hother, hdkey⟩ := hdonates.of_quiet ⟨hres, hdb⟩
      rw [hquiet.db] at hw
      rw [hquiet.resolves.keyFor] at hdkey
      exact ⟨d, wrapped, hw, hother, hdkey ▸ hne⟩
    · rw [hkeys] at herr
      simp only [ingestBodyTable, draw, scopeKey_eq, hcache, hdedup, herr]

theorem saveApprovedDocumentPayload_cases {s : EvidenceStore} (h : s.db.Bodies) (any : AnyWrap)
    (scope : ScopeId) (documentId : Uuid) (plaintext : Bytes) (now : Int) :
    (∃ t, Admits s t scope plaintext ∧
      s.saveApprovedDocumentPayload any scope documentId plaintext (contentHash plaintext) now =
        ({ t with
          db := { t.db with
            approvedDocuments := (t.db.approvedDocuments.insert (scope, documentId)
              ⟨contentHash plaintext, min plaintext.length (2^63-1), now⟩) } },
          .ok ())) ∨
    (∃ t err, Quiet s t ∧ Stranded s scope (contentHash plaintext) ∧
      s.saveApprovedDocumentPayload any scope documentId plaintext (contentHash plaintext) now =
        (t, .error err)) := by
  have hkey := s.quiet_resolved scope
  have hb : Database.Bodies (EvidenceStore.db { s with scopeKeys := s.resolved scope }) := h
  suffices hadmit : (∃ t, Admits s t scope plaintext ∧
      s.admitApprovedDocBody any scope plaintext (contentHash plaintext) = (t, .ok ())) ∨
      ∃ t err, Quiet s t ∧ Stranded s scope (contentHash plaintext) ∧
        s.admitApprovedDocBody any scope plaintext (contentHash plaintext) = (t, .error err) by
    obtain ⟨t, hadmits, heq⟩ | ⟨t, err, hquiet, hstranded, heq⟩ := hadmit
    · exact .inl ⟨t, hadmits, by simp only [saveApprovedDocumentPayload, heq]⟩
    · exact .inr ⟨t, err, hquiet, hstranded, by simp only [saveApprovedDocumentPayload, heq]⟩
  simp only [admitApprovedDocBody, scopeKey_eq]
  cases hbody : s.db.bodyStore.lookup (contentHash plaintext) with
  | none =>
    refine .inl ⟨_, .of_quiet hkey (admits_insertNewBody hb (h.wrap_eq_none hbody) ?_), rfl⟩
    exact (hkey.resolves.keyFor scope).symm
  | some row =>
    simp only
    cases hown : s.db.keyWraps.lookup (contentHash plaintext, scope) with
    | some w => exact .inl ⟨_, .of_quiet hkey (admits_of_wrap hb hown), rfl⟩
    | none =>
      obtain ⟨hres, hdb, -, hdonates⟩ := dedupDonor_spec
        { s with scopeKeys := s.resolved scope } any (contentHash plaintext) scope
      generalize dedupDonor { s with scopeKeys := s.resolved scope } any (contentHash plaintext)
        scope = dedup at hres hdb hdonates
      obtain ⟨t, donor⟩ := dedup
      have hquiet : Quiet s t := hkey.trans ⟨hres, hdb⟩
      have hbt : t.db.Bodies := by
        rw [hquiet.db]
        exact h
      have hownt : t.db.wrap (contentHash plaintext) scope = none := by
        rw [hquiet.db]
        exact hown
      cases donor with
      | none =>
        -- then nobody has a wrap, and the body would not be there
        obtain ⟨other, w, hw⟩ := h.wrapped _ row hbody
        by_cases hother : other = scope
        · subst hother
          exact absurd (hown.symm.trans hw) (by simp)
        · exact absurd ((hdonates other hother).symm.trans hw) (by simp)
      | some pair =>
        obtain ⟨wrapped, key⟩ := pair
        obtain ⟨donor, hw, hne, hdkey⟩ := hdonates.of_quiet ⟨hres, hdb⟩
        simp only
        by_cases hopen : wrapped.key = key
        · have hunwrap : unwrapCek key wrapped (contentHash plaintext) = .ok wrapped.plain := by
            rw [unwrapCek, decryptAead,
              Sealed.openWith_eq_some.mpr ⟨hopen, (hbt.wraps _ donor wrapped hw).1, rfl⟩]
          simp only [hunwrap]
          have hinsert := admits_insertWrap donor hbt hw hownt
            (hquiet.resolves.keyFor scope).symm
          exact .inl ⟨_, .recounts (.of_quiet hquiet hinsert) (recounts_bumpRefCount _ _), rfl⟩
        · have hunwrap : unwrapCek key wrapped (contentHash plaintext) = .error .crypto := by
            rw [unwrapCek, decryptAead, Sealed.openWith_eq_none_of_ne _ hopen]
          simp only [hunwrap]
          refine .inr ⟨t, _, hquiet, ⟨donor, wrapped, ?_, hne, ?_⟩, rfl⟩
          · rw [← hquiet.db, hw]
          · rw [← hquiet.resolves.keyFor, ← hdkey]
            exact hopen

end EvidenceStore

end Knowledge.Evidence
