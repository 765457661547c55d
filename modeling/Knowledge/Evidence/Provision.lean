import Knowledge.Evidence.Calls

/-!
Keys that outlast a restart. The key a scope resolves to is the one its row in `scope_deks`
holds, or the legacy one; only minting a key and deleting one change it.
-/

set_option autoImplicit false

namespace Knowledge.Evidence
open Knowledge.Cipher
open Knowledge.Sync (Uuid)

namespace EvidenceStore

/-- Every row of `scope_deks` opens, and of these scopes each resolves to what opening the file
again would give it. -/
structure HydratedOn (s : EvidenceStore) (P : ScopeId → Prop) : Prop where
  opens : ∀ scope row, s.db.scopeDeks.lookup scope = some row → ∃ key, s.dekFor scope = some key
  agrees : ∀ scope, P scope → s.keyFor scope = (s.dekFor scope).getD (s.legacyKey scope)

abbrev Hydrated (s : EvidenceStore) : Prop := s.HydratedOn fun _ => True

theorem HydratedOn.lookup_eq_none {s : EvidenceStore} {P : ScopeId → Prop} (h : s.HydratedOn P)
    {scope : ScopeId} (hnone : s.dekFor scope = none) : s.db.scopeDeks.lookup scope = none := by
  cases hrow : s.db.scopeDeks.lookup scope with
  | none => rfl
  | some row =>
    obtain ⟨key, hkey⟩ := h.opens scope row hrow
    rw [hnone] at hkey
    cases hkey

theorem dekFor_eq_none {s : EvidenceStore} {scope : ScopeId}
    (h : s.db.scopeDeks.lookup scope = none) : s.dekFor scope = none := by
  rw [dekFor, h]
  rfl

theorem Resolves.hydrated {s t : EvidenceStore} {P : ScopeId → Prop} (h : Resolves s t)
    (hs : s.HydratedOn P) : t.HydratedOn P := by
  refine ⟨fun scope row hrow => ?_, fun scope hscope => ?_⟩
  · rw [h.deks] at hrow
    rw [h.dekFor]
    exact hs.opens scope row hrow
  · rw [h.keyFor, h.dekFor, h.legacyKey]
    exact hs.agrees scope hscope

theorem hydrated_start (masterKey : MasterKey) (config : EvidenceStoreConfig) :
    (Books.start masterKey config).store.Hydrated := by
  refine ⟨fun scope row hrow => ?_, fun scope _ => ?_⟩
  · cases hrow
  · rfl

structure Provides (s t : EvidenceStore) (scope : ScopeId) (dek : AeadKey) : Prop where
  master : t.masterKey = s.masterKey
  config : t.config = s.config
  draws : s.draws < t.draws
  data : s.db.SameData t.db
  sequence : t.db.ringSequence = s.db.ringSequence
  key : ∀ other, t.keyFor other = if other = scope then dek else s.keyFor other
  dek : ∀ other, t.dekFor other = if other = scope then some dek else s.dekFor other
  row : ∀ other row, t.db.scopeDeks.lookup other = some row →
    other = scope ∨ s.db.scopeDeks.lookup other = some row

theorem provides_storeScopeDek {s : EvidenceStore} {scope : ScopeId}
    (hrow : s.db.scopeDeks.lookup scope = none) (dek : AeadKey) (now : Int) :
    Provides s (s.storeScopeDek scope dek now) scope dek := by
  have heq : s.storeScopeDek scope dek now =
      { s with
        draws := s.draws+1
        db := { s.db with
          scopeDeks := s.db.scopeDeks.insert scope ⟨encryptAead (dekWrappingKey s.masterKey)
            s.draws dek (scopeDekAad scope), now⟩ }
        scopeKeys := s.scopeKeys.insert scope dek } := by
    simp only [storeScopeDek, draw, hrow]
  rw [heq]
  refine ⟨rfl, rfl, Nat.lt_succ_self _, ⟨rfl, rfl, rfl, rfl, rfl, rfl, rfl, rfl, rfl⟩, rfl,
    fun other => ?_, fun other => ?_, fun other row hother => ?_⟩
  · simp only [keyFor, Table.lookup_insert_ite]
    split
    · rfl
    · rfl
  · simp only [dekFor, Table.lookup_insert_ite]
    split
    · rename_i hother
      subst hother
      exact Sealed.openWith_mk _ _ _ _
    · rfl
  · simp only [Table.lookup_insert_ite] at hother
    split at hother
    · exact .inl ‹_›
    · exact .inr hother

theorem Provides.hydrated {s t : EvidenceStore} {P : ScopeId → Prop} {scope : ScopeId}
    {dek : AeadKey} (h : Provides s t scope dek) (hs : s.HydratedOn P) : t.HydratedOn P := by
  refine ⟨fun other row hrow => ?_, fun other hother => ?_⟩
  · rw [h.dek]
    split
    · exact ⟨dek, rfl⟩
    · rename_i hne
      exact hs.opens other row ((h.row other row hrow).resolve_left hne)
  · rw [h.key, h.dek, legacyKey, h.master]
    split
    · rfl
    · exact hs.agrees other hother

/-- What provisioning a scope does: its key is there already, the legacy key is adopted for
evidence that is sealed under it, or a new one is drawn. -/
theorem ensureScopeDek_cases {s : EvidenceStore} {P : ScopeId → Prop} (hs : s.HydratedOn P)
    (scope : ScopeId) (hscope : P scope) (now : Int) :
    (Quiet s (s.ensureScopeDek scope now).1 ∧
      (s.ensureScopeDek scope now).2 = .ok (s.keyFor scope)) ∨
    (s.db.scopeDeks.lookup scope = none ∧ hasEvidence s.db scope = true ∧
      Provides s (s.ensureScopeDek scope now).1 scope (s.keyFor scope) ∧
      (s.ensureScopeDek scope now).2 = .ok (s.keyFor scope)) ∨
    (s.scopeKeys.lookup scope = none ∧ s.db.scopeDeks.lookup scope = none ∧
      hasEvidence s.db scope = false ∧
      Provides s (s.ensureScopeDek scope now).1 scope (.random s.draws) ∧
      (s.ensureScopeDek scope now).2 = .ok (.random s.draws)) := by
  unfold ensureScopeDek
  cases hcache : s.scopeKeys.lookup scope with
  | some key =>
    refine .inl ⟨.refl s, ?_⟩
    rw [keyFor, hcache]
    rfl
  | none =>
    have hlegacy : s.keyFor scope = s.legacyKey scope := by
      rw [keyFor, hcache]
      rfl
    cases hrow : s.db.scopeDeks.lookup scope with
    | some row =>
      obtain ⟨key, hkey⟩ := hs.opens scope row hrow
      have hagrees := hs.agrees scope hscope
      rw [hkey, Option.getD_some, hlegacy] at hagrees
      rw [dekFor, hrow, Option.bind_some] at hkey
      simp only [decryptAead, hkey]
      refine .inl ⟨⟨⟨rfl, rfl, Nat.le_refl _, rfl, fun other => ?_⟩, rfl⟩, ?_⟩
      · rw [Table.lookup_insert_ite]
        split
        · rename_i hother
          subst hother
          exact .inr ⟨hcache, by rw [hagrees]⟩
        · exact .inl rfl
      · rw [hlegacy, hagrees]
    | none =>
      cases hevidence : hasEvidence s.db scope with
      | true =>
        refine .inr (.inl ⟨rfl, rfl, ?_, ?_⟩)
        · simp only [if_true, hlegacy]
          exact provides_storeScopeDek hrow _ now
        · simp only [if_true, hlegacy]
          rfl
      | false =>
        refine .inr (.inr ⟨rfl, rfl, rfl, ?_, rfl⟩)
        simp only [Bool.false_eq_true, if_false, draw]
        obtain ⟨h1, h2, h3, h4, h5, h6, h7, h8⟩ := provides_storeScopeDek (s := { s with
          draws := s.draws+1 }) hrow (.random s.draws) now
        exact ⟨h1, h2, Nat.lt_trans (Nat.lt_succ_self _) h3, h4, h5, h6, h7, h8⟩

structure Rekeys (s t : EvidenceStore) (scope : ScopeId) : Prop where
  master : t.masterKey = s.masterKey
  data : s.db.SameData t.db
  sequence : t.db.ringSequence = s.db.ringSequence
  key : ∀ other, other ≠ scope → t.keyFor other = s.keyFor other
  dek : ∀ other, other ≠ scope → t.dekFor other = s.dekFor other
  opens : ∀ other row, t.db.scopeDeks.lookup other = some row → ∃ key, t.dekFor other = some key

theorem Provides.rekeys {s t : EvidenceStore} {P : ScopeId → Prop} {scope : ScopeId} {dek : AeadKey}
    (h : Provides s t scope dek) (hs : s.HydratedOn P) : Rekeys s t scope := by
  refine ⟨h.master, h.data, h.sequence, fun other hne => ?_, fun other hne => ?_,
    (h.hydrated hs).opens⟩
  · rw [h.key, if_neg hne]
  · rw [h.dek, if_neg hne]

theorem rekeys_ensureScopeDek {s : EvidenceStore} {P : ScopeId → Prop} (hs : s.HydratedOn P)
    (scope : ScopeId) (now : Int) : Rekeys s (s.ensureScopeDek scope now).1 scope := by
  unfold ensureScopeDek
  have hrefl : s.db.SameData s.db := ⟨rfl, rfl, rfl, rfl, rfl, rfl, rfl, rfl, rfl⟩
  cases hcache : s.scopeKeys.lookup scope with
  | some key => exact ⟨rfl, hrefl, rfl, fun _ _ => rfl, fun _ _ => rfl, hs.opens⟩
  | none =>
    cases hrow : s.db.scopeDeks.lookup scope with
    | some row =>
      obtain ⟨key, hkey⟩ := hs.opens scope row hrow
      rw [dekFor, hrow, Option.bind_some] at hkey
      simp only [decryptAead, hkey]
      refine ⟨rfl, hrefl, rfl, fun other hne => ?_, fun _ _ => rfl, hs.opens⟩
      simp only [keyFor, Table.lookup_insert_ite, if_neg hne]
      rfl
    | none =>
      simp only
      split
      · exact (provides_storeScopeDek hrow _ now).rekeys hs
      · have hdrawn : HydratedOn { s with draws := s.draws+1 } P := ⟨hs.opens, hs.agrees⟩
        obtain ⟨h1, h2, h3, h4, h5, h6⟩ := (provides_storeScopeDek
          (s := { s with draws := s.draws+1 }) hrow (.random s.draws) now).rekeys hdrawn
        exact ⟨h1, h2, h3, h4, h5, h6⟩

theorem keyFor_deleteScopeDek (s : EvidenceStore) (scope other : ScopeId) :
    (s.deleteScopeDek scope).keyFor other =
      if other = scope then s.legacyKey other else s.keyFor other := by
  simp only [deleteScopeDek, keyFor, Table.lookup_erase_ite]
  split
  · rfl
  · rfl

theorem dekFor_deleteScopeDek (s : EvidenceStore) (scope other : ScopeId) :
    (s.deleteScopeDek scope).dekFor other = if other = scope then none else s.dekFor other := by
  simp only [deleteScopeDek, dekFor, Table.lookup_erase_ite]
  split
  · rfl
  · rfl

section

variable {s : EvidenceStore} {P : ScopeId → Prop}

theorem hydrated_deleteScopeDek (hs : s.HydratedOn P)
    (scope : ScopeId) : (s.deleteScopeDek scope).HydratedOn P := by
  refine ⟨fun other row hrow => ?_, fun other hother => ?_⟩
  · simp only [deleteScopeDek, Table.lookup_erase_ite] at hrow
    rw [dekFor_deleteScopeDek]
    split at hrow
    · cases hrow
    · rename_i hne
      rw [if_neg hne]
      exact hs.opens other row hrow
  · rw [keyFor_deleteScopeDek, dekFor_deleteScopeDek]
    split
    · rfl
    · exact hs.agrees other hother

theorem loadScopeDeks_ok (hs : s.HydratedOn P) :
    ∃ deks, loadScopeDeks s.db s.masterKey = .ok deks ∧
      ∀ scope, deks.lookup scope = s.dekFor scope := by
  have hopens : ∀ e ∈ s.db.scopeDeks.rows, ∃ key, decryptAead (dekWrappingKey s.masterKey)
      e.2.wrappedDek (scopeDekAad e.1) = .ok key := by
    intro e he
    have hrow := Table.mem_rows_iff.mp he
    obtain ⟨key, hkey⟩ := hs.opens e.1 e.2 hrow
    rw [dekFor, hrow, Option.bind_some] at hkey
    exact ⟨key, by rw [decryptAead, hkey]⟩
  obtain ⟨deks, hdeks, hin, hout⟩ := Table.collect_ok
    (f := fun scope (row : DekRow) =>
      decryptAead (dekWrappingKey s.masterKey) row.wrappedDek (scopeDekAad scope))
    (Table.keys_nodup_rows s.db.scopeDeks) hopens ∅
  refine ⟨deks, hdeks, fun scope => ?_⟩
  cases hrow : s.db.scopeDeks.lookup scope with
  | none =>
    rw [dekFor_eq_none hrow, hout scope, AList.lookup_empty]
    intro hmem
    obtain ⟨e, he, rfl⟩ := List.mem_map.mp hmem
    rw [Table.mem_rows_iff.mp he] at hrow
    cases hrow
  | some row =>
    obtain ⟨key, hkey⟩ := hs.opens scope row hrow
    have hopen := hkey
    rw [dekFor, hrow, Option.bind_some] at hopen
    rw [hkey]
    exact hin scope row key (Table.mem_rows_iff.mpr hrow) (by rw [decryptAead, hopen])

theorem reopen_cases (hs : s.HydratedOn P) :
    s.reopen.1 = s ∨ ∃ deks, (∀ scope, deks.lookup scope = s.dekFor scope) ∧
      s.reopen.1 = { s with scopeKeys := deks } := by
  obtain ⟨deks, hload, hcache⟩ := loadScopeDeks_ok hs
  unfold reopen openFile
  split
  · exact .inl rfl
  · rename_i store hopen
    split at hopen
    · cases hopen
    · split at hopen
      · cases hopen
      · rw [hload] at hopen
        obtain rfl := Except.ok.inj hopen
        exact .inr ⟨deks, hcache, rfl⟩

theorem reopen_spec (hs : s.HydratedOn P) :
    s.reopen.1.db = s.db ∧ s.reopen.1.masterKey = s.masterKey ∧ s.reopen.1.config = s.config ∧
      s.reopen.1.draws = s.draws ∧
      ∀ scope, P scope → s.reopen.1.keyFor scope = s.keyFor scope := by
  obtain heq | ⟨deks, hcache, heq⟩ := reopen_cases hs
  · rw [heq]
    exact ⟨rfl, rfl, rfl, rfl, fun _ _ => rfl⟩
  · rw [heq]
    refine ⟨rfl, rfl, rfl, rfl, fun scope hscope => ?_⟩
    rw [hs.agrees scope hscope, keyFor, hcache]
    rfl

theorem hydrated_reopen (hs : s.HydratedOn P) :
    s.reopen.1.HydratedOn P := by
  obtain ⟨hdb, hmaster, -, -, hkey⟩ := reopen_spec hs
  have hdek : ∀ scope, s.reopen.1.dekFor scope = s.dekFor scope := fun scope => by
    rw [dekFor, dekFor, hdb, hmaster]
  refine ⟨fun scope row hrow => ?_, fun scope hscope => ?_⟩
  · rw [hdb] at hrow
    rw [hdek]
    exact hs.opens scope row hrow
  · rw [hkey scope hscope, hdek, legacyKey, hmaster]
    exact hs.agrees scope hscope

end

end EvidenceStore

end Knowledge.Evidence
