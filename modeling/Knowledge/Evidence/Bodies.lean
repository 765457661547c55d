import Knowledge.Evidence.Keys

/-!
Bodies that scopes share. A body is stored once under a content key, and each scope that
has it wraps that key: what admitting a body and purging a scope do to the two tables.
-/

set_option autoImplicit false

namespace Knowledge.Evidence
open Knowledge.Cipher
open Knowledge.Sync (Uuid)

namespace Database

def wrap (db : Database) (hash : ContentHash) (scope : ScopeId) : Option (Ciphertext AeadKey) :=
  db.keyWraps.lookup (hash, scope)

/-- Every wrap holds the key of a body that is there, a body is what its hash says, and a
body has a wrap. -/
structure Bodies (db : Database) : Prop where
  wraps : ∀ hash scope w, db.wrap hash scope = some w → w.aad = cekWrapAad hash ∧
    ∃ row, db.bodyStore.lookup hash = some row ∧ row.body.key = w.plain
  bodies : ∀ hash row, db.bodyStore.lookup hash = some row →
    row.body.aad = bodyTableAad hash ∧ contentHash row.body.plain = hash
  wrapped : ∀ hash row, db.bodyStore.lookup hash = some row →
    ∃ scope w, db.wrap hash scope = some w

theorem bodies_empty : Database.empty.Bodies := by
  constructor
  · intro hash scope w h
    cases h
  · intro hash row h
    cases h
  · intro hash row h
    cases h

theorem Bodies.congr {db db' : Database} (h : db.Bodies) (hbodies : db'.bodyStore = db.bodyStore)
    (hwraps : db'.keyWraps = db.keyWraps) : db'.Bodies := by
  have hwrap : db'.wrap = db.wrap := by
    funext hash scope
    rw [wrap, wrap, hwraps]
  constructor
  · rw [hwrap, hbodies]
    exact h.wraps
  · rw [hbodies]
    exact h.bodies
  · rw [hwrap, hbodies]
    exact h.wrapped

theorem Bodies.exists_body_iff {db : Database} (h : db.Bodies) (hash : ContentHash) :
    (∃ row, db.bodyStore.lookup hash = some row) ↔ ∃ scope w, db.wrap hash scope = some w := by
  constructor
  · rintro ⟨row, hrow⟩
    exact h.wrapped hash row hrow
  · rintro ⟨scope, w, hw⟩
    obtain ⟨-, row, hrow, -⟩ := h.wraps hash scope w hw
    exact ⟨row, hrow⟩

theorem Bodies.wrap_eq_none {db : Database} (h : db.Bodies) {hash : ContentHash}
    (hnone : db.bodyStore.lookup hash = none) (other : ScopeId) : db.wrap hash other = none := by
  cases hw : db.wrap hash other with
  | none => rfl
  | some w =>
    obtain ⟨-, row, hrow, -⟩ := h.wraps hash other w hw
    rw [hnone] at hrow
    cases hrow

structure SameRows (db db' : Database) : Prop where
  evidence : db'.evidence = db.evidence
  ringBuffer : db'.ringBuffer = db.ringBuffer
  ringSequence : db'.ringSequence = db.ringSequence
  scopeDeks : db'.scopeDeks = db.scopeDeks
  memoryObjects : db'.memoryObjects = db.memoryObjects
  connectorInstances : db'.connectorInstances = db.connectorInstances
  connectorTokens : db'.connectorTokens = db.connectorTokens
  approvedDocuments : db'.approvedDocuments = db.approvedDocuments
  synthesisVersions : db'.synthesisVersions = db.synthesisVersions
  forgottenScopes : db'.forgottenScopes = db.forgottenScopes

theorem SameRows.of_bodies (db : Database) (bodyStore : Table ContentHash BodyRow)
    (keyWraps : Table (ContentHash × ScopeId) (Ciphertext AeadKey)) :
    db.SameRows { db with bodyStore, keyWraps } :=
  ⟨rfl, rfl, rfl, rfl, rfl, rfl, rfl, rfl, rfl, rfl⟩

theorem SameRows.trans {db db' db'' : Database} (h : db.SameRows db') (h' : db'.SameRows db'') :
    db.SameRows db'' :=
  ⟨h'.1.trans h.1, h'.2.trans h.2, h'.3.trans h.3, h'.4.trans h.4, h'.5.trans h.5, h'.6.trans h.6,
    h'.7.trans h.7, h'.8.trans h.8, h'.9.trans h.9, h'.10.trans h.10⟩

end Database

open Database

namespace EvidenceStore

/-- From one store to the next the scope has been given a wrap of the body, if it had none. -/
structure Admits (s t : EvidenceStore) (scope : ScopeId) (body : Bytes) : Prop where
  resolves : Resolves s t
  rows : s.db.SameRows t.db
  bodies : t.db.Bodies
  has : ∃ w, t.db.wrap (contentHash body) scope = some w
  kept : ∀ hash other w, s.db.wrap hash other = some w → t.db.wrap hash other = some w
  wraps : ∀ hash other w, t.db.wrap hash other = some w → s.db.wrap hash other = some w ∨
    hash = contentHash body ∧ other = scope ∧ w.key = s.keyFor scope
  ceks : ∀ hash other w, t.db.wrap hash other = some w →
    (∃ other' w', s.db.wrap hash other' = some w' ∧ w'.plain = w.plain) ∨
    ∃ n, w.plain = .random n ∧ s.draws ≤ n ∧ n < t.draws

theorem mem_otherWraps {db : Database} {hash : ContentHash} {scope donor : ScopeId}
    {wrapped : Ciphertext AeadKey} :
    (donor, wrapped) ∈ otherWraps db hash scope ↔
      db.wrap hash donor = some wrapped ∧ donor ≠ scope := by
  simp only [otherWraps, List.mem_map, List.mem_filter, Prod.exists, decide_eq_true_eq]
  constructor
  · rintro ⟨h, d, w, ⟨hmem, hh, hd⟩, heq⟩
    obtain ⟨rfl, rfl⟩ := Prod.mk.inj heq
    subst hh
    exact ⟨Table.mem_rows_iff.mp hmem, hd⟩
  · rintro ⟨hw, hd⟩
    exact ⟨hash, donor, wrapped, ⟨Table.mem_rows_iff.mpr hw, rfl, hd⟩, rfl⟩

theorem dedupDonor_cases (s : EvidenceStore) (any : AnyRow (ScopeId × Ciphertext AeadKey))
    (hash : ContentHash) (scope : ScopeId) :
    (∃ donor wrapped, s.db.wrap hash donor = some wrapped ∧ donor ≠ scope ∧
      s.dedupDonor any hash scope =
        ({ s with scopeKeys := s.resolved donor }, some (wrapped, s.keyFor donor))) ∨
    (∀ other, other ≠ scope → s.db.wrap hash other = none) ∧
      s.dedupDonor any hash scope = (s, none) := by
  unfold dedupDonor
  cases h : any.pick (otherWraps s.db hash scope) with
  | none =>
    refine .inr ⟨fun other hne => ?_, rfl⟩
    have hnil := any.exhausted _ h
    cases hw : s.db.wrap hash other with
    | none => rfl
    | some w =>
      have hmem := mem_otherWraps.mpr ⟨hw, hne⟩
      rw [hnil] at hmem
      cases hmem
  | some row =>
    obtain ⟨donor, wrapped⟩ := row
    obtain ⟨hw, hne⟩ := mem_otherWraps.mp (any.mem _ _ h)
    exact .inl ⟨donor, wrapped, hw, hne, by simp only [scopeKey_eq]⟩

section

variable {s : EvidenceStore} {scope : ScopeId} {body : Bytes}

theorem admits_insertNewBody (h : s.db.Bodies)
    (hnone : ∀ other, s.db.wrap (contentHash body) other = none) {key : AeadKey}
    (hkey : key = s.keyFor scope) :
    Admits s (s.insertNewBody scope key body (contentHash body)) scope body := by
  have hwrap : ∀ hash other, (s.insertNewBody scope key body (contentHash body)).db.wrap hash other
      = if hash = contentHash body ∧ other = scope then
        some (wrapCek key (.random s.draws) (s.draws+2) (contentHash body))
      else s.db.wrap hash other := by
    intro hash other
    simp only [← Prod.mk.injEq]
    exact Table.lookup_insert_ite _ _ _ _
  have hbody : ∀ hash, hash ≠ contentHash body →
      (s.insertNewBody scope key body (contentHash body)).db.bodyStore.lookup hash =
        s.db.bodyStore.lookup hash := fun hash hne => AList.lookup_insert_ne hne
  have hself : (s.insertNewBody scope key body (contentHash body)).db.bodyStore.lookup
      (contentHash body) =
        some ⟨encryptAead (.random s.draws) (s.draws+1) body (bodyTableAad (contentHash body)), 1⟩ :=
    AList.lookup_insert _
  refine ⟨resolves_of_eq rfl rfl (Nat.le_add_right _ 3) rfl rfl,
    .of_bodies _ _ _, ⟨?_, ?_, ?_⟩, ?_, ?_, ?_, ?_⟩
  · intro hash other w hw
    rw [hwrap] at hw
    split at hw
    · rename_i heq
      obtain ⟨rfl, rfl⟩ := heq
      cases hw
      exact ⟨rfl, _, hself, rfl⟩
    · obtain ⟨haad, row, hrow, hcek⟩ := h.wraps hash other w hw
      have hne : hash ≠ contentHash body := by
        rintro rfl
        rw [hnone] at hw
        cases hw
      exact ⟨haad, row, by rwa [hbody hash hne], hcek⟩
  · intro hash row hrow
    by_cases hhash : hash = contentHash body
    · subst hhash
      rw [hself] at hrow
      cases hrow
      exact ⟨rfl, rfl⟩
    · rw [hbody hash hhash] at hrow
      exact h.bodies hash row hrow
  · intro hash row hrow
    by_cases hhash : hash = contentHash body
    · subst hhash
      exact ⟨scope, _, by rw [hwrap, if_pos ⟨rfl, rfl⟩]⟩
    · rw [hbody hash hhash] at hrow
      obtain ⟨other, w, hw⟩ := h.wrapped hash row hrow
      exact ⟨other, w, by rw [hwrap, if_neg (fun heq => hhash heq.1), hw]⟩
  · exact ⟨_, by rw [hwrap, if_pos ⟨rfl, rfl⟩]⟩
  · intro hash other w hw
    rw [hwrap, if_neg, hw]
    rintro ⟨rfl, -⟩
    rw [hnone] at hw
    cases hw
  · intro hash other w hw
    rw [hwrap] at hw
    split at hw
    · rename_i heq
      cases hw
      exact .inr ⟨heq.1, heq.2, hkey⟩
    · exact .inl hw
  · intro hash other w hw
    rw [hwrap] at hw
    split at hw
    · cases hw
      exact .inr ⟨s.draws, rfl, Nat.le_refl _,
        Nat.lt_add_of_pos_right (n := s.draws) (k := 3) (by decide)⟩
    · exact .inl ⟨other, w, hw, rfl⟩

theorem admits_insertWrap (donor : ScopeId) (h : s.db.Bodies) {w₀ : Ciphertext AeadKey}
    (hdonor : s.db.wrap (contentHash body) donor = some w₀)
    (hnone : s.db.wrap (contentHash body) scope = none) {key : AeadKey}
    (hkey : key = s.keyFor scope) :
    Admits s (s.insertWrap scope key w₀.plain (contentHash body)) scope body := by
  have hwrap : ∀ hash other,
      (s.insertWrap scope key w₀.plain (contentHash body)).db.wrap hash other =
        if hash = contentHash body ∧ other = scope then
          some (wrapCek key w₀.plain s.draws (contentHash body))
        else s.db.wrap hash other := by
    intro hash other
    simp only [← Prod.mk.injEq]
    exact Table.lookup_insert_ite _ _ _ _
  refine ⟨resolves_of_eq rfl rfl (Nat.le_add_right _ 1) rfl rfl,
    .of_bodies _ _ _, ⟨?_, h.bodies, ?_⟩, ?_, ?_, ?_, ?_⟩
  · intro hash other w hw
    rw [hwrap] at hw
    split at hw
    · rename_i heq
      obtain ⟨rfl, rfl⟩ := heq
      cases hw
      obtain ⟨-, row, hrow, hcek⟩ := h.wraps _ donor w₀ hdonor
      exact ⟨rfl, row, hrow, hcek⟩
    · exact h.wraps hash other w hw
  · intro hash row hrow
    obtain ⟨other, w, hw⟩ := h.wrapped hash row hrow
    by_cases heq : hash = contentHash body ∧ other = scope
    · exact ⟨scope, _, by rw [hwrap, if_pos ⟨heq.1, rfl⟩]⟩
    · exact ⟨other, w, by rw [hwrap, if_neg heq, hw]⟩
  · exact ⟨_, by rw [hwrap, if_pos ⟨rfl, rfl⟩]⟩
  · intro hash other w hw
    rw [hwrap, if_neg, hw]
    rintro ⟨rfl, rfl⟩
    rw [hnone] at hw
    cases hw
  · intro hash other w hw
    rw [hwrap] at hw
    split at hw
    · rename_i heq
      cases hw
      exact .inr ⟨heq.1, heq.2, hkey⟩
    · exact .inl hw
  · intro hash other w hw
    rw [hwrap] at hw
    split at hw
    · rename_i heq
      cases hw
      exact .inl ⟨donor, w₀, by rw [heq.1, hdonor], rfl⟩
    · exact .inl ⟨other, w, hw, rfl⟩

/-- A store that differs in nothing but how often a body is counted. -/
structure Recounts (s t : EvidenceStore) : Prop where
  resolves : Resolves s t
  rows : s.db.SameRows t.db
  draws : t.draws = s.draws
  wraps : ∀ hash other, t.db.wrap hash other = s.db.wrap hash other
  bodies : ∀ hash, (t.db.bodyStore.lookup hash).map BodyRow.body =
    (s.db.bodyStore.lookup hash).map BodyRow.body

theorem recounts_bumpRefCount (s : EvidenceStore) (hash : ContentHash) :
    Recounts s (s.bumpRefCount hash) := by
  unfold bumpRefCount
  split
  · exact ⟨.refl s, .of_bodies _ _ _, rfl, fun _ _ => rfl, fun _ => rfl⟩
  · rename_i row hrow
    refine ⟨resolves_of_eq rfl rfl (Nat.le_refl _) rfl rfl,
      .of_bodies _ _ _, rfl, fun _ _ => rfl, fun h => ?_⟩
    change ((s.db.bodyStore.insert hash _).lookup h).map BodyRow.body = _
    rw [Table.lookup_insert_ite]
    split
    · rename_i heq
      rw [heq, hrow]
      rfl
    · rfl

theorem Recounts.lookup_body {t : EvidenceStore} (h : Recounts s t) {hash : ContentHash}
    {row : BodyRow} (hrow : t.db.bodyStore.lookup hash = some row) :
    ∃ row', s.db.bodyStore.lookup hash = some row' ∧ row'.body = row.body := by
  have hmap := h.bodies hash
  rw [hrow, Option.map_some] at hmap
  exact Option.map_eq_some_iff.mp hmap.symm

theorem Recounts.symm_lookup {t : EvidenceStore} (h : Recounts s t) {hash : ContentHash}
    {row : BodyRow} (hrow : s.db.bodyStore.lookup hash = some row) :
    ∃ row', t.db.bodyStore.lookup hash = some row' ∧ row'.body = row.body := by
  have hmap := h.bodies hash
  rw [hrow, Option.map_some] at hmap
  exact Option.map_eq_some_iff.mp hmap

theorem Recounts.bodies_iff {t : EvidenceStore} (h : Recounts s t) (hb : s.db.Bodies) :
    t.db.Bodies := by
  refine ⟨fun hash other w hw => ?_, fun hash row hrow => ?_, fun hash row hrow => ?_⟩
  · rw [h.wraps] at hw
    obtain ⟨haad, row, hrow, hcek⟩ := hb.wraps hash other w hw
    obtain ⟨row', hrow', hbody⟩ := h.symm_lookup hrow
    exact ⟨haad, row', hrow', by rw [hbody, hcek]⟩
  · obtain ⟨row', hrow', hbody⟩ := h.lookup_body hrow
    rw [← hbody]
    exact hb.bodies hash row' hrow'
  · obtain ⟨row', hrow', -⟩ := h.lookup_body hrow
    obtain ⟨other, w, hw⟩ := hb.wrapped hash row' hrow'
    exact ⟨other, w, by rw [h.wraps, hw]⟩

theorem Admits.of_recounts {t u : EvidenceStore} (h : Recounts s t) (h' : Admits t u scope body) :
    Admits s u scope body := by
  refine ⟨h.resolves.trans h'.resolves, h.rows.trans h'.rows, h'.bodies, h'.has, ?_, ?_, ?_⟩
  · intro hash other w hw
    exact h'.kept hash other w (by rw [h.wraps, hw])
  · intro hash other w hw
    rw [← h.wraps, ← h.resolves.keyFor]
    exact h'.wraps hash other w hw
  · intro hash other w hw
    simp only [← h.wraps, ← h.draws]
    exact h'.ceks hash other w hw

theorem Admits.recounts {t u : EvidenceStore} (h : Admits s t scope body) (h' : Recounts t u) :
    Admits s u scope body := by
  refine ⟨h.resolves.trans h'.resolves, h.rows.trans h'.rows, h'.bodies_iff h.bodies, ?_, ?_, ?_,
    ?_⟩
  · simpa only [h'.wraps] using h.has
  · intro hash other w hw
    rw [h'.wraps]
    exact h.kept hash other w hw
  · intro hash other w hw
    rw [h'.wraps] at hw
    exact h.wraps hash other w hw
  · intro hash other w hw
    rw [h'.wraps] at hw
    rw [h'.draws]
    exact h.ceks hash other w hw

theorem admits_of_wrap (h : s.db.Bodies) {w : Ciphertext AeadKey}
    (hw : s.db.wrap (contentHash body) scope = some w) : Admits s s scope body :=
  ⟨.refl s, .of_bodies _ _ _, h, ⟨w, hw⟩, fun _ _ _ hw => hw,
    fun _ _ _ hw => .inl hw, fun _ other w hw => .inl ⟨other, w, hw, rfl⟩⟩

/-- The donor of a lookup in this state, or that nobody else has a wrap. -/
def Donates (s : EvidenceStore) (scope : ScopeId) (hash : ContentHash) :
    Option (Ciphertext AeadKey × AeadKey) → Prop
  | some (wrapped, key) => ∃ donor, s.db.wrap hash donor = some wrapped ∧ donor ≠ scope ∧
    key = s.keyFor donor
  | none => ∀ other, other ≠ scope → s.db.wrap hash other = none

theorem dedupDonor_spec (s : EvidenceStore) (any : AnyRow (ScopeId × Ciphertext AeadKey))
    (hash : ContentHash) (scope : ScopeId) :
    Resolves s (s.dedupDonor any hash scope).1 ∧ (s.dedupDonor any hash scope).1.db = s.db ∧
      (s.dedupDonor any hash scope).1.draws = s.draws ∧
      Donates s scope hash (s.dedupDonor any hash scope).2 := by
  obtain ⟨donor, wrapped, hw, hne, heq⟩ | ⟨hnone, heq⟩ := s.dedupDonor_cases any hash scope
  · rw [heq]
    exact ⟨resolves_of_resolved donor rfl rfl (Nat.le_refl _) rfl rfl, rfl, rfl, donor, hw, hne,
      rfl⟩
  · rw [heq]
    exact ⟨.refl s, rfl, rfl, hnone⟩

theorem admitBody_cases (h : s.db.Bodies) {donor : Option (Ciphertext AeadKey × AeadKey)}
    (hdonor : Donates s scope (contentHash body) donor) :
    (∃ t, s.admitBody scope (s.keyFor scope) donor body (contentHash body) = .ok t ∧
      Admits s t scope body) ∨
    ∃ err wrapped key, s.admitBody scope (s.keyFor scope) donor body (contentHash body) =
      .error err ∧ donor = some (wrapped, key) ∧ wrapped.key ≠ key := by
  unfold admitBody
  cases hbody : s.db.bodyStore.lookup (contentHash body) with
  | none =>
    exact .inl ⟨_, rfl, admits_insertNewBody h (h.wrap_eq_none hbody) rfl⟩
  | some row =>
    have hcount := recounts_bumpRefCount s (contentHash body)
    have hb := hcount.bodies_iff h
    simp only
    cases hown : (s.bumpRefCount (contentHash body)).db.keyWraps.lookup
        (contentHash body, scope) with
    | some w => exact .inl ⟨_, rfl, .of_recounts hcount (admits_of_wrap hb hown)⟩
    | none =>
      cases donor with
      | none =>
        -- then nobody has a wrap, and the body would not be there
        obtain ⟨other, w, hw⟩ := h.wrapped _ row hbody
        by_cases hother : other = scope
        · subst hother
          rw [← hcount.wraps] at hw
          exact absurd (hown.symm.trans hw) (by simp)
        · rw [hdonor other hother] at hw
          cases hw
      | some pair =>
        obtain ⟨wrapped, key⟩ := pair
        obtain ⟨d, hw, -, -⟩ := hdonor
        have haad := (h.wraps _ d wrapped hw).1
        by_cases hkey : wrapped.key = key
        · have hunwrap : unwrapCek key wrapped (contentHash body) = .ok wrapped.plain := by
            rw [unwrapCek, decryptAead, Sealed.openWith_eq_some.mpr ⟨hkey, haad, rfl⟩]
          simp only [hunwrap]
          refine .inl ⟨_, rfl, .of_recounts hcount (admits_insertWrap d hb ?_ hown ?_)⟩
          · rw [hcount.wraps, hw]
          · rw [hcount.resolves.keyFor]
        · have hunwrap : unwrapCek key wrapped (contentHash body) = .error .crypto := by
            rw [unwrapCek, decryptAead, Sealed.openWith_eq_none_of_ne _ hkey]
          simp only [hunwrap]
          exact .inr ⟨_, wrapped, key, rfl, rfl, hkey⟩

theorem wrap_purge (s : EvidenceStore) (scope : ScopeId) (hash : ContentHash) (other : ScopeId) :
    (s.purgeBodyKeyWrapsForScope scope).db.wrap hash other =
      if other = scope then none else s.db.wrap hash other := by
  simp only [purgeBodyKeyWrapsForScope, wrap]
  rw [Table.lookup_filter]
  cases s.db.keyWraps.lookup (hash, other) with
  | none => simp
  | some w => by_cases h : other = scope <;> simp [Option.filter, h]

theorem body_purge (s : EvidenceStore) (scope : ScopeId) (hash : ContentHash) (row : BodyRow) :
    (s.purgeBodyKeyWrapsForScope scope).db.bodyStore.lookup hash = some row ↔
      s.db.bodyStore.lookup hash = some row ∧ ((∃ w, s.db.wrap hash scope = some w) →
        ∃ other w, other ≠ scope ∧ s.db.wrap hash other = some w) := by
  have hmem : (hash ∈ (s.db.keyWraps.rows.filter fun e => e.1.2 = scope).map fun e => e.1.1) ↔
      ∃ w, s.db.wrap hash scope = some w := by
    simp only [List.mem_map, List.mem_filter, Prod.exists, decide_eq_true_eq]
    constructor
    · rintro ⟨h, sc, w, ⟨hmem, rfl⟩, rfl⟩
      exact ⟨w, Table.mem_rows_iff.mp hmem⟩
    · rintro ⟨w, hw⟩
      exact ⟨hash, scope, w, ⟨Table.mem_rows_iff.mpr hw, rfl⟩, rfl⟩
  have hany : ((s.db.keyWraps.filter fun k _ => k.2 ≠ scope).any fun k _ => k.1 = hash) = true ↔
      ∃ other w, other ≠ scope ∧ s.db.wrap hash other = some w := by
    rw [Table.any_eq_true]
    simp only [Prod.exists, Table.lookup_filter_eq_some, decide_eq_true_eq]
    constructor
    · rintro ⟨h, other, w, ⟨hw, hne⟩, rfl⟩
      exact ⟨other, w, hne, hw⟩
    · rintro ⟨other, w, hne, hw⟩
      exact ⟨hash, other, w, ⟨hw, hne⟩, rfl⟩
  simp only [purgeBodyKeyWrapsForScope]
  rw [Table.lookup_filter_eq_some]
  refine and_congr Iff.rfl ?_
  rw [← hmem, ← hany]
  by_cases h : hash ∈ (s.db.keyWraps.rows.filter fun e => e.1.2 = scope).map fun e => e.1.1
  · simp [h]
  · simp [h]

theorem bodies_purge (h : s.db.Bodies) (scope : ScopeId) :
    (s.purgeBodyKeyWrapsForScope scope).db.Bodies := by
  refine ⟨fun hash other w hw => ?_, fun hash row hrow => ?_, fun hash row hrow => ?_⟩
  · rw [wrap_purge] at hw
    split at hw
    · cases hw
    · rename_i hne
      obtain ⟨haad, row, hrow, hcek⟩ := h.wraps hash other w hw
      exact ⟨haad, row, (body_purge ..).mpr ⟨hrow, fun _ => ⟨other, w, hne, hw⟩⟩, hcek⟩
  · exact h.bodies hash row ((body_purge ..).mp hrow).1
  · obtain ⟨hrow, hothers⟩ := (body_purge ..).mp hrow
    obtain ⟨other, w, hw⟩ := h.wrapped hash row hrow
    by_cases hother : other = scope
    · subst hother
      obtain ⟨other', w', hne, hw'⟩ := hothers ⟨w, hw⟩
      exact ⟨other', w', by rw [wrap_purge, if_neg hne, hw']⟩
    · exact ⟨other, w, by rw [wrap_purge, if_neg hother, hw]⟩

end

end EvidenceStore

end Knowledge.Evidence
