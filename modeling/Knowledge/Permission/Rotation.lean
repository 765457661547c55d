import Knowledge.Permission.Persist

/-!
What a rotation of the tuple store that succeeds has read and written, whatever the file held
and whatever its steps met.
-/

set_option autoImplicit false

namespace Knowledge.Permission
open Knowledge.Cipher
open Knowledge.Sync (Uuid)
open Knowledge.Vault

namespace PersistentTupleStore

variable {newV5 : Uuid → Bytes → Uuid}

theorem loadRows_card {key : DerivedKey} {l : List (Uuid × Row)} {store loaded : TupleStore}
    (h : loadRows key store l = (loaded, .ok ())) :
    loaded.tuples.card ≤ store.tuples.card+l.length := by
  induction l generalizing store with
  | nil =>
    obtain ⟨rfl, -⟩ := Prod.mk.inj h
    simp
  | cons e rest ih =>
    obtain ⟨id, row⟩ := e
    rw [loadRows] at h
    split at h
    · cases (Prod.mk.inj h).2
    · rename_i read hread
      have hrest := ih h
      have hone := Finset.card_insert_le read store.tuples
      rw [TupleStore.upsert_tuples] at hrest
      rw [List.length_cons]
      omega

structure Loaded (masterKey : MasterKey) (p : PersistentTupleStore) : Prop where
  conn : p.conn = ⟨some (deriveKey masterKey pageContext), schemaVersion, p.conn.rows⟩
  payloadKey : p.payloadKey = deriveKey masterKey payloadContext
  master : p.masterKey = masterKey
  load : loadRows p.payloadKey .new (orderedRows p.conn.rows) = (p.store, .ok ())

theorem Loaded.reopen {masterKey : MasterKey} {p : PersistentTupleStore}
    (h : Loaded masterKey p) : «open» (some p.conn) masterKey .none false = (p.conn, .ok p) := by
  obtain ⟨store, conn, payloadKey, master⟩ := p
  obtain ⟨hconn, hkey, hmaster, hload⟩ := h
  dsimp only at hconn hkey hmaster hload
  subst hkey hmaster
  have hown : conn.Own (deriveKey master pageContext) := by
    rw [hconn]
    exact ⟨.inr rfl, .inr rfl⟩
  rw [«open», Option.getD_some, hown.unlock_ok, ← hconn]
  simp [loadAll, hload]

theorem Loaded.card {masterKey : MasterKey} {p : PersistentTupleStore} (h : Loaded masterKey p) :
    p.store.tuples.card ≤ p.conn.rows.rows.length := by
  have hcard := loadRows_card h.load
  rw [orderedRows, List.length_insertionSort] at hcard
  simpa [TupleStore.new] using hcard

theorem open_loaded {file : Option (DbFile Rows)} {masterKey : MasterKey} {fault : OpenFault}
    {queryFails : Bool} {left : DbFile Rows} {p : PersistentTupleStore}
    (h : «open» file masterKey fault queryFails = (left, .ok p)) :
    p.conn = left ∧ left.rows = (file.getD emptyFile).rows ∧ Loaded masterKey p := by
  have hunlock := @DbFile.unlock_ok _ (deriveKey masterKey pageContext) (file.getD emptyFile) fault
  rw [«open»] at h
  generalize (file.getD emptyFile).unlock (deriveKey masterKey pageContext) fault = u at *
  obtain ⟨opened, reply⟩ := u
  cases reply with
  | error err => cases (Prod.mk.inj h).2
  | ok _ =>
    have hopened := hunlock rfl
    dsimp only at hopened h
    cases queryFails with
    | true => cases (Prod.mk.inj h).2
    | false =>
      simp only [loadAll, Bool.false_eq_true, if_false] at h
      generalize hload : loadRows (deriveKey masterKey payloadContext) .new
        (orderedRows opened.rows) = r at h
      obtain ⟨store, reply⟩ := r
      cases reply with
      | error err => cases (Prod.mk.inj h).2
      | ok _ =>
        obtain ⟨rfl, hp⟩ := Prod.mk.inj h
        obtain rfl := Except.ok.inj hp
        refine ⟨rfl, by rw [hopened], ?_, rfl, rfl, hload⟩
        dsimp only
        rw [hopened]

structure Copied (newV5 : Uuid → Bytes → Uuid) (masterKey : MasterKey)
    (p : PersistentTupleStore) : Prop where
  conn : p.conn = ⟨some (deriveKey masterKey pageContext), schemaVersion, p.conn.rows⟩
  payloadKey : p.payloadKey = deriveKey masterKey payloadContext
  rows : ∀ id row, p.conn.rows.lookup id = some row → ∃ tuple ∈ p.store.tuples, ∃ env,
    id = tupleRowId newV5 tuple ∧ row = tupleRow p.payloadKey id tuple env

theorem Copied.upsert {masterKey : MasterKey} {p q : PersistentTupleStore}
    (h : Copied newV5 masterKey p) {tuple : RelationTuple} {env : WriteEnv}
    (hup : p.upsert newV5 tuple env = (q, .ok true)) :
    Copied newV5 masterKey q ∧ q.store.tuples = Insert.insert tuple p.store.tuples := by
  have htuples := p.store.upsert_tuples tuple
  rw [PersistentTupleStore.upsert] at hup
  generalize p.store.upsert tuple = u at *
  obtain ⟨fresh, store⟩ := u
  cases fresh with
  | false => cases (Prod.mk.inj hup).2
  | true =>
    simp only [persist] at hup htuples
    cases hfault : env.fault with
    | some fault => simp [hfault] at hup
    | none =>
      simp only [hfault] at hup
      obtain ⟨rfl, -⟩ := Prod.mk.inj hup
      refine ⟨⟨?_, h.payloadKey, fun id row hrow => ?_⟩, htuples⟩
      · dsimp only
        rw [h.conn]
      · dsimp only at hrow ⊢
        rw [Table.lookup_insert_ite] at hrow
        rw [htuples]
        split at hrow
        · rename_i hid
          subst hid
          exact ⟨tuple, Finset.mem_insert_self _ _, env, rfl, (Option.some.inj hrow).symm⟩
        · obtain ⟨old, hold, hkept⟩ := h.rows id row hrow
          exact ⟨old, Finset.mem_insert_of_mem hold, hkept⟩

theorem copyTuples_copied {masterKey : MasterKey} {write : Nat → WriteEnv}
    {order : List RelationTuple} {p q : PersistentTupleStore} {written n : Nat}
    (h : Copied newV5 masterKey p) (hcopy : copyTuples newV5 write p written order = (q, .ok n)) :
    Copied newV5 masterKey q ∧ q.store.tuples = p.store.tuples ∪ order.toFinset := by
  induction order generalizing p written with
  | nil =>
    obtain ⟨rfl, -⟩ := Prod.mk.inj hcopy
    exact ⟨h, by simp⟩
  | cons tuple order ih =>
    rw [copyTuples] at hcopy
    split at hcopy
    · cases (Prod.mk.inj hcopy).2
    · cases (Prod.mk.inj hcopy).2
    · rename_i dest hup
      obtain ⟨hdest, htuples⟩ := h.upsert hup
      obtain ⟨hq, hunion⟩ := ih hdest hcopy
      refine ⟨hq, ?_⟩
      rw [hunion, htuples, List.toFinset_cons, Finset.insert_union, Finset.union_insert]

theorem Copied.plain_nodup {masterKey : MasterKey} {p : PersistentTupleStore}
    (h : Copied newV5 masterKey p) :
    (p.conn.rows.rows.map fun e => e.2.payload.plain).Nodup := by
  have hids : p.conn.rows.rows.map Prod.fst
      = (p.conn.rows.rows.map fun e => e.2.payload.plain).map (tupleRowId newV5) := by
    rw [List.map_map]
    refine List.map_congr_left fun e he => ?_
    obtain ⟨tuple, -, env, hid, hrow⟩ := h.rows e.1 e.2 (Table.mem_rows_iff.mp he)
    rw [Function.comp_apply, hrow]
    exact hid
  exact List.Nodup.of_map (tupleRowId newV5) (hids ▸ Table.keys_nodup_rows p.conn.rows)

theorem Copied.reads {masterKey : MasterKey} {p : PersistentTupleStore}
    (h : Copied newV5 masterKey p) (hcard : p.store.tuples.card ≤ p.conn.rows.rows.length) :
    ∃ q, «open» (some p.conn) masterKey .none false = (p.conn, .ok q)
      ∧ q.store.tuples = p.store.tuples := by
  have hmem : ∀ e, e ∈ orderedRows p.conn.rows ↔ e ∈ p.conn.rows.rows := fun e =>
    (List.perm_insertionSort _ _).mem_iff
  have hsealed : ∀ e ∈ orderedRows p.conn.rows, ∃ tuple env,
      e.2 = tupleRow p.payloadKey e.1 tuple env := by
    intro e he
    obtain ⟨tuple, -, env, -, hrow⟩ := h.rows e.1 e.2 (Table.mem_rows_iff.mp ((hmem e).mp he))
    exact ⟨tuple, env, hrow⟩
  obtain ⟨loaded, hload, -, htuples⟩ := loadRows_ok hsealed new_indexed
  have hloaded : Loaded masterKey ⟨loaded, p.conn, p.payloadKey, masterKey⟩ :=
    ⟨h.conn, h.payloadKey, rfl, hload⟩
  refine ⟨_, hloaded.reopen, ?_⟩
  have hplain : loaded.tuples = (p.conn.rows.rows.map fun e => e.2.payload.plain).toFinset := by
    ext tuple
    simp only [htuples, hmem, TupleStore.new, Finset.notMem_empty, false_or, List.mem_toFinset,
      List.mem_map]
  dsimp only
  rw [hplain]
  refine Finset.eq_of_subset_of_card_le (fun tuple ht => ?_) ?_
  · obtain ⟨e, he, rfl⟩ := List.mem_map.mp (List.mem_toFinset.mp ht)
    obtain ⟨tuple, hin, env, -, hrow⟩ := h.rows e.1 e.2 (Table.mem_rows_iff.mp he)
    rw [hrow]
    exact hin
  · rw [List.toFinset_card_of_nodup h.plain_nodup, List.length_map]
    exact hcard

theorem persistedCount_ok {p : PersistentTupleStore} {fails : Bool} {n : Nat}
    (h : p.persistedCount fails = .ok n) : n = p.conn.rows.rows.length := by
  cases fails with
  | true => cases h
  | false => exact (Except.ok.inj h).symm

theorem rotateMasterKey_reads {oldKey newKey : MasterKey} {p : PersistentTupleStore}
    (hp : Loaded oldKey p) {order : List RelationTuple}
    (horder : TupleStore.Enumerates order p.store.tuples) {env : RotateEnv}
    {file : Option (DbFile Rows)} {n : Nat}
    (h : p.rotateMasterKey newV5 newKey none order env = (file, .ok n)) :
    ∃ copy q, file = some copy ∧ «open» (some copy) newKey .none false = (copy, .ok q)
      ∧ q.store.tuples = p.store.tuples := by
  simp only [rotateMasterKey, Option.isSome_none, Bool.false_eq_true, if_false] at h
  generalize hopen : «open» none newKey env.openFault env.queryFails = opened at h
  obtain ⟨left, reply⟩ := opened
  cases reply with
  | error err => cases (Prod.mk.inj h).2
  | ok dest =>
    obtain ⟨hconn, hrows, hdest⟩ := open_loaded hopen
    have hempty : dest.conn.rows = ∅ := by rw [hconn, hrows]; rfl
    have hnew : dest.store = .new := by
      have hload := hdest.load
      rw [hempty] at hload
      exact (Prod.mk.inj hload).1.symm
    have hfresh : Copied newV5 newKey dest :=
      ⟨hdest.conn, hdest.payloadKey, fun id row hrow => by simp [hempty] at hrow⟩
    dsimp only at h
    generalize hcopy : copyTuples newV5 env.write dest 0 order = c at h
    obtain ⟨q, reply⟩ := c
    cases reply with
    | error err => cases (Prod.mk.inj h).2
    | ok written =>
      obtain ⟨hq, hunion⟩ := copyTuples_copied hfresh hcopy
      have htuples : q.store.tuples = p.store.tuples := by
        rw [hunion, hnew, horder.2, TupleStore.new, Finset.empty_union]
      dsimp only at h
      split at h
      · cases (Prod.mk.inj h).2
      · cases (Prod.mk.inj h).2
      · rename_i count source hcount hsource
        split at h
        · cases (Prod.mk.inj h).2
        · rename_i hsame
          obtain ⟨rfl, -⟩ := Prod.mk.inj h
          have hcard : q.store.tuples.card ≤ q.conn.rows.rows.length := by
            have hp := hp.card
            rw [htuples, ← persistedCount_ok hcount, not_not.mp hsame, persistedCount_ok hsource]
            exact hp
          obtain ⟨r, hopen, hr⟩ := hq.reads hcard
          exact ⟨q.conn, r, rfl, hopen, hr.trans htuples⟩

end PersistentTupleStore

end Knowledge.Permission
