import Mathlib.Data.Finset.Card
import Knowledge.Crypto.Vault
import Knowledge.Lib.Machine
import Knowledge.Lib.Table
import Knowledge.Permission.Store

/-!
`crates/permission_service/src/persist.rs`: the tuple store mirrored to a database, one row for
each tuple under an id that is a hash of the tuple, and rotated to a new master key.
-/

set_option autoImplicit false

namespace Knowledge.Permission
open Knowledge.Cipher
open Knowledge.Machine
open Knowledge.Sync (Uuid)
open Knowledge.Transition
open Knowledge.Vault
open TupleStore

abbrev Bytes := List UInt8

def strBytes (s : String) : Bytes := s.toUTF8.data.toList

def uuidBytes (id : Uuid) : Bytes := toBeBytes 16 id.toNat

def pushLenPrefixed (buf field : Bytes) : Bytes := buf ++ toLeBytes 4 field.length ++ field

def subjectRelationTag (subject : SubjectRef) : Option String :=
  subject.subjectRelation.map Relation.asStr

def rowName (tuple : RelationTuple) : Bytes :=
  let name := pushLenPrefixed [] (strBytes tuple.object.objectType.asStr)
  let name := pushLenPrefixed name (uuidBytes tuple.object.objectId)
  let name := pushLenPrefixed name (strBytes tuple.relation.asStr)
  let name := pushLenPrefixed name (strBytes tuple.subject.subjectType.asStr)
  let name := pushLenPrefixed name (uuidBytes tuple.subject.subjectId)
  match tuple.subject.subjectRelation with
  | some rel => pushLenPrefixed name (strBytes rel.asStr)
  | none => pushLenPrefixed name []

theorem strBytes_injective : Function.Injective strBytes := by
  intro a b h
  have hdata : a.toUTF8.data = b.toUTF8.data := Array.toList_inj.mp h
  exact String.toByteArray_inj.mp (ByteArray.ext hdata)

theorem uuidBytes_injective : Function.Injective uuidBytes := by
  intro a b h
  have hbytes : toLeBytes 16 a.toNat = toLeBytes 16 b.toNat := List.reverse_injective h
  exact BitVec.eq_of_toNat_eq (toLeBytes_injective a.isLt b.isLt hbytes)

theorem ObjectType.asStr_injective : Function.Injective asStr := by
  intro a b h
  cases a <;> cases b <;> first | rfl | simp [asStr] at h

open ObjectType

theorem Relation.asStr_injective : Function.Injective asStr := by
  intro a b h
  cases a <;> cases b <;> first | rfl | simp [asStr] at h

def Fits (field : Bytes) : Prop := field.length < 256^4

theorem ObjectType.asStr_fits (t : ObjectType) : Fits (strBytes t.asStr) := by
  unfold Fits
  cases t <;> decide

theorem Relation.asStr_fits (r : Relation) : Fits (strBytes r.asStr) := by
  unfold Fits
  cases r <;> decide

theorem uuidBytes_fits (id : Uuid) : Fits (uuidBytes id) := by
  unfold Fits uuidBytes toBeBytes
  rw [List.length_reverse, length_toLeBytes]
  decide

theorem pushLenPrefixed_inj {f g x y : Bytes} (hf : Fits f) (hg : Fits g)
    (h : pushLenPrefixed [] f ++ x = pushLenPrefixed [] g ++ y) : f = g ∧ x = y := by
  simp only [pushLenPrefixed, List.nil_append, List.append_assoc] at h
  have hwidth : (toLeBytes 4 f.length).length = (toLeBytes 4 g.length).length := by
    rw [length_toLeBytes, length_toLeBytes]
  obtain ⟨hlen, hrest⟩ := List.append_inj h hwidth
  exact List.append_inj hrest (toLeBytes_injective hf hg hlen)

def relationField (relation : Option Relation) : Bytes :=
  match relation with
  | some rel => strBytes rel.asStr
  | none => []

theorem relationField_fits (relation : Option Relation) : Fits (relationField relation) := by
  cases relation with
  | none => simp [Fits, relationField]
  | some rel => exact rel.asStr_fits

theorem relationField_injective : Function.Injective relationField := by
  have hempty : ∀ rel : Relation, strBytes rel.asStr ≠ [] := by
    intro rel
    cases rel <;> decide
  intro a b h
  cases a with
  | none =>
    cases b with
    | none => rfl
    | some rel => exact absurd h.symm (hempty rel)
  | some rel =>
    cases b with
    | none => exact absurd h (hempty rel)
    | some rel' => rw [Relation.asStr_injective (strBytes_injective h)]

theorem rowName_eq (tuple : RelationTuple) :
    rowName tuple =
      pushLenPrefixed [] (strBytes tuple.object.objectType.asStr) ++
      (pushLenPrefixed [] (uuidBytes tuple.object.objectId) ++
      (pushLenPrefixed [] (strBytes tuple.relation.asStr) ++
      (pushLenPrefixed [] (strBytes tuple.subject.subjectType.asStr) ++
      (pushLenPrefixed [] (uuidBytes tuple.subject.subjectId) ++
      (pushLenPrefixed [] (relationField tuple.subject.subjectRelation) ++ []))))) := by
  have hlast : rowName tuple = pushLenPrefixed (pushLenPrefixed (pushLenPrefixed
      (pushLenPrefixed (pushLenPrefixed (pushLenPrefixed []
        (strBytes tuple.object.objectType.asStr)) (uuidBytes tuple.object.objectId))
        (strBytes tuple.relation.asStr)) (strBytes tuple.subject.subjectType.asStr))
        (uuidBytes tuple.subject.subjectId)) (relationField tuple.subject.subjectRelation) := by
    unfold rowName relationField
    cases tuple.subject.subjectRelation <;> rfl
  rw [hlast]
  simp only [pushLenPrefixed, List.nil_append, List.append_assoc, List.append_nil]

theorem rowName_injective : Function.Injective rowName := by
  intro a b h
  rw [rowName_eq, rowName_eq] at h
  obtain ⟨htype, h⟩ := pushLenPrefixed_inj (asStr_fits _) (asStr_fits _) h
  obtain ⟨hid, h⟩ := pushLenPrefixed_inj (uuidBytes_fits _) (uuidBytes_fits _) h
  obtain ⟨hrel, h⟩ := pushLenPrefixed_inj (Relation.asStr_fits _) (Relation.asStr_fits _) h
  obtain ⟨hstype, h⟩ := pushLenPrefixed_inj (asStr_fits _) (asStr_fits _) h
  obtain ⟨hsid, h⟩ := pushLenPrefixed_inj (uuidBytes_fits _) (uuidBytes_fits _) h
  obtain ⟨hsrel, -⟩ := pushLenPrefixed_inj (relationField_fits _) (relationField_fits _) h
  obtain ⟨⟨otype, oid⟩, rel, ⟨stype, sid, srel⟩⟩ := a
  obtain ⟨⟨otype', oid'⟩, rel', ⟨stype', sid', srel'⟩⟩ := b
  obtain rfl : otype = otype' := asStr_injective (strBytes_injective htype)
  obtain rfl : oid = oid' := uuidBytes_injective hid
  obtain rfl : rel = rel' := Relation.asStr_injective (strBytes_injective hrel)
  obtain rfl : stype = stype' := asStr_injective (strBytes_injective hstype)
  obtain rfl : sid = sid' := uuidBytes_injective hsid
  obtain rfl : srel = srel' := relationField_injective hsrel
  rfl

def nsPermissionTuple : Uuid := 0x6c1a9d377eea4f18a421904673e52182

def tupleRowId (newV5 : Uuid → Bytes → Uuid) (tuple : RelationTuple) : Uuid :=
  newV5 nsPermissionTuple (rowName tuple)

def tupleAad (id : Uuid) : Bytes := strBytes "permission_tuple:v1:" ++ uuidBytes id

def pageContext : String := "sqlcipher:permissions:v1"

def payloadContext : String := "permission_tuple:v1"

structure Row where
  objectType : String
  objectId : Uuid
  relation : String
  subjectType : String
  subjectId : Uuid
  subjectRelation : Option String
  createdAt : Int
  payload : Sealed DerivedKey Nat Bytes RelationTuple

abbrev Rows := Table Uuid Row

/-- What a write of a tuple draws, reads off the clock, and fails in. -/
structure WriteEnv where
  nonce : Nat
  now : Int
  fault : Option WriteFault

def tupleRow (key : DerivedKey) (id : Uuid) (tuple : RelationTuple) (env : WriteEnv) : Row where
  objectType := tuple.object.objectType.asStr
  objectId := tuple.object.objectId
  relation := tuple.relation.asStr
  subjectType := tuple.subject.subjectType.asStr
  subjectId := tuple.subject.subjectId
  subjectRelation := subjectRelationTag tuple.subject
  createdAt := env.now
  payload := ⟨key, env.nonce, tupleAad id, tuple⟩

inductive PersistError where
  | permission (err : PermissionError)
  | vault (err : VaultError)

structure PersistentTupleStore where
  store : TupleStore
  conn : DbFile Rows
  payloadKey : DerivedKey
  masterKey : MasterKey

namespace PersistentTupleStore

section Calls

variable (newV5 : Uuid → Bytes → Uuid)

def persist (self : PersistentTupleStore) (tuple : RelationTuple) (env : WriteEnv) :
    Except VaultError (DbFile Rows) :=
  match env.fault with
  | some fault => .error (fault.error "tuple payload could not be serialised")
  | none =>
    let id := tupleRowId newV5 tuple
    .ok { self.conn with
      rows := self.conn.rows.insert id (tupleRow self.payloadKey id tuple env) }

def delete (self : PersistentTupleStore) (tuple : RelationTuple) (fails : Bool) :
    Except VaultError (DbFile Rows) :=
  if fails then .error .sqlite
  else
    let id := tupleRowId newV5 tuple
    match self.conn.rows.lookup id with
    | none => .error (.persistence "in-memory tuple had no matching on-disk row")
    | some _ => .ok { self.conn with rows := self.conn.rows.erase id }

def insert (self : PersistentTupleStore) (tuple : RelationTuple) (env : WriteEnv) :
    PersistentTupleStore × Except PersistError Unit :=
  match self.store.insert tuple with
  | (.error err, store) => ({ self with store }, .error (.permission err))
  | (.ok (), store) =>
    match self.persist newV5 tuple env with
    | .error err => ({ self with store := (store.remove tuple).2 }, .error (.vault err))
    | .ok conn => ({ self with store, conn }, .ok ())

def upsert (self : PersistentTupleStore) (tuple : RelationTuple) (env : WriteEnv) :
    PersistentTupleStore × Except PersistError Bool :=
  match self.store.upsert tuple with
  | (false, store) => ({ self with store }, .ok false)
  | (true, store) =>
    match self.persist newV5 tuple env with
    | .error err => ({ self with store := (store.remove tuple).2 }, .error (.vault err))
    | .ok conn => ({ self with store, conn }, .ok true)

def remove (self : PersistentTupleStore) (tuple : RelationTuple) (fails : Bool) :
    PersistentTupleStore × Except PersistError Unit :=
  match self.store.remove tuple with
  | (.error err, store) => ({ self with store }, .error (.permission err))
  | (.ok (), store) =>
    match self.delete newV5 tuple fails with
    | .error err => ({ self with store := (store.upsert tuple).2 }, .error (.vault err))
    | .ok conn => ({ self with store, conn }, .ok ())

end Calls

/-- `SELECT id, nonce, payload FROM relation_tuples ORDER BY created_at ASC, id ASC`. -/
def orderedRows (rows : Rows) : List (Uuid × Row) :=
  rows.rows.insertionSort fun a b =>
    a.2.createdAt < b.2.createdAt ∨ a.2.createdAt = b.2.createdAt ∧ a.1.toNat ≤ b.1.toNat

def loadRows (key : DerivedKey) : TupleStore → List (Uuid × Row) →
    TupleStore × Except VaultError Unit
  | store, [] => (store, .ok ())
  | store, (id, row) :: rest =>
    match row.payload.openWith key (tupleAad id) with
    | none => (store, .error .crypto)
    | some tuple => loadRows key (store.upsert tuple).2 rest

def loadAll (self : PersistentTupleStore) (queryFails : Bool) :
    PersistentTupleStore × Except VaultError Unit :=
  if queryFails then (self, .error .sqlite)
  else
    let (store, reply) := loadRows self.payloadKey .new (orderedRows self.conn.rows)
    ({ self with store }, reply)

def emptyFile : DbFile Rows := ⟨none, 0, ∅⟩

/-- The file it leaves, and the store that holds it when it opened. -/
def «open» (file : Option (DbFile Rows)) (masterKey : MasterKey) (fault : OpenFault)
    (queryFails : Bool) : DbFile Rows × Except VaultError PersistentTupleStore :=
  match (file.getD emptyFile).unlock (deriveKey masterKey pageContext) fault with
  | (file, .error err) => (file, .error err)
  | (file, .ok ()) =>
    let this : PersistentTupleStore :=
      ⟨.new, file, deriveKey masterKey payloadContext, masterKey⟩
    match this.loadAll queryFails with
    | (_, .error err) => (file, .error err)
    | (this, .ok ()) => (file, .ok this)

def persistedCount (self : PersistentTupleStore) (fails : Bool) : Except VaultError Nat :=
  if fails then .error .sqlite else .ok self.conn.rows.rows.length

/-- What a rotation meets on its way, tuple by tuple. -/
structure RotateEnv where
  openFault : OpenFault
  queryFails : Bool
  write : Nat → WriteEnv
  destCountFails : Bool
  sourceCountFails : Bool

def copyTuples (newV5 : Uuid → Bytes → Uuid) (write : Nat → WriteEnv) :
    PersistentTupleStore → Nat → List RelationTuple →
      PersistentTupleStore × Except PersistError Nat
  | dest, written, [] => (dest, .ok written)
  | dest, written, tuple :: rest =>
    match dest.upsert newV5 tuple (write written) with
    | (dest, .error err) => (dest, .error err)
    | (dest, .ok false) =>
      (dest, .error (.vault (.persistence "rotation hit an unexpected duplicate tuple")))
    | (dest, .ok true) => copyTuples newV5 write dest (written+1) rest

def rotateMasterKey (newV5 : Uuid → Bytes → Uuid) (self : PersistentTupleStore)
    (newMasterKey : MasterKey) (destPath : Option (DbFile Rows)) (order : List RelationTuple)
    (env : RotateEnv) : Option (DbFile Rows) × Except PersistError Nat :=
  if destPath.isSome then
    (destPath, .error (.vault (.persistence "rotation destination path already exists")))
  else
    match «open» destPath newMasterKey env.openFault env.queryFails with
    | (file, .error err) => (some file, .error (.vault err))
    | (_, .ok dest) =>
      match copyTuples newV5 env.write dest 0 order with
      | (dest, .error err) => (some dest.conn, .error err)
      | (dest, .ok written) =>
        match dest.persistedCount env.destCountFails, self.persistedCount env.sourceCountFails with
        | .error err, _ | _, .error err => (some dest.conn, .error (.vault err))
        | .ok count, .ok source =>
          if count ≠ source then
            (some dest.conn,
              .error (.vault (.persistence "rotated permission store tuple count mismatch")))
          else (some dest.conn, .ok written)

/-- The rows are those of the tuples, each under its id and sealed for it. -/
structure Holds (newV5 : Uuid → Bytes → Uuid) (key : DerivedKey) (rows : Rows)
    (tuples : Finset RelationTuple) : Prop where
  tuple_of_row : ∀ id row, rows.lookup id = some row →
    ∃ tuple ∈ tuples, ∃ env, id = tupleRowId newV5 tuple ∧ row = tupleRow key id tuple env
  row_of_tuple : ∀ tuple ∈ tuples, ∃ env, rows.lookup (tupleRowId newV5 tuple) =
    some (tupleRow key (tupleRowId newV5 tuple) tuple env)

namespace Holds

variable {newV5 : Uuid → Bytes → Uuid} {key : DerivedKey} {rows : Rows}
  {tuples : Finset RelationTuple} {S : Set RelationTuple}

theorem empty (newV5 : Uuid → Bytes → Uuid) (key : DerivedKey) : Holds newV5 key ∅ ∅ :=
  ⟨by simp, by simp⟩

theorem insert (h : Holds newV5 key rows tuples) (hids : Set.InjOn (tupleRowId newV5) S)
    (hin : ∀ t ∈ tuples, t ∈ S) {tuple : RelationTuple} (hS : tuple ∈ S) (env : WriteEnv) :
    Holds newV5 key
      (rows.insert (tupleRowId newV5 tuple) (tupleRow key (tupleRowId newV5 tuple) tuple env))
      (Insert.insert tuple tuples) := by
  constructor
  · intro id row hl
    rw [Table.lookup_insert_ite] at hl
    split at hl
    · rename_i hid
      subst hid
      exact ⟨tuple, Finset.mem_insert_self _ _, env, rfl, (Option.some.inj hl).symm⟩
    · obtain ⟨old, hold, hrow⟩ := h.tuple_of_row id row hl
      exact ⟨old, Finset.mem_insert_of_mem hold, hrow⟩
  · intro other hother
    by_cases hid : tupleRowId newV5 other = tupleRowId newV5 tuple
    · have hotherS : other ∈ S := by
        obtain rfl | hold := Finset.mem_insert.mp hother
        · exact hS
        · exact hin other hold
      obtain rfl := hids hotherS hS hid
      exact ⟨env, AList.lookup_insert _⟩
    · obtain rfl | hold := Finset.mem_insert.mp hother
      · exact absurd rfl hid
      · obtain ⟨env', hl⟩ := h.row_of_tuple other hold
        exact ⟨env', (AList.lookup_insert_ne hid).trans hl⟩

theorem erase (h : Holds newV5 key rows tuples) (hids : Set.InjOn (tupleRowId newV5) S)
    (hin : ∀ t ∈ tuples, t ∈ S) {tuple : RelationTuple} (hS : tuple ∈ S) :
    Holds newV5 key (rows.erase (tupleRowId newV5 tuple)) (tuples.erase tuple) := by
  constructor
  · intro id row hl
    rw [Table.lookup_erase_ite] at hl
    split at hl
    · cases hl
    · rename_i hid
      obtain ⟨old, hold, env, rfl, hrow⟩ := h.tuple_of_row id row hl
      have hne : old ≠ tuple := fun heq => hid (by rw [heq])
      exact ⟨old, Finset.mem_erase.mpr ⟨hne, hold⟩, env, rfl, hrow⟩
  · intro other hother
    obtain ⟨hne, hold⟩ := Finset.mem_erase.mp hother
    have hid : tupleRowId newV5 other ≠ tupleRowId newV5 tuple :=
      fun heq => hne (hids (hin _ hold) hS heq)
    obtain ⟨env, hl⟩ := h.row_of_tuple other hold
    exact ⟨env, (AList.lookup_erase_ne hid).trans hl⟩

theorem decodes (h : Holds newV5 key rows tuples) (tuple : RelationTuple) :
    tuple ∈ tuples ↔
      ∃ id row, rows.lookup id = some row ∧ row.payload.openWith key (tupleAad id) = some tuple := by
  constructor
  · intro ht
    obtain ⟨env, hl⟩ := h.row_of_tuple tuple ht
    exact ⟨_, _, hl, Sealed.openWith_mk ..⟩
  · rintro ⟨id, row, hl, hopen⟩
    obtain ⟨old, hold, env, rfl, rfl⟩ := h.tuple_of_row id row hl
    rw [tupleRow, Sealed.openWith_mk] at hopen
    obtain rfl := Option.some.inj hopen
    exact hold

theorem count (h : Holds newV5 key rows tuples) (hids : Set.InjOn (tupleRowId newV5) S)
    (hin : ∀ t ∈ tuples, t ∈ S) : rows.rows.length = tuples.card := by
  have hkeys : (rows.rows.map Prod.fst).toFinset = tuples.image (tupleRowId newV5) := by
    ext id
    simp only [List.mem_toFinset, List.mem_map, Prod.exists, Table.mem_rows_iff,
      Finset.mem_image, exists_and_right, exists_eq_right]
    constructor
    · rintro ⟨row, hl⟩
      obtain ⟨tuple, ht, env, hid, -⟩ := h.tuple_of_row id row hl
      exact ⟨tuple, ht, hid.symm⟩
    · rintro ⟨tuple, ht, rfl⟩
      obtain ⟨env, hl⟩ := h.row_of_tuple tuple ht
      exact ⟨_, hl⟩
  have hinj : Set.InjOn (tupleRowId newV5) tuples := fun a ha b hb => hids (hin a ha) (hin b hb)
  calc rows.rows.length
    _ = (rows.rows.map Prod.fst).length := by simp
    _ = (rows.rows.map Prod.fst).toFinset.card :=
      (List.toFinset_card_of_nodup (Table.keys_nodup_rows rows)).symm
    _ = tuples.card := by rw [hkeys, Finset.card_image_of_injOn hinj]

end Holds

theorem loadRows_ok {key : DerivedKey} {l : List (Uuid × Row)}
    (h : ∀ e ∈ l, ∃ tuple env, e.2 = tupleRow key e.1 tuple env) {store : TupleStore}
    (hindexed : store.Indexed) :
    ∃ loaded, loadRows key store l = (loaded, .ok ()) ∧ loaded.Indexed ∧
      ∀ tuple, tuple ∈ loaded.tuples ↔
        tuple ∈ store.tuples ∨ ∃ e ∈ l, e.2.payload.plain = tuple := by
  induction l generalizing store with
  | nil => exact ⟨store, rfl, hindexed, by simp⟩
  | cons e l ih =>
    obtain ⟨id, row⟩ := e
    obtain ⟨tuple, env, hrow⟩ := h (id, row) List.mem_cons_self
    obtain ⟨loaded, hload, hloaded, hmem⟩ :=
      ih (fun e he => h e (List.mem_cons_of_mem _ he)) (hindexed.upsert tuple)
    refine ⟨loaded, ?_, hloaded, fun other => ?_⟩
    · dsimp only at hrow
      rw [loadRows, hrow, tupleRow, Sealed.openWith_mk]
      exact hload
    · dsimp only at hrow
      rw [hmem, upsert_tuples, Finset.mem_insert, hrow]
      simp only [List.mem_cons, exists_eq_or_imp, tupleRow, eq_comm]
      tauto

theorem new_indexed : new.Indexed :=
  indexed_of_reachable (.init rfl)

theorem Holds.load {newV5 : Uuid → Bytes → Uuid} {key : DerivedKey} {rows : Rows}
    {tuples : Finset RelationTuple} (h : Holds newV5 key rows tuples) :
    ∃ loaded, loadRows key .new (orderedRows rows) = (loaded, .ok ()) ∧ loaded.Indexed ∧
      loaded.tuples = tuples := by
  have hmem : ∀ e, e ∈ orderedRows rows ↔ rows.lookup e.1 = some e.2 := by
    intro e
    rw [orderedRows, (List.perm_insertionSort _ _).mem_iff, Table.mem_rows_iff]
  have hsealed : ∀ e ∈ orderedRows rows, ∃ tuple env, e.2 = tupleRow key e.1 tuple env := by
    intro e he
    obtain ⟨tuple, -, env, -, hrow⟩ := h.tuple_of_row e.1 e.2 ((hmem e).mp he)
    exact ⟨tuple, env, hrow⟩
  obtain ⟨loaded, hload, hindexed, htuples⟩ := loadRows_ok hsealed new_indexed
  refine ⟨loaded, hload, hindexed, ?_⟩
  ext tuple
  rw [htuples]
  constructor
  · rintro (hnew | ⟨e, he, rfl⟩)
    · simp [new] at hnew
    · obtain ⟨old, hold, env, -, hrow⟩ := h.tuple_of_row e.1 e.2 ((hmem e).mp he)
      rwa [hrow]
  · intro ht
    obtain ⟨env, hl⟩ := h.row_of_tuple tuple ht
    exact .inr ⟨(_, _), (hmem _).mpr hl, rfl⟩

section Calls

variable {newV5 : Uuid → Bytes → Uuid} {S : Set RelationTuple} {p : PersistentTupleStore}

/-- The database under the keys of the store mirrors its memory. -/
structure Mirrored (newV5 : Uuid → Bytes → Uuid) (S : Set RelationTuple)
    (p : PersistentTupleStore) : Prop where
  own : p.conn.Own (deriveKey p.masterKey pageContext)
  key : p.payloadKey = deriveKey p.masterKey payloadContext
  rows : Holds newV5 p.payloadKey p.conn.rows p.store.tuples
  indexed : p.store.Indexed
  within : ∀ tuple ∈ p.store.tuples, tuple ∈ S

structure Undone (p q : PersistentTupleStore) : Prop where
  conn : q.conn = p.conn
  payloadKey : q.payloadKey = p.payloadKey
  masterKey : q.masterKey = p.masterKey
  tuples : q.store.tuples = p.store.tuples
  indexed : q.store.Indexed

theorem Mirrored.undone (h : Mirrored newV5 S p) {q : PersistentTupleStore} (hq : Undone p q) :
    Mirrored newV5 S q where
  own := by
    rw [hq.conn, hq.masterKey]
    exact h.own
  key := by
    rw [hq.payloadKey, hq.masterKey]
    exact h.key
  rows := by
    rw [hq.conn, hq.payloadKey, hq.tuples]
    exact h.rows
  indexed := hq.indexed
  within := by
    rw [hq.tuples]
    exact h.within

structure Written (newV5 : Uuid → Bytes → Uuid) (S : Set RelationTuple)
    (tuples : Finset RelationTuple) (p q : PersistentTupleStore) : Prop where
  mirrored : Mirrored newV5 S q
  masterKey : q.masterKey = p.masterKey
  tuples : q.store.tuples = tuples

theorem Mirrored.added (h : Mirrored newV5 S p) (hids : Set.InjOn (tupleRowId newV5) S)
    {tuple : RelationTuple} (hS : tuple ∈ S) {store : TupleStore}
    (hstore : store.tuples = Insert.insert tuple p.store.tuples) (hindexed : store.Indexed)
    {env : WriteEnv} {conn : DbFile Rows} (hpersist : p.persist newV5 tuple env = .ok conn) :
    Written newV5 S (Insert.insert tuple p.store.tuples) p { p with store, conn } := by
  unfold persist at hpersist
  cases hf : env.fault with
  | some fault => simp [hf] at hpersist
  | none =>
    simp only [hf] at hpersist
    obtain rfl := Except.ok.inj hpersist
    refine ⟨⟨h.own, h.key, ?_, hindexed, ?_⟩, rfl, hstore⟩
    · dsimp only
      rw [hstore]
      exact h.rows.insert hids h.within hS env
    · dsimp only
      rw [hstore]
      intro other hother
      obtain rfl | hold := Finset.mem_insert.mp hother
      · exact hS
      · exact h.within other hold

theorem undone_of_added {tuple : RelationTuple} (hnew : tuple ∉ p.store.tuples) {store : TupleStore}
    (hstore : store.tuples = Insert.insert tuple p.store.tuples) (hindexed : store.Indexed) :
    Undone p { p with store := (store.remove tuple).2 } := by
  refine ⟨rfl, rfl, rfl, ?_, hindexed.removed tuple⟩
  have hmem : tuple ∈ store.tuples := hstore ▸ Finset.mem_insert_self _ _
  have hremove : store.remove tuple = (.ok (), (store.remove tuple).2) := by
    rw [TupleStore.remove, if_pos hmem]
  dsimp only
  rw [remove_tuples hremove, hstore, Finset.erase_insert hnew]

theorem insert_spec (h : Mirrored newV5 S p) (hids : Set.InjOn (tupleRowId newV5) S)
    {tuple : RelationTuple} (hS : tuple ∈ S) (env : WriteEnv) :
    (∃ q err, p.insert newV5 tuple env = (q, .error err) ∧ Undone p q) ∨
      ∃ q, p.insert newV5 tuple env = (q, .ok ()) ∧
        Written newV5 S (Insert.insert tuple p.store.tuples) p q := by
  unfold insert
  by_cases hmem : tuple ∈ p.store.tuples
  · left
    rw [TupleStore.insert, if_pos hmem]
    exact ⟨_, _, rfl, rfl, rfl, rfl, rfl, h.indexed⟩
  · have hindexed := h.indexed.push hmem
    rw [TupleStore.insert, if_neg hmem]
    cases hpersist : p.persist newV5 tuple env with
    | error err => exact .inl ⟨_, _, rfl, undone_of_added hmem rfl hindexed⟩
    | ok conn => exact .inr ⟨_, rfl, h.added hids hS rfl hindexed hpersist⟩

theorem upsert_spec (h : Mirrored newV5 S p) (hids : Set.InjOn (tupleRowId newV5) S)
    {tuple : RelationTuple} (hS : tuple ∈ S) (env : WriteEnv) :
    (∃ q err, p.upsert newV5 tuple env = (q, .error err) ∧ Undone p q) ∨
      (tuple ∈ p.store.tuples ∧ p.upsert newV5 tuple env = (p, .ok false)) ∨
      ∃ q, tuple ∉ p.store.tuples ∧ p.upsert newV5 tuple env = (q, .ok true) ∧
        Written newV5 S (Insert.insert tuple p.store.tuples) p q := by
  unfold upsert
  by_cases hmem : tuple ∈ p.store.tuples
  · right
    left
    rw [TupleStore.upsert, if_pos hmem]
    exact ⟨hmem, rfl⟩
  · have hindexed := h.indexed.push hmem
    rw [TupleStore.upsert, if_neg hmem]
    cases hpersist : p.persist newV5 tuple env with
    | error err => exact .inl ⟨_, _, rfl, undone_of_added hmem rfl hindexed⟩
    | ok conn => exact .inr (.inr ⟨_, hmem, rfl, h.added hids hS rfl hindexed hpersist⟩)

theorem remove_spec (h : Mirrored newV5 S p) (hids : Set.InjOn (tupleRowId newV5) S)
    {tuple : RelationTuple} (hS : tuple ∈ S) (fails : Bool) :
    (∃ q err, p.remove newV5 tuple fails = (q, .error err) ∧ Undone p q) ∨
      ∃ q, p.remove newV5 tuple fails = (q, .ok ()) ∧
        Written newV5 S (p.store.tuples.erase tuple) p q := by
  unfold remove
  by_cases hmem : tuple ∈ p.store.tuples
  · have hremove : p.store.remove tuple = (.ok (), (p.store.remove tuple).2) := by
      rw [TupleStore.remove, if_pos hmem]
    have htuples := TupleStore.remove_tuples hremove
    have hindexed := h.indexed.removed tuple
    rw [hremove]
    dsimp only
    cases hdelete : p.delete newV5 tuple fails with
    | error err =>
      refine .inl ⟨_, _, rfl, rfl, rfl, rfl, ?_, hindexed.upsert tuple⟩
      dsimp only
      rw [upsert_tuples, htuples, Finset.insert_erase hmem]
    | ok conn =>
      refine .inr ⟨_, rfl, ?_, rfl, htuples⟩
      have hconn : conn = { p.conn with rows := p.conn.rows.erase (tupleRowId newV5 tuple) } := by
        unfold delete at hdelete
        split at hdelete
        · cases hdelete
        · dsimp only at hdelete
          split at hdelete
          · cases hdelete
          · exact (Except.ok.inj hdelete).symm
      subst hconn
      refine ⟨h.own, h.key, ?_, hindexed, ?_⟩
      · dsimp only
        rw [htuples]
        exact h.rows.erase hids h.within hS
      · dsimp only
        rw [htuples]
        exact fun other hother => h.within other (Finset.mem_of_mem_erase hother)
  · left
    rw [TupleStore.remove, if_neg hmem]
    exact ⟨_, _, rfl, rfl, rfl, rfl, rfl, h.indexed⟩

theorem open_spec {master : MasterKey} (file : Option (DbFile Rows)) {tuples : Finset RelationTuple}
    (hown : (file.getD emptyFile).Own (deriveKey master pageContext))
    (hrows : Holds newV5 (deriveKey master payloadContext) (file.getD emptyFile).rows tuples)
    (hin : ∀ tuple ∈ tuples, tuple ∈ S) (fault : OpenFault) (queryFails : Bool) :
    (∃ left err, «open» file master fault queryFails = (left, .error err) ∧
        left.Own (deriveKey master pageContext) ∧ left.rows = (file.getD emptyFile).rows) ∨
      ∃ left q, «open» file master fault queryFails = (left, .ok q) ∧ q.conn = left ∧
        left.rows = (file.getD emptyFile).rows ∧ q.masterKey = master ∧
        q.store.tuples = tuples ∧ Mirrored newV5 S q := by
  have hleft := hown.unlock fault
  have hsame := (file.getD emptyFile).unlock_rows (deriveKey master pageContext) fault
  unfold «open»
  generalize hu : (file.getD emptyFile).unlock (deriveKey master pageContext) fault = u at *
  obtain ⟨left, reply⟩ := u
  dsimp only at hleft hsame
  cases reply with
  | error err => exact .inl ⟨left, err, rfl, hleft, hsame⟩
  | ok _ =>
    obtain ⟨loaded, hload, hindexed, htuples⟩ := hrows.load
    rw [← hsame] at hload hrows
    dsimp only
    cases queryFails with
    | true => exact .inl ⟨left, .sqlite, rfl, hleft, hsame⟩
    | false =>
      simp only [loadAll, hload, Bool.false_eq_true, if_false]
      refine .inr ⟨left, _, rfl, rfl, hsame, rfl, htuples, hleft, rfl, ?_, hindexed, ?_⟩
      · rwa [htuples]
      · rwa [htuples]

theorem open_ok {master : MasterKey} (file : Option (DbFile Rows)) {tuples : Finset RelationTuple}
    (hown : (file.getD emptyFile).Own (deriveKey master pageContext))
    (hrows : Holds newV5 (deriveKey master payloadContext) (file.getD emptyFile).rows tuples)
    (hin : ∀ tuple ∈ tuples, tuple ∈ S) :
    ∃ left q, «open» file master .none false = (left, .ok q) ∧ q.store.tuples = tuples ∧
      Mirrored newV5 S q := by
  obtain ⟨left, err, hopen, -⟩ | ⟨left, q, hopen, -, -, -, htuples, hq⟩ :=
    open_spec file hown hrows hin .none false
  · obtain ⟨loaded, hload, -⟩ := hrows.load
    simp [«open», hown.unlock_ok, loadAll, hload] at hopen
  · exact ⟨left, q, hopen, htuples, hq⟩

theorem copyTuples_spec (hids : Set.InjOn (tupleRowId newV5) S) (write : Nat → WriteEnv)
    {order : List RelationTuple} (hnodup : order.Nodup) (hS : ∀ tuple ∈ order, tuple ∈ S)
    {dest : PersistentTupleStore} (h : Mirrored newV5 S dest)
    (hnew : ∀ tuple ∈ order, tuple ∉ dest.store.tuples) (written : Nat) :
    (∃ q err, copyTuples newV5 write dest written order = (q, .error err) ∧
        ∃ n, (write n).fault ≠ none) ∨
      ∃ q, copyTuples newV5 write dest written order = (q, .ok (written+order.length)) ∧
        Written newV5 S (dest.store.tuples ∪ order.toFinset) dest q := by
  induction order generalizing dest written with
  | nil => exact .inr ⟨dest, rfl, h, rfl, by simp⟩
  | cons tuple order ih =>
    rw [List.nodup_cons] at hnodup
    have hfresh := hnew tuple List.mem_cons_self
    obtain ⟨q, err, hup, -⟩ | ⟨hmem, -⟩ | ⟨q, -, hup, hq⟩ :=
      upsert_spec h hids (hS tuple List.mem_cons_self) (write written)
    · refine .inl ⟨q, err, by simp only [copyTuples, hup], written, fun hfault => ?_⟩
      simp [upsert, TupleStore.upsert, hfresh, persist, hfault] at hup
    · exact absurd hmem hfresh
    · have hleft : ∀ other ∈ order, other ∉ q.store.tuples := by
        intro other hother hin
        rw [hq.tuples, Finset.mem_insert] at hin
        obtain rfl | hin := hin
        · exact hnodup.1 hother
        · exact hnew other (List.mem_cons_of_mem _ hother) hin
      obtain ⟨d, err, hcopy, hfault⟩ | ⟨d, hcopy, hd⟩ :=
        ih hnodup.2 (fun t ht => hS t (List.mem_cons_of_mem _ ht)) hq.mirrored hleft (written+1)
      · exact .inl ⟨d, err, by simp only [copyTuples, hup, hcopy], hfault⟩
      · refine .inr ⟨d, ?_, hd.mirrored, hd.masterKey.trans hq.masterKey, ?_⟩
        · simp only [copyTuples, hup, hcopy, List.length_cons]
          congr 2
          omega
        · rw [hd.tuples, hq.tuples]
          ext other
          simp only [Finset.mem_union, Finset.mem_insert, List.mem_toFinset, List.mem_cons]
          tauto

structure RotateEnv.Clean (env : RotateEnv) : Prop where
  openFault : env.openFault = .none
  queryFails : env.queryFails = false
  write : ∀ n, (env.write n).fault = none
  destCountFails : env.destCountFails = false
  sourceCountFails : env.sourceCountFails = false

theorem emptyFile_own (key : DerivedKey) : emptyFile.Own key := ⟨.inl rfl, .inl rfl⟩

/-- A rotation fails over something it met, or leaves a file that mirrors the same tuples under
the new key. -/
theorem rotateMasterKey_spec (h : Mirrored newV5 S p) (hids : Set.InjOn (tupleRowId newV5) S)
    (newMaster : MasterKey) {order : List RelationTuple}
    (horder : TupleStore.Enumerates order p.store.tuples) (env : RotateEnv) :
    (∃ file err, p.rotateMasterKey newV5 newMaster none order env = (file, .error err) ∧
        ¬env.Clean) ∨
      ∃ q, p.rotateMasterKey newV5 newMaster none order env =
          (some q.conn, .ok p.store.tuples.card) ∧ q.masterKey = newMaster ∧
        q.store.tuples = p.store.tuples ∧ Mirrored newV5 S q := by
  have hlength : order.length = p.store.tuples.card := by
    rw [← horder.2, List.toFinset_card_of_nodup horder.1]
  have hS : ∀ tuple ∈ order, tuple ∈ S := by
    intro tuple ht
    refine h.within tuple ?_
    rwa [← horder.2, List.mem_toFinset]
  have hempty : Holds newV5 (deriveKey newMaster payloadContext) emptyFile.rows ∅ :=
    .empty newV5 _
  simp only [rotateMasterKey, Option.isSome_none, Bool.false_eq_true, if_false]
  obtain ⟨left, err, hopen, -⟩ | ⟨left, dest, hopen, -, -, hmaster, htuples, hdest⟩ :=
    open_spec (S := S) none (emptyFile_own _) hempty (by simp) env.openFault env.queryFails
  · refine .inl ⟨some left, .vault err, by rw [hopen], fun hclean => ?_⟩
    obtain ⟨left', q, hok, -⟩ :=
      open_ok (S := S) none (emptyFile_own _) hempty (by simp)
    rw [hclean.openFault, hclean.queryFails, hok] at hopen
    cases (Prod.mk.inj hopen).2
  · rw [hopen]
    dsimp only
    obtain ⟨q, err, hcopy, n, hfault⟩ | ⟨q, hcopy, hq⟩ :=
      copyTuples_spec hids env.write horder.1 hS hdest (by simp [htuples]) 0
    · rw [hcopy]
      exact .inl ⟨_, err, rfl, fun hclean => hfault (hclean.write n)⟩
    · have hsame : q.store.tuples = p.store.tuples := by
        rw [hq.tuples, htuples, horder.2, Finset.empty_union]
      have hcount : q.conn.rows.rows.length = p.conn.rows.rows.length := by
        rw [hq.mirrored.rows.count hids hq.mirrored.within, h.rows.count hids h.within, hsame]
      rw [hcopy]
      dsimp only [persistedCount]
      cases hd : env.destCountFails with
      | true => exact .inl ⟨_, _, rfl, fun hclean => by simp [hclean.destCountFails] at hd⟩
      | false =>
        cases hs : env.sourceCountFails with
        | true => exact .inl ⟨_, _, rfl, fun hclean => by simp [hclean.sourceCountFails] at hs⟩
        | false =>
          refine .inr ⟨q, ?_, hq.masterKey.trans hmaster, hsame, hq.mirrored⟩
          simp [hcount, hlength]

end Calls

end PersistentTupleStore

inductive TupleFile where
  | closed (file : Option (DbFile Rows))
  | opened (store : PersistentTupleStore)

inductive Event where
  | insert (tuple : RelationTuple) (env : WriteEnv)
  | upsert (tuple : RelationTuple) (env : WriteEnv)
  | remove (tuple : RelationTuple) (fails : Bool)
  | close
  | «open» (fault : OpenFault) (queryFails : Bool)

namespace TupleFile

def file : TupleFile → Option (DbFile Rows)
  | closed file => file
  | opened store => some store.conn

def store : TupleFile → Option PersistentTupleStore
  | closed _ => none
  | opened store => some store

end TupleFile

section Run

variable (newV5 : Uuid → Bytes → Uuid) (masterKey : MasterKey)

def perform : TupleFile → Event → TupleFile × Except PersistError Unit
  | .opened p, .insert tuple env => (p.insert newV5 tuple env).map .opened id
  | .opened p, .upsert tuple env => (p.upsert newV5 tuple env).map .opened fun r => r.map fun _ => ()
  | .opened p, .remove tuple fails => (p.remove newV5 tuple fails).map .opened id
  | .opened p, .close => (.closed (some p.conn), .ok ())
  | .closed file, .open fault queryFails =>
    match PersistentTupleStore.open file masterKey fault queryFails with
    | (file, .error err) => (.closed (some file), .error (.vault err))
    | (_, .ok p) => (.opened p, .ok ())
  | w, _ => (w, .ok ())

def Within (S : Set RelationTuple) : Event → Prop
  | .insert tuple _ | .upsert tuple _ | .remove tuple _ => tuple ∈ S
  | .close | .open _ _ => True

def persistSystem (S : Set RelationTuple) : System TupleFile Event :=
  .ofNext (· = .closed none) (fun _ event => Within S event)
    fun w event => (perform newV5 masterKey w event).1

variable {newV5 masterKey} {S : Set RelationTuple}

namespace TupleFile

def rows (w : TupleFile) : Rows := (w.file.getD PersistentTupleStore.emptyFile).rows

def tuples (w : TupleFile) : Option (Finset RelationTuple) := w.store.map fun p => p.store.tuples

/-- What every state of a run is like: a closed file mirrors some tuples, an open one those of
the memory. -/
def Sound (newV5 : Uuid → Bytes → Uuid) (masterKey : MasterKey) (S : Set RelationTuple) :
    TupleFile → Prop
  | closed file =>
    (file.getD PersistentTupleStore.emptyFile).Own (deriveKey masterKey pageContext) ∧
      ∃ tuples : Finset RelationTuple, (∀ tuple ∈ tuples, tuple ∈ S) ∧
        PersistentTupleStore.Holds newV5 (deriveKey masterKey payloadContext)
          (file.getD PersistentTupleStore.emptyFile).rows tuples
  | opened p => p.masterKey = masterKey ∧ p.Mirrored newV5 S

end TupleFile

open PersistentTupleStore

theorem perform_spec {w : TupleFile} (h : w.Sound newV5 masterKey S)
    (hids : Set.InjOn (tupleRowId newV5) S) {event : Event} (hin : Within S event) :
    (perform newV5 masterKey w event).1.Sound newV5 masterKey S ∧
      ∀ err, (perform newV5 masterKey w event).2 = .error err →
        (perform newV5 masterKey w event).1.rows = w.rows ∧
          (perform newV5 masterKey w event).1.tuples = w.tuples := by
  cases w with
  | closed file =>
    cases event with
    | «open» fault queryFails =>
      obtain ⟨hown, tuples, hS, hrows⟩ := h
      obtain ⟨left, err, hopen, hleft, hsame⟩ | ⟨left, q, hopen, -, -, hmaster, -, hq⟩ :=
        open_spec file hown hrows hS fault queryFails
      · simp only [perform, hopen]
        refine ⟨⟨hleft, tuples, hS, ?_⟩, fun _ _ => ⟨hsame, rfl⟩⟩
        rw [Option.getD_some, hsame]
        exact hrows
      · simp only [perform, hopen]
        exact ⟨⟨hmaster, hq⟩, by simp⟩
    | insert _ _ | upsert _ _ | remove _ _ | close => exact ⟨h, by simp [perform]⟩
  | opened p =>
    obtain ⟨hmaster, hp⟩ := h
    have hundone : ∀ {q : PersistentTupleStore}, Undone p q →
        (TupleFile.opened q).Sound newV5 masterKey S ∧
          (TupleFile.opened q).rows = (TupleFile.opened p).rows ∧
          (TupleFile.opened q).tuples = (TupleFile.opened p).tuples := by
      intro q hq
      refine ⟨⟨hq.masterKey.trans hmaster, hp.undone hq⟩, ?_, ?_⟩
      · simp only [TupleFile.rows, TupleFile.file, hq.conn]
      · simp only [TupleFile.tuples, TupleFile.store, Option.map_some, hq.tuples]
    cases event with
    | insert tuple env =>
      obtain ⟨q, err, hcall, hq⟩ | ⟨q, hcall, hq⟩ := insert_spec hp hids hin env
      · simp only [perform, hcall, Prod.map]
        exact ⟨(hundone hq).1, fun _ _ => (hundone hq).2⟩
      · simp only [perform, hcall, Prod.map]
        exact ⟨⟨hq.masterKey.trans hmaster, hq.mirrored⟩, by simp⟩
    | upsert tuple env =>
      obtain ⟨q, err, hcall, hq⟩ | ⟨-, hcall⟩ | ⟨q, -, hcall, hq⟩ := upsert_spec hp hids hin env
      · simp only [perform, hcall, Prod.map]
        exact ⟨(hundone hq).1, fun _ _ => (hundone hq).2⟩
      · simp only [perform, hcall, Prod.map]
        exact ⟨⟨hmaster, hp⟩, by simp [Except.map]⟩
      · simp only [perform, hcall, Prod.map]
        exact ⟨⟨hq.masterKey.trans hmaster, hq.mirrored⟩, by simp [Except.map]⟩
    | remove tuple fails =>
      obtain ⟨q, err, hcall, hq⟩ | ⟨q, hcall, hq⟩ := remove_spec hp hids hin fails
      · simp only [perform, hcall, Prod.map]
        exact ⟨(hundone hq).1, fun _ _ => (hundone hq).2⟩
      · simp only [perform, hcall, Prod.map]
        exact ⟨⟨hq.masterKey.trans hmaster, hq.mirrored⟩, by simp⟩
    | close =>
      refine ⟨⟨?_, p.store.tuples, hp.within, ?_⟩, by simp [perform]⟩
      · rw [← hmaster]
        exact hp.own
      · rw [← hmaster, ← hp.key]
        exact hp.rows
    | «open» _ _ => exact ⟨⟨hmaster, hp⟩, by simp [perform]⟩

theorem sound_of_reachable (hids : Set.InjOn (tupleRowId newV5) S) {w : TupleFile}
    (h : (persistSystem newV5 masterKey S).Reachable w) : w.Sound newV5 masterKey S := by
  refine h.invariant (·.Sound newV5 masterKey S) ?_ ?_
  · rintro w rfl
    exact ⟨emptyFile_own _, ∅, by simp, .empty newV5 _⟩
  · rintro w event w' - hw ⟨hin, rfl⟩
    exact (perform_spec hw hids hin).1

/-- The tuples read back from the rows are those of the memory, and each bucket of the index has
those of its key, each once. -/
structure InStep (p : PersistentTupleStore) : Prop where
  tuples : ∀ tuple, tuple ∈ p.store.tuples ↔ ∃ id row, p.conn.rows.lookup id = some row ∧
    row.payload.openWith p.payloadKey (tupleAad id) = some tuple
  bucket : ∀ object relation tuple, tuple ∈ p.store.iterForObjectRelation object relation ↔
    tuple ∈ p.store.tuples ∧ tuple.object = object ∧ tuple.relation = relation
  nodup : ∀ object relation, (p.store.iterForObjectRelation object relation).Nodup

theorem PersistentTupleStore.Mirrored.inStep {p : PersistentTupleStore}
    (h : p.Mirrored newV5 S) : InStep p where
  tuples := h.rows.decodes
  bucket object relation tuple := by
    rw [iterForObjectRelation, h.indexed.mem, RelationTuple.key, Prod.mk.injEq]
  nodup object relation := h.indexed.nodup (object, relation)

/-- Where no two tuples of a run hash to one id, memory and database are in step after every
call, a call that fails changes neither, and a rotated file opens to the same tuples. -/
theorem permissions_mirrored (newV5 : Uuid → Bytes → Uuid) (masterKey : MasterKey)
    (S : Set RelationTuple) (hfree : Set.InjOn (newV5 nsPermissionTuple) (rowName '' S))
    {w : TupleFile} (h : (persistSystem newV5 masterKey S).Reachable w) :
    Function.Injective rowName ∧ (∀ p, w = .opened p → InStep p) ∧
      (∀ event err, Within S event → (perform newV5 masterKey w event).2 = .error err →
        (perform newV5 masterKey w event).1.rows = w.rows ∧
          (perform newV5 masterKey w event).1.tuples = w.tuples) ∧
      ∀ p newMaster order env, w = .opened p → TupleStore.Enumerates order p.store.tuples →
        (env.Clean → ∃ file written,
          p.rotateMasterKey newV5 newMaster none order env = (file, .ok written)) ∧
        ∀ file written, p.rotateMasterKey newV5 newMaster none order env = (file, .ok written) →
          ∃ left q, PersistentTupleStore.open file newMaster .none false = (left, .ok q) ∧
            InStep q ∧ q.store.tuples = p.store.tuples ∧ written = p.store.tuples.card := by
  have hids : Set.InjOn (tupleRowId newV5) S := by
    intro a ha b hb heq
    exact rowName_injective (hfree ⟨a, ha, rfl⟩ ⟨b, hb, rfl⟩ heq)
  have hsound := sound_of_reachable hids h
  refine ⟨rowName_injective, ?_, fun event err hin => (perform_spec hsound hids hin).2 err, ?_⟩
  · rintro p rfl
    exact hsound.2.inStep
  · rintro p newMaster order env rfl horder
    obtain ⟨file, err, hrot, hclean⟩ | ⟨q, hrot, hmaster, htuples, hq⟩ :=
      rotateMasterKey_spec hsound.2 hids newMaster horder env
    · rw [hrot]
      refine ⟨fun hc => absurd hc hclean, fun file' written hok => ?_⟩
      cases (Prod.mk.inj hok).2
    · rw [hrot]
      refine ⟨fun _ => ⟨_, _, rfl⟩, fun file written hok => ?_⟩
      obtain ⟨rfl, hwritten⟩ := Prod.mk.inj hok
      have hown := hq.own
      have hrows := hq.rows
      rw [hq.key] at hrows
      rw [hmaster] at hown hrows
      obtain ⟨left, q', hopen, hsame, hq'⟩ :=
        open_ok (some q.conn) hown hrows hq.within
      exact ⟨left, q', hopen, hq'.inStep, hsame.trans htuples, (Except.ok.inj hwritten).symm⟩

end Run

def channelMember : RelationTuple := ⟨⟨.channel, 7⟩, .member, .direct .user 1⟩

def channelViewers : RelationTuple := ⟨⟨.channel, 7⟩, .viewer, .via .group 2 .member⟩

def sampleV5 (_ : Uuid) (name : Bytes) : Uuid :=
  if name = rowName channelMember then 0xf3d43b0450f755a989f69aca923b1e08
  else if name = rowName channelViewers then 0x323644c5de075ce9b131df1b4adc0f4a
  else 0

def sampleEvents : List Event :=
  [.open .none false, .insert channelMember ⟨0, 1000, none⟩, .upsert channelViewers ⟨1, 1001, none⟩,
    .remove channelMember true, .insert channelMember ⟨2, 1002, none⟩,
    .remove channelViewers false, .close, .open .none false]

def sampleTupleFile : TupleFile :=
  sampleEvents.foldl (fun w event => (perform sampleV5 5 w event).1) (.closed none)

theorem permissions_mirrored_sample :
    sampleTupleFile.tuples = some {channelMember} ∧ ∀ p, sampleTupleFile = .opened p → InStep p := by
  have hfree : Set.InjOn (sampleV5 nsPermissionTuple)
      (rowName '' {channelMember, channelViewers}) := by
    rintro _ ⟨a, rfl | rfl, rfl⟩ _ ⟨b, rfl | rfl, rfl⟩ heq
    · rfl
    · exact absurd heq (by decide +kernel)
    · exact absurd heq (by decide +kernel)
    · rfl
  have hlegal : Legal (fun _ event => Within {channelMember, channelViewers} event)
      (fun w event => (perform sampleV5 5 w event).1) (.closed none) sampleEvents :=
    ⟨trivial, .inl rfl, .inr rfl, .inl rfl, .inl rfl, .inr rfl, trivial, trivial, trivial⟩
  exact ⟨by decide +kernel, (permissions_mirrored sampleV5 5 {channelMember, channelViewers} hfree
    (hlegal.reachable (.init rfl))).2.1⟩

end Knowledge.Permission
