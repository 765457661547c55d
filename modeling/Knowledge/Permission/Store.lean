import Knowledge.Lib.Transition
import Knowledge.Sync.AddWinsSet

/-!
Relation tuples and the in-memory tuple store: the authoritative set, and the index by
object and relation that the permission check reads.
-/

set_option autoImplicit false

namespace Knowledge.Permission
open Knowledge.Transition
open Knowledge.Sync (Uuid)

inductive ObjectType where
  | tenant | domain | channel | user | group | device | concept | summary | workflow
  | exportProfile | agent
  deriving DecidableEq

inductive Relation where
  | owner | admin | editor | member | viewer | synthesizer | proposer
  deriving DecidableEq

def Relation.all : List Relation :=
  [.owner, .admin, .editor, .member, .viewer, .synthesizer, .proposer]

theorem Relation.mem_all (r : Relation) : r ∈ all := by
  cases r <;> simp [all]

instance : Fintype Relation :=
  ⟨Relation.all.toFinset, fun r => List.mem_toFinset.mpr r.mem_all⟩

def ObjectType.asStr : ObjectType → String
  | .tenant => "tenant"
  | .domain => "domain"
  | .channel => "channel"
  | .user => "user"
  | .group => "group"
  | .device => "device"
  | .concept => "concept"
  | .summary => "summary"
  | .workflow => "workflow"
  | .exportProfile => "export_profile"
  | .agent => "agent"

def Relation.asStr : Relation → String
  | .owner => "owner"
  | .admin => "admin"
  | .editor => "editor"
  | .member => "member"
  | .viewer => "viewer"
  | .synthesizer => "synthesizer"
  | .proposer => "proposer"

structure ObjectRef where
  objectType : ObjectType
  objectId : Uuid
  deriving DecidableEq

/-- A subject, or with a relation the set of those who hold it on the subject. -/
structure SubjectRef where
  subjectType : ObjectType
  subjectId : Uuid
  subjectRelation : Option Relation
  deriving DecidableEq

namespace SubjectRef

def direct (subjectType : ObjectType) (subjectId : Uuid) : SubjectRef :=
  ⟨subjectType, subjectId, none⟩

def via (subjectType : ObjectType) (subjectId : Uuid) (relation : Relation) : SubjectRef :=
  ⟨subjectType, subjectId, some relation⟩

end SubjectRef

structure RelationTuple where
  object : ObjectRef
  relation : Relation
  subject : SubjectRef
  deriving DecidableEq

def RelationTuple.key (tuple : RelationTuple) : ObjectRef × Relation :=
  (tuple.object, tuple.relation)

inductive PermissionError where
  | duplicateTuple
  | notFound
  | namespaceAlreadyRegistered (objectType : ObjectType)

/-- `Vec::swap_remove`: the last element takes the place of the removed one. -/
def swapRemove {α : Type} (bucket : List α) (pos : Nat) : List α :=
  match bucket.getLast? with
  | some last => (bucket.set pos last).dropLast
  | none => []

theorem swapRemove_perm {α : Type} {bucket : List α} {pos : Nat} (h : pos < bucket.length) :
    (swapRemove bucket pos).Perm (bucket.eraseIdx pos) := by
  obtain rfl | ⟨front, last, rfl⟩ := bucket.eq_nil_or_concat'
  · simp at h
  · simp only [swapRemove, List.getLast?_append, List.getLast?_singleton, Option.some_or]
    by_cases hp : pos < front.length
    · have hset : (front ++ [last]).set pos last = front.set pos last ++ [last] :=
        List.set_append_left _ _ hp
      rw [hset, List.dropLast_concat, List.eraseIdx_append_of_lt_length hp]
      have hlen : pos < (front.set pos last).length := by simpa using hp
      have hperm := List.getElem_cons_eraseIdx_perm hlen
      rw [List.getElem_set_self, List.eraseIdx_set_eq] at hperm
      exact hperm.symm.trans (List.perm_append_singleton _ _).symm
    · have hp : pos = front.length := by
        simp only [List.length_append, List.length_cons, List.length_nil] at h
        omega
      subst hp
      simp [List.eraseIdx_append_of_length_le]

structure TupleStore where
  tuples : Finset RelationTuple
  index : ObjectRef × Relation → Option (List RelationTuple)

namespace TupleStore

def new : TupleStore := ⟨∅, fun _ => none⟩

def indexPush (self : TupleStore) (tuple : RelationTuple) : TupleStore :=
  let bucket := (self.index tuple.key).getD []
  { self with index := Function.update self.index tuple.key (some (bucket ++ [tuple])) }

def indexRemove (self : TupleStore) (tuple : RelationTuple) : TupleStore :=
  match self.index tuple.key with
  | none => self
  | some bucket =>
    let bucket := match bucket.findIdx? (· = tuple) with
      | some pos => swapRemove bucket pos
      | none => bucket
    { self with
      index := Function.update self.index tuple.key (if bucket.isEmpty then none else some bucket) }

def insert (self : TupleStore) (tuple : RelationTuple) :
    Except PermissionError Unit × TupleStore :=
  if tuple ∈ self.tuples then (.error .duplicateTuple, self)
  else (.ok (), { self with tuples := Insert.insert tuple self.tuples }.indexPush tuple)

def upsert (self : TupleStore) (tuple : RelationTuple) : Bool × TupleStore :=
  if tuple ∈ self.tuples then (false, self)
  else (true, { self with tuples := Insert.insert tuple self.tuples }.indexPush tuple)

def remove (self : TupleStore) (tuple : RelationTuple) : Except PermissionError Unit × TupleStore :=
  if tuple ∈ self.tuples then
    (.ok (), { self with tuples := self.tuples.erase tuple }.indexRemove tuple)
  else (.error .notFound, self)

def iterForObjectRelation (self : TupleStore) (object : ObjectRef) (relation : Relation) :
    List RelationTuple :=
  (self.index (object, relation)).getD []

def rebuildIndex (self : TupleStore) (order : List RelationTuple) : TupleStore :=
  order.foldl indexPush { self with index := fun _ => none }

def deserialize (wire order : List RelationTuple) : TupleStore :=
  rebuildIndex ⟨wire.toFinset, fun _ => none⟩ order

/-- The list gives the tuples in an order in which a set of them may be iterated. -/
def Enumerates (order : List RelationTuple) (tuples : Finset RelationTuple) : Prop :=
  order.Nodup ∧ order.toFinset = tuples

instance (order : List RelationTuple) (tuples : Finset RelationTuple) :
    Decidable (Enumerates order tuples) := inferInstanceAs (Decidable (_ ∧ _))

inductive Act where
  | insert (tuple : RelationTuple)
  | upsert (tuple : RelationTuple)
  | remove (tuple : RelationTuple)
  | serde (wire order : List RelationTuple)

def next (self : TupleStore) : Act → TupleStore
  | .insert tuple => (self.insert tuple).2
  | .upsert tuple => (self.upsert tuple).2
  | .remove tuple => (self.remove tuple).2
  | .serde wire order => deserialize wire order

/-- Any call may be made; the wire and the new set are read in any order. -/
def Guard (self : TupleStore) : Act → Prop
  | .serde wire order => Enumerates wire self.tuples ∧ Enumerates order wire.toFinset
  | _ => True

def system : System TupleStore Act := .ofNext (· = new) Guard next

/-- The index has exactly the tuples of the set, each once and under its own key, and it
keeps no empty bucket. -/
structure Indexed (store : TupleStore) : Prop where
  mem : ∀ key tuple, tuple ∈ (store.index key).getD [] ↔ tuple ∈ store.tuples ∧ tuple.key = key
  nodup : ∀ key, ((store.index key).getD []).Nodup
  pruned : ∀ key, store.index key ≠ some []

theorem getD_update (index : ObjectRef × Relation → Option (List RelationTuple))
    (key key' : ObjectRef × Relation) (bucket : Option (List RelationTuple)) :
    (Function.update index key bucket key').getD [] =
      if key' = key then bucket.getD [] else (index key').getD [] := by
  by_cases h : key' = key
  · subst h
    simp
  · simp [h]

theorem Indexed.push {self : TupleStore} (h : self.Indexed) {tuple : RelationTuple}
    (hn : tuple ∉ self.tuples) :
    ({ self with tuples := Insert.insert tuple self.tuples }.indexPush tuple).Indexed := by
  refine ⟨fun key t => ?_, fun key => ?_, fun key => ?_⟩
  · have hmem := h.mem key t
    simp only [indexPush, getD_update, Finset.mem_insert]
    by_cases hk : key = tuple.key
    · subst hk
      simp only [if_true, Option.getD_some, List.mem_append, List.mem_singleton, hmem]
      constructor
      · rintro (⟨ht, hk⟩ | rfl)
        · exact ⟨.inr ht, hk⟩
        · exact ⟨.inl rfl, rfl⟩
      · rintro ⟨rfl | ht, hk⟩
        · exact .inr rfl
        · exact .inl ⟨ht, hk⟩
    · rw [if_neg hk, hmem]
      constructor
      · exact fun ⟨ht, hk⟩ => ⟨.inr ht, hk⟩
      · rintro ⟨rfl | ht, rfl⟩
        · exact absurd rfl hk
        · exact ⟨ht, rfl⟩
  · simp only [indexPush, getD_update]
    by_cases hk : key = tuple.key
    · rw [if_pos hk, Option.getD_some, List.nodup_append]
      refine ⟨h.nodup _, List.nodup_singleton _, ?_⟩
      intro t ht t' ht' heq
      obtain rfl := List.mem_singleton.mp ht'
      subst heq
      exact hn ((h.mem _ _).mp ht).1
    · rw [if_neg hk]
      exact h.nodup key
  · by_cases hk : key = tuple.key
    · subst hk
      simp [indexPush]
    · simpa [indexPush, hk] using h.pruned key

theorem bucket_remove {bucket : List RelationTuple} (hnodup : bucket.Nodup) (tuple : RelationTuple) :
    (match bucket.findIdx? (· = tuple) with
      | some pos => swapRemove bucket pos
      | none => bucket).Perm (bucket.erase tuple) := by
  cases hpos : bucket.findIdx? (· = tuple) with
  | none =>
    have hn : tuple ∉ bucket := by
      intro ht
      simpa using List.findIdx?_eq_none_iff.mp hpos tuple ht
    rw [List.erase_of_not_mem hn]
  | some pos =>
    obtain ⟨hlt, heq, -⟩ := List.findIdx?_eq_some_iff_getElem.mp hpos
    have heq : bucket[pos] = tuple := by simpa using heq
    have herase : bucket.erase tuple = bucket.eraseIdx pos := by
      rw [← heq]
      exact (hnodup.erase_getElem pos hlt)
    rw [herase]
    exact swapRemove_perm hlt

theorem Indexed.remove {self : TupleStore} (h : self.Indexed) (tuple : RelationTuple) :
    ({ self with tuples := self.tuples.erase tuple }.indexRemove tuple).Indexed := by
  have hmem := h.mem
  have hnodup := h.nodup
  cases hb : self.index tuple.key with
  | none =>
    have hn : tuple ∉ self.tuples := by
      intro ht
      have := (hmem tuple.key tuple).mpr ⟨ht, rfl⟩
      simp [hb] at this
    simpa [indexRemove, hb, Finset.erase_eq_of_notMem hn] using h
  | some bucket =>
    have hbucket : (self.index tuple.key).getD [] = bucket := by rw [hb]; rfl
    have hbnodup : bucket.Nodup := hbucket ▸ hnodup tuple.key
    have hperm := bucket_remove hbnodup tuple
    simp only [indexRemove, hb]
    generalize hnew : (match bucket.findIdx? (· = tuple) with
      | some pos => swapRemove bucket pos
      | none => bucket) = left at hperm ⊢
    have hget : (if left.isEmpty = true then none else some left).getD [] = left := by
      cases left <;> rfl
    have hleft : ∀ t, t ∈ left ↔ t ∈ self.tuples.erase tuple ∧ t.key = tuple.key := by
      intro t
      rw [hperm.mem_iff, hbnodup.mem_erase_iff, ← hbucket, hmem, Finset.mem_erase, and_assoc]
    refine ⟨fun key t => ?_, fun key => ?_, fun key => ?_⟩
    · simp only [getD_update, hget]
      by_cases hk : key = tuple.key
      · rw [if_pos hk, hk]
        exact hleft t
      · rw [if_neg hk, hmem, Finset.mem_erase]
        constructor
        · rintro ⟨ht, rfl⟩
          exact ⟨⟨fun heq => hk (congrArg _ heq), ht⟩, rfl⟩
        · exact fun ⟨ht, hk⟩ => ⟨ht.2, hk⟩
    · simp only [getD_update, hget]
      by_cases hk : key = tuple.key
      · rw [if_pos hk]
        exact hperm.nodup_iff.mpr (hbnodup.erase _)
      · rw [if_neg hk]
        exact hnodup key
    · by_cases hk : key = tuple.key
      · subst hk
        cases left <;> simp
      · simpa [hk] using h.pruned key

theorem upsert_tuples (self : TupleStore) (tuple : RelationTuple) :
    (self.upsert tuple).2.tuples = Insert.insert tuple self.tuples := by
  rw [upsert]
  split
  · exact (Finset.insert_eq_self.mpr ‹_›).symm
  · rfl

theorem indexRemove_tuples (self : TupleStore) (tuple : RelationTuple) :
    (self.indexRemove tuple).tuples = self.tuples := by
  rw [indexRemove]
  split <;> rfl

theorem remove_tuples {self store : TupleStore} {tuple : RelationTuple}
    (h : self.remove tuple = (.ok (), store)) : store.tuples = self.tuples.erase tuple := by
  rw [remove] at h
  split at h
  · obtain rfl := (Prod.mk.inj h).2
    rw [indexRemove_tuples]
  · cases h

theorem rebuild_indexed (tuples : Finset RelationTuple) (order : List RelationTuple)
    (hnodup : order.Nodup) :
    (order.foldl indexPush ⟨tuples, fun _ => none⟩).tuples = tuples ∧
      Indexed ⟨order.toFinset, (order.foldl indexPush ⟨tuples, fun _ => none⟩).index⟩ := by
  induction order using List.reverseRecOn with
  | nil => exact ⟨rfl, by simp, by simp, by simp⟩
  | append_singleton front tuple ih =>
    obtain ⟨hfront, -, hdisjoint⟩ := List.nodup_append.mp hnodup
    obtain ⟨htuples, hindexed⟩ := ih hfront
    have hnew : tuple ∉ front.toFinset := by
      intro ht
      exact hdisjoint tuple (List.mem_toFinset.mp ht) tuple List.mem_cons_self rfl
    have hset : (front ++ [tuple]).toFinset = Insert.insert tuple front.toFinset := by
      ext t
      simp
    rw [List.foldl_append, hset]
    exact ⟨htuples, hindexed.push hnew⟩

theorem deserialize_indexed {wire order : List RelationTuple} (h : Enumerates order wire.toFinset) :
    (deserialize wire order).tuples = wire.toFinset ∧ (deserialize wire order).Indexed := by
  obtain ⟨htuples, hindexed⟩ := rebuild_indexed wire.toFinset order h.1
  refine ⟨htuples, ?_⟩
  have heq : (⟨order.toFinset, (deserialize wire order).index⟩ : TupleStore) =
      deserialize wire order := by
    rw [h.2, ← htuples]
    rfl
  exact heq ▸ hindexed

theorem indexed_next {self : TupleStore} (h : self.Indexed) {act : Act} (hg : self.Guard act) :
    (self.next act).Indexed := by
  cases act with
  | insert tuple =>
    simp only [next, insert]
    split
    · exact h
    · exact h.push ‹_›
  | upsert tuple =>
    simp only [next, upsert]
    split
    · exact h
    · exact h.push ‹_›
  | remove tuple =>
    simp only [next, remove]
    split
    · exact h.remove tuple
    · exact h
  | serde wire order => exact (deserialize_indexed hg.2).2

theorem Indexed.upsert {self : TupleStore} (h : self.Indexed) (tuple : RelationTuple) :
    (self.upsert tuple).2.Indexed := by
  have hguard : self.Guard (.upsert tuple) := trivial
  exact indexed_next h hguard

theorem Indexed.removed {self : TupleStore} (h : self.Indexed) (tuple : RelationTuple) :
    (self.remove tuple).2.Indexed := by
  have hguard : self.Guard (.remove tuple) := trivial
  exact indexed_next h hguard

theorem indexed_of_reachable {self : TupleStore} (h : system.Reachable self) : self.Indexed := by
  refine h.invariant Indexed ?_ ?_
  · rintro s rfl
    exact ⟨by simp [new], by simp [new], by simp [new]⟩
  · rintro s act t - hs ⟨hg, rfl⟩
    exact indexed_next hs hg

end TupleStore

end Knowledge.Permission
