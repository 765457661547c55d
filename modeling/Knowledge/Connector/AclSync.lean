import Knowledge.Lib.Overwrite
import Knowledge.Lib.Table
import Knowledge.Permission.Store

/-!
`crates/connector_framework/src/acl_sync.rs`: the permissions a source reports become relation
tuples. Where an `expect` of the source fails, a result here is `none`.
-/

set_option autoImplicit false

namespace Knowledge.Connector
open Knowledge.Sync (Uuid)
open Knowledge.Permission Knowledge.Overwrite

abbrev SourceUserId := String

abbrev SourceDocumentId := String

inductive SourcePermissionLevel where
  | read
  | write
  | admin
  deriving DecidableEq

structure SourcePermission where
  sourceUserId : SourceUserId
  sourceDocumentId : SourceDocumentId
  level : SourcePermissionLevel
  deriving DecidableEq

structure SourceRevocation where
  sourceUserId : SourceUserId
  sourceDocumentId : SourceDocumentId
  deriving DecidableEq

inductive PermissionDelta where
  | grant (g : SourcePermission)
  | revoke (r : SourceRevocation)
  deriving DecidableEq

structure PermissionMapping where
  objectType : ObjectType
  subjectType : ObjectType
  userResolver : Table SourceUserId Uuid
  documentResolver : Table SourceDocumentId Uuid
  levelToRelation : Table SourcePermissionLevel Relation

namespace PermissionMapping

def new (objectType subjectType : ObjectType) : PermissionMapping where
  objectType := objectType
  subjectType := subjectType
  userResolver := ∅
  documentResolver := ∅
  levelToRelation :=
    (((∅ : Table SourcePermissionLevel Relation).insert .read .viewer).insert .write .editor).insert
      .admin .admin

section

variable (self : PermissionMapping)

def mapUser (source : SourceUserId) (substrate : Uuid) :
    PermissionMapping :=
  { self with userResolver := self.userResolver.insert source substrate }

def mapDocument (source : SourceDocumentId) (substrate : Uuid) :
    PermissionMapping :=
  { self with documentResolver := self.documentResolver.insert source substrate }

def resolveUser (source : SourceUserId) : Option Uuid :=
  self.userResolver.lookup source

def resolveDocument (source : SourceDocumentId) : Option Uuid :=
  self.documentResolver.lookup source

def relationFor (level : SourcePermissionLevel) : Relation :=
  (self.levelToRelation.lookup level).getD .viewer

end

end PermissionMapping

structure AclSyncReport where
  inserted : Nat
  updated : Nat
  removed : Nat
  unknownUsers : List SourceUserId
  unknownDocuments : List SourceDocumentId

def AclSyncReport.zero : AclSyncReport := ⟨0, 0, 0, [], []⟩

def AclSyncReport.unknownUser (report : AclSyncReport) (user : SourceUserId) : AclSyncReport :=
  { report with unknownUsers := report.unknownUsers ++ [user] }

def AclSyncReport.unknownDocument (report : AclSyncReport) (document : SourceDocumentId) :
    AclSyncReport :=
  { report with unknownDocuments := report.unknownDocuments ++ [document] }

/-- The orders in which a store is iterated, one for each delta of a run. -/
structure Iteration where
  iter : Nat → TupleStore → List RelationTuple
  enumerates : ∀ n store, TupleStore.Enumerates (iter n store) store.tuples

def expect : Except PermissionError Unit × TupleStore → Option TupleStore
  | (.ok (), store) => some store
  | (.error _, _) => none

def ofPair (object : ObjectRef) (subjectType : ObjectType) (subjectId : Uuid)
    (tuple : RelationTuple) : Bool :=
  tuple.object = object && tuple.subject.subjectType = subjectType &&
    tuple.subject.subjectId = subjectId && tuple.subject.subjectRelation.isNone

def removeEach : List RelationTuple → TupleStore × AclSyncReport →
    Option (TupleStore × AclSyncReport)
  | [], s => some s
  | tuple :: rest, (store, report) =>
    match expect (store.remove tuple) with
    | none => none
    | some store => removeEach rest (store, { report with removed := report.removed+1 })

def upsertTarget (existingForPair : List RelationTuple) (target : RelationTuple)
    (s : TupleStore × AclSyncReport) : Option (TupleStore × AclSyncReport) :=
  if target ∈ s.1.tuples then some s
  else if existingForPair.isEmpty then
    (expect (s.1.insert target)).map fun store =>
      (store, { s.2 with inserted := s.2.inserted+1 })
  else
    (removeEach existingForPair s).bind fun s =>
      (expect (s.1.insert target)).map fun store =>
        (store, { s.2 with updated := s.2.updated+1 })

section

variable (mapping : PermissionMapping) (iter : List RelationTuple)

def applyGrant (grant : SourcePermission)
    (s : TupleStore × AclSyncReport) : Option (TupleStore × AclSyncReport) :=
  match mapping.resolveDocument grant.sourceDocumentId with
  | none => some (s.1, s.2.unknownDocument grant.sourceDocumentId)
  | some objectId =>
    match mapping.resolveUser grant.sourceUserId with
    | none => some (s.1, s.2.unknownUser grant.sourceUserId)
    | some subjectId =>
      let object : ObjectRef := ⟨mapping.objectType, objectId⟩
      let subject := SubjectRef.direct mapping.subjectType subjectId
      let relation := mapping.relationFor grant.level
      upsertTarget (iter.filter (ofPair object subject.subjectType subject.subjectId))
        ⟨object, relation, subject⟩ s

def applyRevoke (revoke : SourceRevocation) (s : TupleStore × AclSyncReport) :
    Option (TupleStore × AclSyncReport) :=
  match mapping.resolveDocument revoke.sourceDocumentId with
  | none => some (s.1, s.2.unknownDocument revoke.sourceDocumentId)
  | some objectId =>
    match mapping.resolveUser revoke.sourceUserId with
    | none => some (s.1, s.2.unknownUser revoke.sourceUserId)
    | some subjectId =>
      let object : ObjectRef := ⟨mapping.objectType, objectId⟩
      removeEach (iter.filter (ofPair object mapping.subjectType subjectId)) s

def applyDelta :
    PermissionDelta → TupleStore × AclSyncReport → Option (TupleStore × AclSyncReport)
  | .grant g => applyGrant mapping iter g
  | .revoke r => applyRevoke mapping iter r

end

def applyFrom (mapping : PermissionMapping) (orders : Iteration) :
    Nat → List PermissionDelta → TupleStore × AclSyncReport → Option (TupleStore × AclSyncReport)
  | _, [], s => some s
  | n, delta :: rest, s =>
    (applyDelta mapping (orders.iter n s.1) delta s).bind (applyFrom mapping orders (n+1) rest)

def sync (mapping : PermissionMapping) (orders : Iteration) (deltas : List PermissionDelta)
    (store : TupleStore) : Option (TupleStore × AclSyncReport) :=
  applyFrom mapping orders 0 deltas (store, .zero)

/-! What a delta says, and what the store holds, of an object and a direct subject. -/

def PermissionDelta.sourceUserId : PermissionDelta → SourceUserId
  | grant g => g.sourceUserId
  | revoke r => r.sourceUserId

def PermissionDelta.sourceDocumentId : PermissionDelta → SourceDocumentId
  | grant g => g.sourceDocumentId
  | revoke r => r.sourceDocumentId

def PermissionDelta.pair (mapping : PermissionMapping) (delta : PermissionDelta) :
    Option (ObjectRef × SubjectRef) :=
  match mapping.resolveDocument delta.sourceDocumentId, mapping.resolveUser delta.sourceUserId with
  | some objectId, some subjectId =>
    some (⟨mapping.objectType, objectId⟩, SubjectRef.direct mapping.subjectType subjectId)
  | _, _ => none

def PermissionDelta.word (mapping : PermissionMapping) : PermissionDelta → Option Relation
  | grant g => some (mapping.relationFor g.level)
  | revoke _ => none

def pairOf (tuple : RelationTuple) : ObjectRef × SubjectRef := (tuple.object, tuple.subject)

def held (tuples : Finset RelationTuple) (pair : ObjectRef × SubjectRef) : Finset Relation :=
  Finset.univ.filter fun relation => ⟨pair.1, relation, pair.2⟩ ∈ tuples

def cleared (tuples : Finset RelationTuple) (pair : ObjectRef × SubjectRef) :
    Finset RelationTuple :=
  tuples.filter fun tuple => pairOf tuple ≠ pair

@[simp] theorem mem_held {tuples : Finset RelationTuple} {pair : ObjectRef × SubjectRef}
    {relation : Relation} : relation ∈ held tuples pair ↔ ⟨pair.1, relation, pair.2⟩ ∈ tuples := by
  simp [held]

theorem held_cleared (tuples : Finset RelationTuple) (pair other : ObjectRef × SubjectRef) :
    held (cleared tuples pair) other = if pair = other then ∅ else held tuples other := by
  ext relation
  by_cases h : pair = other
  · simp [cleared, pairOf, h]
  · have hne : pairOf ⟨other.1, relation, other.2⟩ ≠ pair := fun heq => h heq.symm
    rw [if_neg h, mem_held, mem_held, cleared, Finset.mem_filter]
    exact and_iff_left hne

theorem held_insert (tuples : Finset RelationTuple) (tuple : RelationTuple)
    (other : ObjectRef × SubjectRef) :
    held (Insert.insert tuple tuples) other =
      if pairOf tuple = other then Insert.insert tuple.relation (held tuples other)
      else held tuples other := by
  ext relation
  obtain ⟨object, r, subject⟩ := tuple
  by_cases h : pairOf ⟨object, r, subject⟩ = other
  · subst h
    simp [pairOf]
  · rw [if_neg h, mem_held, mem_held, Finset.mem_insert]
    constructor
    · rintro (heq | hmem)
      · exact absurd (by cases heq; rfl) h
      · exact hmem
    · exact .inr

theorem ofPair_iff {object : ObjectRef} {subjectType : ObjectType} {subjectId : Uuid}
    {tuple : RelationTuple} :
    ofPair object subjectType subjectId tuple ↔
      pairOf tuple = (object, SubjectRef.direct subjectType subjectId) := by
  obtain ⟨object', r, ⟨subjectType', subjectId', subjectRelation⟩⟩ := tuple
  simp [ofPair, pairOf, SubjectRef.direct, and_assoc]

theorem removeEach_some {tuples : List RelationTuple} (hnodup : tuples.Nodup)
    {s : TupleStore × AclSyncReport} (hsub : ∀ tuple ∈ tuples, tuple ∈ s.1.tuples) :
    ∃ store, removeEach tuples s =
        some (store, { s.2 with removed := s.2.removed+tuples.length }) ∧
      store.tuples = s.1.tuples \ tuples.toFinset := by
  induction tuples generalizing s with
  | nil => exact ⟨s.1, rfl, by simp⟩
  | cons tuple rest ih =>
    obtain ⟨store, report⟩ := s
    obtain ⟨hnew, hnodup⟩ := List.nodup_cons.mp hnodup
    have hmem : tuple ∈ store.tuples := hsub tuple List.mem_cons_self
    have hremove : store.remove tuple = (.ok (), (store.remove tuple).2) := by
      simp [TupleStore.remove, hmem]
    have hleft := TupleStore.remove_tuples hremove
    generalize (store.remove tuple).2 = store' at hremove hleft
    have hsub' : ∀ t ∈ rest, t ∈ store'.tuples := by
      intro t ht
      rw [hleft, Finset.mem_erase]
      exact ⟨fun heq => hnew (heq ▸ ht), hsub t (List.mem_cons_of_mem _ ht)⟩
    obtain ⟨out, hrest, hout⟩ := @ih hnodup (store', { report with removed := report.removed+1 })
      hsub'
    refine ⟨out, ?_, ?_⟩
    · simp only [removeEach, hremove, expect]
      rw [hrest, List.length_cons]
      simp only [Nat.add_assoc, Nat.add_comm 1]
    · rw [hout, hleft, List.toFinset_cons, Finset.sdiff_insert, Finset.erase_sdiff_comm]

theorem filter_ofPair {iter : List RelationTuple} {tuples : Finset RelationTuple}
    (h : TupleStore.Enumerates iter tuples) (object : ObjectRef) (subjectType : ObjectType)
    (subjectId : Uuid) :
    let existing := iter.filter (ofPair object subjectType subjectId)
    let pair := (object, SubjectRef.direct subjectType subjectId)
    existing.Nodup ∧ (∀ tuple ∈ existing, tuple ∈ tuples) ∧
      tuples \ existing.toFinset = cleared tuples pair ∧
      (cleared tuples pair).card+existing.length = tuples.card := by
  obtain ⟨hnodup, rfl⟩ := h
  intro existing pair
  have hcleared : iter.toFinset \ existing.toFinset = cleared iter.toFinset pair := by
    ext tuple
    simp only [Finset.mem_sdiff, List.mem_toFinset, existing, List.mem_filter, ofPair_iff, cleared,
      Finset.mem_filter]
    tauto
  have hsub : existing.toFinset ⊆ iter.toFinset := by
    intro tuple htuple
    exact List.mem_toFinset.mpr (List.mem_filter.mp (List.mem_toFinset.mp htuple)).1
  refine ⟨hnodup.filter _, fun tuple ht => List.mem_toFinset.mpr (List.mem_filter.mp ht).1,
    hcleared, ?_⟩
  rw [← hcleared, ← List.toFinset_card_of_nodup (hnodup.filter _)]
  exact Finset.card_sdiff_add_card_eq_card hsub

/-- The sizes agree with the report, for a run that began with so many tuples. -/
def Balanced (before : Nat) (s : TupleStore × AclSyncReport) : Prop :=
  s.1.tuples.card+s.2.removed = before+s.2.inserted+s.2.updated

/-- One delta: what it says is turned for its pair, and nothing else. -/
structure Applied (mapping : PermissionMapping) (delta : PermissionDelta)
    (s s' : TupleStore × AclSyncReport) : Prop where
  held : ∀ pair, held s'.1.tuples pair =
    if delta.pair mapping = some pair then turn (held s.1.tuples pair) (delta.word mapping)
    else held s.1.tuples pair
  balanced : ∀ before, Balanced before s → Balanced before s'

theorem Applied.unresolved {mapping : PermissionMapping} {delta : PermissionDelta}
    (h : delta.pair mapping = none) {store : TupleStore} {report report' : AclSyncReport}
    (hreport : report'.inserted = report.inserted ∧ report'.updated = report.updated ∧
      report'.removed = report.removed) :
    Applied mapping delta (store, report) (store, report') := by
  refine ⟨fun pair => by simp [h], fun before hbefore => ?_⟩
  simp only [Balanced] at hbefore ⊢
  omega

section Pair

variable {mapping : PermissionMapping} {delta : PermissionDelta}

theorem pair_of_document (h : mapping.resolveDocument delta.sourceDocumentId = none) :
    delta.pair mapping = none := by
  simp [PermissionDelta.pair, h]

theorem pair_of_user (h : mapping.resolveUser delta.sourceUserId = none) :
    delta.pair mapping = none := by
  simp [PermissionDelta.pair, h]

theorem pair_of_resolved {objectId subjectId : Uuid}
    (hdocument : mapping.resolveDocument delta.sourceDocumentId = some objectId)
    (huser : mapping.resolveUser delta.sourceUserId = some subjectId) :
    delta.pair mapping =
      some (⟨mapping.objectType, objectId⟩, SubjectRef.direct mapping.subjectType subjectId) := by
  simp [PermissionDelta.pair, hdocument, huser]

end Pair

theorem applyRevoke_applied {mapping : PermissionMapping} {iter : List RelationTuple}
    {s : TupleStore × AclSyncReport} (hiter : TupleStore.Enumerates iter s.1.tuples)
    (r : SourceRevocation) :
    ∃ s', applyRevoke mapping iter r s = some s' ∧ Applied mapping (.revoke r) s s' := by
  unfold applyRevoke
  cases hdocument : mapping.resolveDocument r.sourceDocumentId with
  | none => exact ⟨_, rfl, .unresolved (pair_of_document hdocument) ⟨rfl, rfl, rfl⟩⟩
  | some objectId =>
    cases huser : mapping.resolveUser r.sourceUserId with
    | none => exact ⟨_, rfl, .unresolved (pair_of_user huser) ⟨rfl, rfl, rfl⟩⟩
    | some subjectId =>
      have hpair := @pair_of_resolved mapping (.revoke r) objectId subjectId hdocument huser
      obtain ⟨hnodup, hsub, hcleared, hcard⟩ :=
        filter_ofPair hiter ⟨mapping.objectType, objectId⟩ mapping.subjectType subjectId
      obtain ⟨store, hremove, hstore⟩ := removeEach_some hnodup hsub
      refine ⟨_, hremove, fun pair => ?_, fun before hbefore => ?_⟩
      · simp only [hstore, hcleared, held_cleared, hpair, Option.some.injEq]
        rfl
      · simp only [Balanced, hstore, hcleared] at hbefore ⊢
        omega

theorem expect_insert {store : TupleStore} {target : RelationTuple} (h : target ∉ store.tuples) :
    ∃ store', expect (store.insert target) = some store' ∧
      store'.tuples = Insert.insert target store.tuples := by
  refine ⟨{ store with tuples := Insert.insert target store.tuples }.indexPush target, ?_, rfl⟩
  rw [TupleStore.insert, if_neg h]
  rfl

theorem held_replaced {tuples : Finset RelationTuple} {target : RelationTuple}
    (h : target ∉ tuples) (pair : ObjectRef × SubjectRef) :
    held (Insert.insert target (cleared tuples (pairOf target))) pair =
      if pairOf target = pair then turn (held tuples pair) (some target.relation)
      else held tuples pair := by
  rw [held_insert, held_cleared]
  by_cases hp : pairOf target = pair
  · subst hp
    have hnot : target.relation ∉ held tuples (pairOf target) := by simpa [pairOf] using h
    simp only [if_true, turn, if_neg hnot, insert_empty_eq]
  · simp only [if_neg hp]

theorem upsertTarget_some {existing : List RelationTuple} {target : RelationTuple}
    {s : TupleStore × AclSyncReport} (hnodup : existing.Nodup)
    (hsub : ∀ tuple ∈ existing, tuple ∈ s.1.tuples)
    (hcleared : s.1.tuples \ existing.toFinset = cleared s.1.tuples (pairOf target))
    (hcard : (cleared s.1.tuples (pairOf target)).card+existing.length = s.1.tuples.card) :
    ∃ s', upsertTarget existing target s = some s' ∧
      (∀ pair, held s'.1.tuples pair =
        if pairOf target = pair then turn (held s.1.tuples pair) (some target.relation)
        else held s.1.tuples pair) ∧
      ∀ before, Balanced before s → Balanced before s' := by
  unfold upsertTarget
  by_cases hmem : target ∈ s.1.tuples
  · refine ⟨s, if_pos hmem, fun pair => ?_, fun _ hbefore => hbefore⟩
    by_cases hp : pairOf target = pair
    · have hin : target.relation ∈ held s.1.tuples pair := by
        rw [← hp]
        simpa [pairOf] using hmem
      rw [if_pos hp, turn, if_pos hin]
    · rw [if_neg hp]
  · rw [if_neg hmem]
    have hnew : target ∉ cleared s.1.tuples (pairOf target) := by simp [cleared]
    cases existing with
    | nil =>
      obtain ⟨store, hinsert, hstore⟩ := expect_insert hmem
      have hsame : cleared s.1.tuples (pairOf target) = s.1.tuples := by simpa using hcleared.symm
      refine ⟨_, by simp only [List.isEmpty_nil, if_true, hinsert, Option.map_some]; rfl,
        fun pair => ?_, fun before hbefore => ?_⟩
      · rw [hstore, ← held_replaced hmem, hsame]
      · simp only [Balanced, hstore, Finset.card_insert_of_notMem hmem] at hbefore ⊢
        omega
    | cons tuple rest =>
      obtain ⟨cut, hremove, hcut⟩ := removeEach_some hnodup hsub
      rw [hcleared] at hcut
      rw [← hcut] at hnew
      obtain ⟨store, hinsert, hstore⟩ := expect_insert hnew
      refine ⟨_, by simp only [List.isEmpty_cons, Bool.false_eq_true, if_false, hremove,
        Option.bind_some, hinsert, Option.map_some]; rfl, fun pair => ?_, fun before hbefore => ?_⟩
      · rw [hstore, hcut, held_replaced hmem]
      · have hsize := Finset.card_insert_of_notMem hnew
        simp only [hcut] at hsize
        simp only [Balanced, hstore, hcut] at hbefore ⊢
        omega

theorem applyGrant_applied {mapping : PermissionMapping} {iter : List RelationTuple}
    {s : TupleStore × AclSyncReport} (hiter : TupleStore.Enumerates iter s.1.tuples)
    (g : SourcePermission) :
    ∃ s', applyGrant mapping iter g s = some s' ∧ Applied mapping (.grant g) s s' := by
  unfold applyGrant
  cases hdocument : mapping.resolveDocument g.sourceDocumentId with
  | none => exact ⟨_, rfl, .unresolved (pair_of_document hdocument) ⟨rfl, rfl, rfl⟩⟩
  | some objectId =>
    cases huser : mapping.resolveUser g.sourceUserId with
    | none => exact ⟨_, rfl, .unresolved (pair_of_user huser) ⟨rfl, rfl, rfl⟩⟩
    | some subjectId =>
      have hpair := @pair_of_resolved mapping (.grant g) objectId subjectId hdocument huser
      obtain ⟨hnodup, hsub, hcleared, hcard⟩ :=
        filter_ofPair hiter ⟨mapping.objectType, objectId⟩ mapping.subjectType subjectId
      obtain ⟨s', hupsert, hheld, hbalanced⟩ := @upsertTarget_some _
        ⟨⟨mapping.objectType, objectId⟩, mapping.relationFor g.level,
          SubjectRef.direct mapping.subjectType subjectId⟩ s hnodup hsub hcleared hcard
      refine ⟨s', hupsert, fun pair => ?_, hbalanced⟩
      rw [hheld]
      simp only [hpair, Option.some.injEq]
      rfl

theorem applyDelta_applied {mapping : PermissionMapping} {iter : List RelationTuple}
    {s : TupleStore × AclSyncReport} (hiter : TupleStore.Enumerates iter s.1.tuples)
    (delta : PermissionDelta) :
    ∃ s', applyDelta mapping iter delta s = some s' ∧ Applied mapping delta s s' := by
  cases delta with
  | grant g => exact applyGrant_applied hiter g
  | revoke r => exact applyRevoke_applied hiter r

def words (mapping : PermissionMapping) (deltas : List PermissionDelta)
    (pair : ObjectRef × SubjectRef) : List (Option Relation) :=
  (deltas.filter fun delta => delta.pair mapping = some pair).map (·.word mapping)

theorem applyFrom_applied (mapping : PermissionMapping) (orders : Iteration) (n : Nat)
    (deltas : List PermissionDelta) (s : TupleStore × AclSyncReport) :
    ∃ s', applyFrom mapping orders n deltas s = some s' ∧
      (∀ pair, held s'.1.tuples pair =
        (words mapping deltas pair).foldl turn (held s.1.tuples pair)) ∧
      ∀ before, Balanced before s → Balanced before s' := by
  induction deltas generalizing n s with
  | nil => exact ⟨s, rfl, fun _ => rfl, fun _ h => h⟩
  | cons delta rest ih =>
    obtain ⟨s₁, hone, happlied⟩ := applyDelta_applied (orders.enumerates n s.1) delta
    obtain ⟨s₂, hrest, hheld, hbalanced⟩ := ih (n+1) s₁
    refine ⟨s₂, by rw [applyFrom, hone]; exact hrest, fun pair => ?_,
      fun before h => hbalanced before (happlied.balanced before h)⟩
    rw [hheld, happlied.held, words, words]
    by_cases hp : delta.pair mapping = some pair
    · simp [hp]
    · simp [hp]

theorem sync_some (mapping : PermissionMapping) (orders : Iteration)
    (deltas : List PermissionDelta) (store : TupleStore) :
    ∃ store' report, sync mapping orders deltas store = some (store', report) ∧
      (∀ pair, held store'.tuples pair =
        (words mapping deltas pair).foldl turn (held store.tuples pair)) ∧
      store'.tuples.card+report.removed = store.tuples.card+report.inserted+report.updated := by
  obtain ⟨⟨store', report⟩, hsync, hheld, hbalanced⟩ :=
    applyFrom_applied mapping orders 0 deltas (store, .zero)
  exact ⟨store', report, hsync, hheld, hbalanced store.tuples.card rfl⟩

theorem tuples_eq_of_held {a b : Finset RelationTuple} (h : ∀ pair, held a pair = held b pair) :
    a = b := by
  ext ⟨object, relation, subject⟩
  have hmem := Finset.ext_iff.mp (h (object, subject)) relation
  simpa only [mem_held] using hmem

def lastDelta (mapping : PermissionMapping) (deltas : List PermissionDelta)
    (pair : ObjectRef × SubjectRef) : Option PermissionDelta :=
  (deltas.filter fun delta => delta.pair mapping = some pair).getLast?

/-- A sync ends, with the last delta of each pair in force and the report of what it did; run again
it changes nothing. -/
def LastDeltaWins (mapping : PermissionMapping) (orders : Iteration)
    (deltas : List PermissionDelta) (store : TupleStore) : Prop :=
  ∃ store' report, sync mapping orders deltas store = some (store', report) ∧
    (∀ pair delta, lastDelta mapping deltas pair = some delta →
      held store'.tuples pair = only (delta.word mapping)) ∧
    (∀ tuple, lastDelta mapping deltas (pairOf tuple) = none →
      (tuple ∈ store'.tuples ↔ tuple ∈ store.tuples)) ∧
    store'.tuples.card+report.removed = store.tuples.card+report.inserted+report.updated ∧
    ∀ orders', ∃ again report', sync mapping orders' deltas store' = some (again, report') ∧
      again.tuples = store'.tuples

section

variable {mapping : PermissionMapping} {deltas : List PermissionDelta}
  {pair : ObjectRef × SubjectRef}

theorem words_of_last {delta : PermissionDelta} (h : lastDelta mapping deltas pair = some delta) :
    ∃ front, words mapping deltas pair = front ++ [delta.word mapping] := by
  obtain ⟨front, hfront⟩ := List.getLast?_eq_some_iff.mp h
  exact ⟨front.map (·.word mapping), by rw [words, hfront, List.map_append]; rfl⟩

theorem words_of_none (h : lastDelta mapping deltas pair = none) :
    words mapping deltas pair = [] := by
  rw [words, List.getLast?_eq_none_iff.mp h, List.map_nil]

theorem mem_words {word : Option Relation} :
    word ∈ words mapping deltas pair ↔
      ∃ delta ∈ deltas, delta.pair mapping = some pair ∧ delta.word mapping = word := by
  simp [words, and_assoc]

end

/-- A store that held several relations of a pair keeps them all, where each delta of the pair
grants one of them. -/
theorem lastDeltaWins_iff (mapping : PermissionMapping) (orders : Iteration)
    (deltas : List PermissionDelta) (store : TupleStore) :
    LastDeltaWins mapping orders deltas store ↔
      ∀ pair, (∃ delta ∈ deltas, delta.pair mapping = some pair) →
        (held store.tuples pair).card ≤ 1 ∨
          ∃ delta ∈ deltas, delta.pair mapping = some pair ∧
            Strikes (held store.tuples pair) (delta.word mapping) := by
  obtain ⟨store', report, hsync, hheld, hsize⟩ := sync_some mapping orders deltas store
  have hlast : ∀ pair delta, lastDelta mapping deltas pair = some delta →
      (held store'.tuples pair = only (delta.word mapping) ↔
        (held store.tuples pair).card ≤ 1 ∨ ∃ delta ∈ deltas, delta.pair mapping = some pair ∧
          Strikes (held store.tuples pair) (delta.word mapping)) := by
    intro pair delta h
    obtain ⟨front, hfront⟩ := words_of_last h
    rw [hheld, hfront, foldl_turn_eq_only_iff, ← hfront]
    refine or_congr_right ⟨?_, ?_⟩
    · rintro ⟨word, hword, hstrikes⟩
      obtain ⟨d, hd, hp, rfl⟩ := mem_words.mp hword
      exact ⟨d, hd, hp, hstrikes⟩
    · rintro ⟨d, hd, hp, hstrikes⟩
      exact ⟨_, mem_words.mpr ⟨d, hd, hp, rfl⟩, hstrikes⟩
  constructor
  · rintro ⟨_, _, hsync', hwins, -⟩ pair ⟨d, hd, hp⟩
    obtain ⟨rfl, rfl⟩ := Prod.mk.inj (Option.some.inj (hsync.symm.trans hsync'))
    cases hdelta : lastDelta mapping deltas pair with
    | none =>
      have hmem := mem_words.mpr ⟨d, hd, hp, rfl⟩
      simp [words_of_none hdelta] at hmem
    | some delta => exact (hlast pair delta hdelta).mp (hwins pair delta hdelta)
  · intro h
    refine ⟨store', report, hsync, fun pair delta hdelta => ?_, fun tuple hnone => ?_, hsize,
      fun orders' => ?_⟩
    · have hmem := List.mem_of_getLast? hdelta
      rw [List.mem_filter, decide_eq_true_eq] at hmem
      exact (hlast pair delta hdelta).mpr (h pair ⟨delta, hmem⟩)
    · have hsame := hheld (pairOf tuple)
      rw [words_of_none hnone, List.foldl_nil] at hsame
      have hiff := Finset.ext_iff.mp hsame tuple.relation
      rw [mem_held, mem_held] at hiff
      exact hiff
    · obtain ⟨again, report', hagain, hheld', -⟩ := sync_some mapping orders' deltas store'
      refine ⟨again, report', hagain, tuples_eq_of_held fun pair => ?_⟩
      rw [hheld', hheld, foldl_turn_twice]

def readGrant : List PermissionDelta := [.grant ⟨"ada", "plan.md", .read⟩]

def adaMapping : PermissionMapping :=
  ((PermissionMapping.new .concept .user).mapUser "ada" 1).mapDocument "plan.md" 2

def adaTuple (relation : Relation) : RelationTuple :=
  ⟨⟨.concept, 2⟩, relation, SubjectRef.direct .user 1⟩

def adaStore : TupleStore :=
  ((TupleStore.new.upsert (adaTuple .viewer)).2.upsert (adaTuple .admin)).2

theorem readGrant_keeps_admin :
    (∀ orders, sync adaMapping orders readGrant adaStore = some (adaStore, .zero)) ∧
      ¬ ∃ orders, LastDeltaWins adaMapping orders readGrant adaStore := by
  have hgrant : ∀ iter, applyDelta adaMapping iter (.grant ⟨"ada", "plan.md", .read⟩)
      (adaStore, .zero) = some (adaStore, .zero) := by
    intro iter
    have hviewer : adaTuple .viewer ∈ adaStore.tuples := by decide +kernel
    have hupsert : ∀ existing, upsertTarget existing (adaTuple .viewer) (adaStore, .zero) =
        some (adaStore, .zero) := by
      intro existing
      rw [upsertTarget, if_pos hviewer]
    exact hupsert (iter.filter (ofPair ⟨.concept, 2⟩ .user 1))
  have hsync : ∀ orders, sync adaMapping orders readGrant adaStore = some (adaStore, .zero) := by
    intro orders
    rw [sync, readGrant, applyFrom, hgrant]
    rfl
  refine ⟨hsync, ?_⟩
  rintro ⟨orders, _, _, hsync', hwins, -⟩
  obtain ⟨rfl, rfl⟩ := Prod.mk.inj (Option.some.inj ((hsync orders).symm.trans hsync'))
  have hlast : lastDelta adaMapping readGrant (pairOf (adaTuple .admin)) =
      some (.grant ⟨"ada", "plan.md", .read⟩) := by decide +kernel
  have hadmin : held adaStore.tuples (pairOf (adaTuple .admin)) ≠
      only ((PermissionDelta.grant ⟨"ada", "plan.md", .read⟩).word adaMapping) := by decide +kernel
  exact hadmin (hwins _ _ hlast)

end Knowledge.Connector
