import Knowledge.Lib.Search
import Knowledge.Permission.Store

/-!
Namespaces and the permission check. The check is a depth-first search with one visited
set for all the questions it asks; it decides whether a finite derivation exists.
-/

set_option autoImplicit false

namespace Knowledge.Permission
open Knowledge.Transition
open Knowledge.Sync (Uuid)
open Search

structure NamespaceConfig where
  objectType : ObjectType
  implies : Relation → Option (List Relation)

namespace NamespaceConfig

def new (objectType : ObjectType) : NamespaceConfig := ⟨objectType, fun _ => none⟩

def imply (self : NamespaceConfig) (parent : Relation) (children : List Relation) :
    NamespaceConfig :=
  { self with
    implies := Function.update self.implies parent
      (some ((self.implies parent).getD [] ++ children)) }

/-- The loop over a stack of relations; the head of the list is the top of the stack. -/
def closure (self : NamespaceConfig) (start : Relation) : List Relation :=
  Search.gather (fun r => (self.implies r).getD []) [] [start]

end NamespaceConfig

structure NamespaceRegistry where
  namespaces : ObjectType → Option NamespaceConfig

open NamespaceRegistry

namespace NamespaceRegistry

def new : NamespaceRegistry := ⟨fun _ => none⟩

def register (self : NamespaceRegistry) (cfg : NamespaceConfig) :
    Except PermissionError Unit × NamespaceRegistry :=
  match self.namespaces cfg.objectType with
  | some _ => (.error (.namespaceAlreadyRegistered cfg.objectType), self)
  | none => (.ok (), ⟨Function.update self.namespaces cfg.objectType (some cfg)⟩)

def defaultConfig (objectType : ObjectType) : NamespaceConfig :=
  (NamespaceConfig.new objectType).imply .owner [.admin] |>.imply .admin [.editor]
    |>.imply .editor [.member] |>.imply .member [.viewer]

def withDefaults : NamespaceRegistry :=
  [ObjectType.tenant, .domain, .channel, .user].foldl
    (fun reg objectType => (reg.register (defaultConfig objectType)).2) new

def closure (self : NamespaceRegistry) (objectType : ObjectType) (start : Relation) :
    List Relation :=
  match self.namespaces objectType with
  | some ns => ns.closure start
  | none => [start]

def implies (self : NamespaceRegistry) (objectType : ObjectType) (held wanted : Relation) : Bool :=
  (self.closure objectType held).contains wanted

end NamespaceRegistry

def coveringRelations (namespaces : NamespaceRegistry) (objectType : ObjectType)
    (wanted : Relation) : List Relation :=
  Relation.all.filter (fun r => r == wanted || namespaces.implies objectType r wanted)

abbrev Visited := Finset (ObjectRef × Relation)

def walkTuples (recurse : ObjectRef → Relation → Visited → Option (Bool × Visited))
    (target : SubjectRef) : List RelationTuple → Visited → Option (Bool × Visited)
  | [], visited => some (false, visited)
  | tuple :: rest, visited =>
    if tuple.subject.subjectType = target.subjectType ∧
        tuple.subject.subjectId = target.subjectId ∧
        tuple.subject.subjectRelation = none ∧ target.subjectRelation = none then
      some (true, visited)
    else
      match tuple.subject.subjectRelation with
      | some rel => do
        let (found, visited) ←
          recurse ⟨tuple.subject.subjectType, tuple.subject.subjectId⟩ rel visited
        if found then some (true, visited) else walkTuples recurse target rest visited
      | none => walkTuples recurse target rest visited

def walkCovering (store : TupleStore)
    (recurse : ObjectRef → Relation → Visited → Option (Bool × Visited)) (object : ObjectRef)
    (target : SubjectRef) : List Relation → Visited → Option (Bool × Visited)
  | [], visited => some (false, visited)
  | cover :: rest, visited =>
    if (object, cover) ∈ visited then walkCovering store recurse object target rest visited
    else do
      let (found, visited) ← walkTuples recurse target (store.iterForObjectRelation object cover)
        (insert (object, cover) visited)
      if found then some (true, visited)
      else walkCovering store recurse object target rest visited

def walk (store : TupleStore) (namespaces : NamespaceRegistry) (target : SubjectRef) :
    Nat → ObjectRef → Relation → Visited → Option (Bool × Visited)
  | 0, _, _, _ => none
  | fuel+1, object, wanted, visited =>
    walkCovering store (walk store namespaces target fuel) object target
      (coveringRelations namespaces object.objectType wanted) visited

structure PermissionDecision where
  allowed : Bool

structure PermissionCheck where
  store : TupleStore
  namespaces : NamespaceRegistry

def PermissionCheck.evaluate (self : PermissionCheck) (fuel : Nat) (object : ObjectRef)
    (relation : Relation) (subject : SubjectRef) : Option PermissionDecision := do
  let (allowed, _) ← walk self.store self.namespaces subject fuel object relation ∅
  some ⟨allowed⟩

/-- `none` only when the recursion goes deeper than the fuel. -/
def checkPermission (fuel : Nat) (store : TupleStore) (namespaces : NamespaceRegistry)
    (object : ObjectRef) (relation : Relation) (subject : SubjectRef) : Option Bool :=
  (PermissionCheck.evaluate ⟨store, namespaces⟩ fuel object relation subject).map
    PermissionDecision.allowed

/-- One relation implies another in one step of the map of the object type. -/
def NamespaceRegistry.Implies (namespaces : NamespaceRegistry) (objectType : ObjectType)
    (held wanted : Relation) : Prop :=
  ∃ ns ∈ namespaces.namespaces objectType, ∃ children ∈ ns.implies held, wanted ∈ children

/-- The subject derivably holds the relation on the object. -/
inductive Holds (tuples : Finset RelationTuple) (namespaces : NamespaceRegistry)
    (subject : SubjectRef) : ObjectRef → Relation → Prop where
  | direct {object : ObjectRef} {held wanted : Relation} :
      Relation.ReflTransGen (namespaces.Implies object.objectType) held wanted →
      ⟨object, held, subject⟩ ∈ tuples → Holds tuples namespaces subject object wanted
  | userset {object : ObjectRef} {held wanted rel : Relation} {t : ObjectType} {id : Uuid} :
      Relation.ReflTransGen (namespaces.Implies object.objectType) held wanted →
      ⟨object, held, .via t id rel⟩ ∈ tuples → Holds tuples namespaces subject ⟨t, id⟩ rel →
      Holds tuples namespaces subject object wanted

theorem NamespaceConfig.mem_closure_iff (self : NamespaceConfig) (start r : Relation) :
    r ∈ self.closure start ↔
      Relation.ReflTransGen (fun a b => b ∈ (self.implies a).getD []) start r :=
  mem_gather_iff start r

theorem NamespaceRegistry.implies_iff (namespaces : NamespaceRegistry) (objectType : ObjectType)
    (held wanted : Relation) :
    namespaces.implies objectType held wanted = true ↔
      Relation.ReflTransGen (namespaces.Implies objectType) held wanted := by
  simp only [implies, closure, List.contains_iff_mem]
  cases hns : namespaces.namespaces objectType with
  | none =>
    rw [List.mem_singleton]
    constructor
    · rintro rfl
      exact .refl
    · intro h
      obtain rfl | ⟨r, -, ns, hr, -⟩ := h.cases_tail
      · rfl
      · simp [hns] at hr
  | some ns =>
    have hstep : (fun a b => b ∈ (ns.implies a).getD []) = namespaces.Implies objectType := by
      funext a b
      cases hchildren : ns.implies a with
      | none => simp [Implies, hns, hchildren]
      | some children => simp [Implies, hns, hchildren]
    rw [NamespaceConfig.mem_closure_iff, hstep]

theorem mem_coveringRelations_iff (namespaces : NamespaceRegistry) (objectType : ObjectType)
    (wanted held : Relation) :
    held ∈ coveringRelations namespaces objectType wanted ↔
      Relation.ReflTransGen (namespaces.Implies objectType) held wanted := by
  rw [coveringRelations, List.mem_filter, ← implies_iff]
  simp only [held.mem_all, true_and, Bool.or_eq_true, beq_iff_eq]
  constructor
  · rintro (rfl | h)
    · exact (implies_iff ..).mpr .refl
    · exact h
  · exact .inr

def covers (namespaces : NamespaceRegistry) (question : ObjectRef × Relation) :
    List (ObjectRef × Relation) :=
  (coveringRelations namespaces question.1.objectType question.2).map (Prod.mk question.1)

def tupleEdge (target : SubjectRef) (tuple : RelationTuple) :
    Search.Edge (ObjectRef × Relation) :=
  match tuple.subject.subjectRelation with
  | some rel => .ask (⟨tuple.subject.subjectType, tuple.subject.subjectId⟩, rel)
  | none => if tuple.subject = target then .hit else .miss

def tupleEdges (store : TupleStore) (target : SubjectRef) (node : ObjectRef × Relation) :
    List (Search.Edge (ObjectRef × Relation)) :=
  (store.iterForObjectRelation node.1 node.2).map (tupleEdge target)

theorem walkTuples_eq_scan (recurse : ObjectRef → Relation → Visited → Option (Bool × Visited))
    (target : SubjectRef) (bucket : List RelationTuple) (visited : Visited) :
    walkTuples recurse target bucket visited =
      scan (fun q => recurse q.1 q.2) (bucket.map (tupleEdge target)) visited := by
  induction bucket generalizing visited with
  | nil => rfl
  | cons tuple bucket ih =>
    obtain ⟨object, relation, ⟨t, id, rel⟩⟩ := tuple
    obtain ⟨targetType, targetId, targetRel⟩ := target
    cases rel with
    | some rel =>
      simp only [walkTuples, List.map_cons, tupleEdge, scan, reduceCtorEq, false_and,
        and_false, if_false, ih]
    | none =>
      simp only [walkTuples, List.map_cons, tupleEdge, true_and, SubjectRef.mk.injEq,
        eq_comm (b := targetRel)]
      split
      · rfl
      · exact ih visited

theorem walkCovering_eq_visit (store : TupleStore)
    (recurse : ObjectRef → Relation → Visited → Option (Bool × Visited)) (object : ObjectRef)
    (target : SubjectRef) (covering : List Relation) (visited : Visited) :
    walkCovering store recurse object target covering visited =
      visit (tupleEdges store target) (fun q => recurse q.1 q.2)
        (covering.map (Prod.mk object)) visited := by
  induction covering generalizing visited with
  | nil => rfl
  | cons cover covering ih =>
    simp only [walkCovering, visit, List.map_cons, ih, tupleEdges, walkTuples_eq_scan]

theorem walk_eq_search (store : TupleStore) (namespaces : NamespaceRegistry) (target : SubjectRef)
    (fuel : Nat) (question : ObjectRef × Relation) (visited : Visited) :
    walk store namespaces target fuel question.1 question.2 visited =
      search (covers namespaces) (tupleEdges store target) fuel question visited := by
  induction fuel generalizing question visited with
  | zero => rfl
  | succ fuel ih =>
    have hrec : (fun q : ObjectRef × Relation => walk store namespaces target fuel q.1 q.2) =
        search (covers namespaces) (tupleEdges store target) fuel := by
      funext q visited
      exact ih q visited
    rw [walk, walkCovering_eq_visit, hrec]
    rfl

theorem mem_covers_iff (namespaces : NamespaceRegistry) (question node : ObjectRef × Relation) :
    node ∈ covers namespaces question ↔ node.1 = question.1 ∧
      Relation.ReflTransGen (namespaces.Implies question.1.objectType) node.2 question.2 := by
  obtain ⟨object, held⟩ := node
  simp only [covers, List.mem_map, mem_coveringRelations_iff, Prod.mk.injEq]
  constructor
  · rintro ⟨r, hr, rfl, rfl⟩
    exact ⟨rfl, hr⟩
  · rintro ⟨rfl, hr⟩
    exact ⟨held, hr, rfl, rfl⟩

theorem mem_iter_iff {store : TupleStore} (h : store.Indexed) (node : ObjectRef × Relation)
    (tuple : RelationTuple) :
    tuple ∈ store.iterForObjectRelation node.1 node.2 ↔
      tuple ∈ store.tuples ∧ tuple.key = node :=
  h.mem node tuple

/-- A derivation of the search is a derivation from the tuples, for a subject that is not
itself a set. -/
theorem derives_iff_holds {store : TupleStore} (h : store.Indexed)
    (namespaces : NamespaceRegistry) (target : SubjectRef) (question : ObjectRef × Relation) :
    Search.Derives (covers namespaces) (tupleEdges store target) question ↔
      target.subjectRelation = none ∧
        Holds store.tuples namespaces target question.1 question.2 := by
  constructor
  · intro hd
    induction hd with
    | @hit q node hn hhit =>
      obtain ⟨heq, hr⟩ := (mem_covers_iff ..).mp hn
      obtain ⟨tuple, ht, hedge⟩ := List.mem_map.mp hhit
      obtain ⟨ht, hk⟩ := (mem_iter_iff h ..).mp ht
      have hsubject : tuple.subject.subjectRelation = none ∧ tuple.subject = target := by
        rw [tupleEdge] at hedge
        split at hedge
        · cases hedge
        · split at hedge
          · exact ⟨‹_›, ‹_›⟩
          · cases hedge
      refine ⟨hsubject.2 ▸ hsubject.1, .direct hr ?_⟩
      rw [← heq, ← hk, ← hsubject.2]
      exact ht
    | @ask q q' node hn hask _ ih =>
      obtain ⟨heq, hr⟩ := (mem_covers_iff ..).mp hn
      obtain ⟨tuple, ht, hedge⟩ := List.mem_map.mp hask
      obtain ⟨ht, hk⟩ := (mem_iter_iff h ..).mp ht
      obtain ⟨object, relation, ⟨t, id, rel⟩⟩ := tuple
      cases rel with
      | none =>
        simp only [tupleEdge] at hedge
        split at hedge <;> cases hedge
      | some rel =>
        obtain rfl := Search.Edge.ask.inj hedge
        refine ⟨ih.1, .userset hr ?_ ih.2⟩
        rw [← heq, ← hk]
        exact ht
  · obtain ⟨object, wanted⟩ := question
    rintro ⟨htarget, hd⟩
    dsimp only at hd
    induction hd with
    | @direct object held wanted hr ht =>
      refine .hit ((mem_covers_iff namespaces (object, wanted) (object, held)).mpr ⟨rfl, hr⟩) ?_
      refine List.mem_map.mpr ⟨_, (mem_iter_iff h (object, held) _).mpr ⟨ht, rfl⟩, ?_⟩
      simp [tupleEdge, htarget]
    | @userset object held wanted rel t id hr ht _ ih =>
      refine .ask ((mem_covers_iff namespaces (object, wanted) (object, held)).mpr ⟨rfl, hr⟩) ?_ ih
      exact List.mem_map.mpr ⟨_, (mem_iter_iff h (object, held) _).mpr ⟨ht, rfl⟩, rfl⟩

def TupleStore.liveKeys (store : TupleStore) : Visited := store.tuples.image RelationTuple.key

open TupleStore

theorem TupleStore.mem_liveKeys {store : TupleStore} (h : store.Indexed) (target : SubjectRef)
    (node : ObjectRef × Relation) (hne : tupleEdges store target node ≠ []) :
    node ∈ store.liveKeys := by
  obtain ⟨edge, hedge⟩ := List.exists_mem_of_ne_nil _ hne
  obtain ⟨tuple, ht, -⟩ := List.mem_map.mp hedge
  obtain ⟨ht, hk⟩ := (mem_iter_iff h node tuple).mp ht
  exact Finset.mem_image.mpr ⟨tuple, ht, hk⟩

theorem TupleStore.Indexed.check_any {store : TupleStore} (h : store.Indexed)
    (namespaces : NamespaceRegistry) (object : ObjectRef) (relation : Relation)
    (subject : SubjectRef) {fuel : Nat} (hfuel : store.tuples.card < fuel) :
    ∃ allowed, checkPermission fuel store namespaces object relation subject = some allowed ∧
      (allowed = true ↔ subject.subjectRelation = none ∧
        Holds store.tuples namespaces subject object relation) := by
  have hcard : store.liveKeys.card < fuel := lt_of_le_of_lt Finset.card_image_le hfuel
  obtain ⟨allowed, visited, hs, hiff⟩ : ∃ allowed visited,
      search (covers namespaces) (tupleEdges store subject) fuel (object, relation) ∅ =
        some (allowed, visited) ∧ (allowed = true ↔
          Search.Derives (covers namespaces) (tupleEdges store subject) (object, relation)) :=
    search_decides (store.mem_liveKeys h subject) hcard (object, relation)
  rw [← walk_eq_search store namespaces subject fuel (object, relation)] at hs
  refine ⟨allowed, ?_, hiff.trans (derives_iff_holds h namespaces subject (object, relation))⟩
  simp [checkPermission, PermissionCheck.evaluate, hs]

theorem TupleStore.Indexed.check {store : TupleStore} (h : store.Indexed)
    (namespaces : NamespaceRegistry) (object : ObjectRef) (relation : Relation)
    {subject : SubjectRef} (hdirect : subject.subjectRelation = none) {fuel : Nat}
    (hfuel : store.tuples.card < fuel) :
    ∃ allowed, checkPermission fuel store namespaces object relation subject = some allowed ∧
      (allowed = true ↔ Holds store.tuples namespaces subject object relation) := by
  obtain ⟨allowed, hallowed, hiff⟩ := h.check_any namespaces object relation subject hfuel
  exact ⟨allowed, hallowed, hiff.trans (and_iff_right hdirect)⟩

/-- In every store that a run reaches the check comes to an answer, says yes exactly when
there is a derivation, and says the same for another order of the index. -/
theorem check_permission_iff_derivation {store : TupleStore}
    (h : system.Reachable store) (namespaces : NamespaceRegistry) (object : ObjectRef)
    (relation : Relation) (subject : SubjectRef) (hdirect : subject.subjectRelation = none)
    (fuel : Nat) (hfuel : store.tuples.card < fuel) :
    (∃ allowed, checkPermission fuel store namespaces object relation subject = some allowed ∧
      (allowed = true ↔ Holds store.tuples namespaces subject object relation)) ∧
    ∀ store', system.Reachable store' → store'.tuples = store.tuples →
      checkPermission fuel store' namespaces object relation subject =
        checkPermission fuel store namespaces object relation subject := by
  have hcheck := (indexed_of_reachable h).check namespaces object relation hdirect hfuel
  refine ⟨hcheck, fun store' h' heq => ?_⟩
  obtain ⟨allowed, hallowed, hiff⟩ := hcheck
  obtain ⟨allowed', hallowed', hiff'⟩ := (indexed_of_reachable h').check namespaces
    object relation hdirect (heq ▸ hfuel)
  rw [heq, ← hiff] at hiff'
  rw [hallowed, hallowed', Bool.eq_iff_iff.mpr hiff']

def sampleTenant : ObjectRef := ⟨.tenant, 1⟩

def sampleGroup : ObjectRef := ⟨.group, 2⟩

def sampleUser : SubjectRef := .direct .user 3

def sampleGrant : RelationTuple := ⟨sampleTenant, .admin, .via .group 2 .member⟩

def sampleMember : RelationTuple := ⟨sampleGroup, .member, sampleUser⟩

def sampleLoop : RelationTuple := ⟨sampleGroup, .member, .via .group 2 .member⟩

def sampleActs : List TupleStore.Act :=
  [.insert sampleLoop, .insert sampleGrant, .upsert sampleMember, .remove sampleGrant,
    .upsert sampleGrant,
    .serde [sampleGrant, sampleMember, sampleLoop] [sampleLoop, sampleGrant, sampleMember]]

def sampleStore : TupleStore := sampleActs.foldl TupleStore.next .new

theorem check_permission_group_member :
    system.Reachable sampleStore ∧
    checkPermission 4 sampleStore .withDefaults sampleTenant .viewer sampleUser = some true := by
  have hr : system.Reachable sampleStore := by
    refine Legal.reachable ?_ (.init rfl)
    exact ⟨trivial, trivial, trivial, trivial, trivial,
      ⟨by decide +kernel, by decide +kernel⟩, trivial⟩
  obtain ⟨allowed, hallowed, hiff⟩ := (check_permission_iff_derivation hr .withDefaults
    sampleTenant .viewer sampleUser rfl 4 (by decide +kernel)).1
  have hadmin : Relation.ReflTransGen (withDefaults.Implies .tenant)
      .admin .viewer :=
    (implies_iff ..).mp (by decide +kernel)
  have hholds : Holds sampleStore.tuples .withDefaults sampleUser sampleTenant .viewer :=
    .userset hadmin (by decide +kernel : sampleGrant ∈ sampleStore.tuples)
      (.direct .refl (by decide +kernel : sampleMember ∈ sampleStore.tuples))
  exact ⟨hr, hallowed.trans (congrArg some (hiff.mpr hholds))⟩

end Knowledge.Permission
