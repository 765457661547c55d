import Knowledge.Concept.Graph

/-!
`crates/concept_graph/src/projection.rs`: memory observations projected into a concept graph, held
against the graph that `supersede_node` builds from the same observations. The name-based edge id
is a parameter; one clock reading stands for those of a projection.
-/

set_option autoImplicit false

namespace Knowledge.Concept
open Knowledge.Sync (Uuid)
open Knowledge.Memory (ScopeId)
open ConceptGraph

structure MemoryProjection where
  id : Uuid
  scopeId : ScopeId
  label : String
  definition : String
  state : NodeState
  supersededBy : Option Uuid
  createdAt : Int
  updatedAt : Int

open MemoryProjection

def MemoryProjection.intoNode (item : MemoryProjection) : ConceptNode where
  id := item.id
  label := item.label
  definition := item.definition
  scopeId := item.scopeId
  state := item.state
  supersededBy := item.supersededBy
  createdAt := item.createdAt
  updatedAt := item.updatedAt

structure PendingEdge where
  successor : NodeId
  predecessor : NodeId
  scopeId : ScopeId

structure Collected where
  graph : ConceptGraph
  pending : List PendingEdge
  present : List NodeId

def MemoryProjection.pendingEdge (item : MemoryProjection) : List PendingEdge :=
  match item.supersededBy with
  | none => []
  | some succ => if succ = item.id then [] else [⟨succ, item.id, item.scopeId⟩]

def Collected.add (acc : Collected) (item : MemoryProjection) : Collected :=
  let pending := acc.pending ++ item.pendingEdge
  match acc.graph.addNode item.intoNode with
  | (g, .ok _) => ⟨g, pending, acc.present ++ [item.id]⟩
  | (g, .error _) => ⟨g, pending, acc.present⟩

def emitEdge (supersedesEdgeId : NodeId → NodeId → EdgeId) (now : Int) (present : List NodeId)
    (g : ConceptGraph) (edge : PendingEdge) : ConceptGraph :=
  if edge.successor ∉ present ∨ edge.predecessor ∉ present then g
  else
    (g.addEdge ⟨supersedesEdgeId edge.successor edge.predecessor, edge.successor,
      edge.predecessor, .supersedes, edge.scopeId, now⟩).1

def projectMemoryGraph (supersedesEdgeId : NodeId → NodeId → EdgeId) (now : Int)
    (items : List MemoryProjection) : ConceptGraph :=
  let collected := items.foldl Collected.add ⟨ConceptGraph.new, [], []⟩
  collected.pending.foldl (emitEdge supersedesEdgeId now collected.present) collected.graph

/-- One call of `supersede_node`, with the id and the clock readings it draws. -/
structure Supersession where
  predecessor : NodeId
  successor : NodeId
  edgeId : EdgeId
  stamped : Int
  created : Int

def addAll (g : ConceptGraph) (items : List MemoryProjection) : ConceptGraph :=
  items.foldl (fun g item => (g.addNode item.intoNode).1) g

def supersedeAll (g : ConceptGraph) (calls : List Supersession) : ConceptGraph :=
  calls.foldl (fun g c =>
    (g.supersedeNode c.predecessor c.successor c.edgeId c.stamped c.created).1) g

def pointers (items : List MemoryProjection) : List (NodeId × NodeId) :=
  items.filterMap fun item => item.supersededBy.map fun succ => (item.id, succ)

def Points (items : List MemoryProjection) (old new : NodeId) : Prop := (old, new) ∈ pointers items

def SupersedesPair (g : ConceptGraph) (a b : NodeId) : Prop :=
  ∃ id edge, g.edges.lookup id = some edge ∧ edge.relation = .supersedes ∧ edge.fromNode = a ∧
    edge.toNode = b

def IsSuperseded (g : ConceptGraph) (id : NodeId) : Prop :=
  ∃ node, g.nodes.lookup id = some node ∧ node.state = .superseded

theorem mem_pointers {items : List MemoryProjection} {old new : NodeId} :
    (old, new) ∈ pointers items ↔
      ∃ item ∈ items, item.id = old ∧ item.supersededBy = some new := by
  simp only [pointers, List.mem_filterMap, Option.map_eq_some_iff, Prod.mk.injEq]
  constructor
  · rintro ⟨item, hitem, succ, hsucc, rfl, rfl⟩
    exact ⟨item, hitem, rfl, hsucc⟩
  · rintro ⟨item, hitem, rfl, hsucc⟩
    exact ⟨item, hitem, new, hsucc, rfl, rfl⟩

theorem pointers_eq_nil_iff {items : List MemoryProjection} :
    pointers items = [] ↔ ∀ item ∈ items, item.supersededBy = none := by
  simp [pointers, List.filterMap_eq_nil_iff]

theorem collected_graph (items : List MemoryProjection) (acc : Collected) :
    (items.foldl Collected.add acc).graph = addAll acc.graph items := by
  induction items generalizing acc with
  | nil => rfl
  | cons item items ih =>
    rw [List.foldl_cons, ih, addAll, addAll, List.foldl_cons]
    congr 1
    unfold Collected.add
    split <;> simp_all

theorem collected_pending (items : List MemoryProjection) (acc : Collected) :
    (items.foldl Collected.add acc).pending =
      acc.pending ++ items.flatMap pendingEdge := by
  induction items generalizing acc with
  | nil => simp
  | cons item items ih =>
    have hadd : (acc.add item).pending = acc.pending ++ item.pendingEdge := by
      unfold Collected.add
      split <;> rfl
    rw [List.foldl_cons, ih, hadd, List.flatMap_cons, List.append_assoc]

theorem points_of_pending {items : List MemoryProjection} {edge : PendingEdge}
    (h : edge ∈ items.flatMap pendingEdge) :
    Points items edge.predecessor edge.successor := by
  obtain ⟨item, hitem, hedge⟩ := List.mem_flatMap.mp h
  unfold pendingEdge at hedge
  cases hsucc : item.supersededBy with
  | none => simp [hsucc] at hedge
  | some succ =>
    by_cases hself : succ = item.id
    · simp [hsucc, hself] at hedge
    · simp only [hsucc, if_neg hself, List.mem_singleton] at hedge
      subst hedge
      exact mem_pointers.mpr ⟨item, hitem, rfl, hsucc⟩

theorem addNode_edges (g : ConceptGraph) (node : ConceptNode) :
    (g.addNode node).1.edges = g.edges := by
  unfold addNode
  split <;> rfl

theorem addAll_edges (g : ConceptGraph) (items : List MemoryProjection) :
    (addAll g items).edges = g.edges := by
  induction items generalizing g with
  | nil => rfl
  | cons item items ih => exact (ih _).trans (addNode_edges g item.intoNode)

theorem supersedesPair_insert {g g' : ConceptGraph} {edge : ConceptEdge} {a b : NodeId}
    (hg : g'.edges = g.edges.insert edge.id edge) (h : SupersedesPair g' a b) :
    (edge.fromNode = a ∧ edge.toNode = b) ∨ SupersedesPair g a b := by
  obtain ⟨id, e, hl, hrel, hfrom, hto⟩ := h
  rw [hg, Table.lookup_insert_ite] at hl
  split at hl
  · obtain rfl := Option.some.inj hl
    exact .inl ⟨hfrom, hto⟩
  · exact .inr ⟨id, e, hl, hrel, hfrom, hto⟩

theorem addEdge_edges (g : ConceptGraph) (edge : ConceptEdge) :
    (g.addEdge edge).1.edges = g.edges ∨
      (g.addEdge edge).1.edges = g.edges.insert edge.id edge := by
  unfold addEdge
  split_ifs
  · exact .inl rfl
  · exact .inl rfl
  · exact .inr rfl

theorem supersedesPair_emit {supersedesEdgeId : NodeId → NodeId → EdgeId} {now : Int}
    {present : List NodeId} {pending : List PendingEdge} {g : ConceptGraph} {a b : NodeId}
    (h : SupersedesPair (pending.foldl (emitEdge supersedesEdgeId now present) g) a b) :
    (∃ edge ∈ pending, edge.successor = a ∧ edge.predecessor = b) ∨ SupersedesPair g a b := by
  induction pending generalizing g with
  | nil => exact .inr h
  | cons edge pending ih =>
    obtain ⟨e, he, heq⟩ | h := ih h
    · exact .inl ⟨e, List.mem_cons_of_mem _ he, heq⟩
    unfold emitEdge at h
    split at h
    · exact .inr h
    · obtain hsame | hput := addEdge_edges g _
      · rw [SupersedesPair, hsame] at h
        exact .inr h
      · obtain heq | h := supersedesPair_insert hput h
        · exact .inl ⟨edge, List.mem_cons_self, heq⟩
        · exact .inr h

theorem points_of_projected {supersedesEdgeId : NodeId → NodeId → EdgeId} {now : Int}
    {items : List MemoryProjection} {a b : NodeId}
    (h : SupersedesPair (projectMemoryGraph supersedesEdgeId now items) a b) :
    Points items b a := by
  simp only [projectMemoryGraph] at h
  obtain ⟨edge, hedge, rfl, rfl⟩ | h := supersedesPair_emit h
  · rw [collected_pending, List.nil_append] at hedge
    exact points_of_pending hedge
  · rw [collected_graph] at h
    obtain ⟨id, edge, hl, -⟩ := h
    simp [addAll_edges, new] at hl

theorem lookup_addNode {g : ConceptGraph} {node : ConceptNode} {id : NodeId}
    (h : id = node.id ∨ g.nodes.lookup id ≠ none) :
    (g.addNode node).1.nodes.lookup id ≠ none := by
  cases hnode : g.nodes.lookup node.id with
  | none =>
    rw [addNode_of_absent hnode, Table.lookup_insert_ite]
    split
    · simp
    · exact h.resolve_left ‹_›
  | some old =>
    have hkeep : (g.addNode node).1 = g := by simp [addNode, hnode]
    rw [hkeep]
    rcases h with rfl | h
    · simp [hnode]
    · exact h

theorem lookup_addAll {g : ConceptGraph} {items : List MemoryProjection} {id : NodeId}
    (h : (∃ item ∈ items, item.id = id) ∨ g.nodes.lookup id ≠ none) :
    (addAll g items).nodes.lookup id ≠ none := by
  induction items generalizing g with
  | nil => simpa [addAll] using h
  | cons item items ih =>
    refine ih (g := (g.addNode item.intoNode).1) ?_
    rcases h with ⟨other, hother, rfl⟩ | h
    · obtain rfl | hother := List.mem_cons.mp hother
      · exact .inr (lookup_addNode (.inl rfl))
      · exact .inl ⟨other, hother, rfl⟩
    · exact .inr (lookup_addNode (.inr h))

theorem lookup_supersedeNode {g : ConceptGraph} {id : NodeId} (c : Supersession)
    (h : g.nodes.lookup id ≠ none) :
    (g.supersedeNode c.predecessor c.successor c.edgeId c.stamped c.created).1.nodes.lookup id ≠
      none := by
  obtain ⟨err, herr⟩ | ⟨pred, succ, hpred, hsucc, hne, hok⟩ :=
    g.supersedeNode_cases c.predecessor c.successor c.edgeId c.stamped c.created
  · rwa [herr]
  · have hkeep : ∀ (g : ConceptGraph) (edge : ConceptEdge), (g.addEdge edge).1.nodes = g.nodes := by
      intro g edge
      unfold addEdge
      split_ifs <;> rfl
    rw [hok, hkeep, setNode, Table.lookup_insert_ite]
    split
    · simp
    · exact h

theorem lookup_supersedeAll {g : ConceptGraph} {id : NodeId} (calls : List Supersession)
    (h : g.nodes.lookup id ≠ none) : (supersedeAll g calls).nodes.lookup id ≠ none := by
  induction calls generalizing g with
  | nil => exact h
  | cons c calls ih => exact ih (lookup_supersedeNode c h)

theorem supersedesPair_supersedeNode {g : ConceptGraph} (c : Supersession)
    (hne : c.predecessor ≠ c.successor) (hpred : g.nodes.lookup c.predecessor ≠ none)
    (hsucc : g.nodes.lookup c.successor ≠ none) :
    SupersedesPair (g.supersedeNode c.predecessor c.successor c.edgeId c.stamped c.created).1
      c.predecessor c.successor := by
  obtain ⟨pred, hp⟩ := Option.ne_none_iff_exists'.mp hpred
  have hfrom : (g.setNode c.predecessor (pred.markSupersededBy c.successor c.stamped)).nodes.lookup
      c.predecessor ≠ none := by
    simp [setNode]
  have hto : (g.setNode c.predecessor (pred.markSupersededBy c.successor c.stamped)).nodes.lookup
      c.successor ≠ none := by
    rwa [setNode, AList.lookup_insert_ne (Ne.symm hne)]
  simp only [supersedeNode, if_neg hne, Option.isNone_iff_eq_none, hsucc, if_false, hp]
  rw [addEdge_of_present hfrom hto]
  exact ⟨c.edgeId, _, AList.lookup_insert _, rfl, rfl, rfl⟩

def Matches (projected direct : ConceptGraph) : Prop :=
  (∀ a b, SupersedesPair projected a b ↔ SupersedesPair direct a b) ∧
    ∀ id, IsSuperseded projected id ↔ IsSuperseded direct id

/-- On observations whose pointers stay among them and form no cycle, the projection and the calls
of `supersede_node`, in any order, build the same graph exactly when there is no pointer. -/
theorem projection_matches_iff (supersedesEdgeId : NodeId → NodeId → EdgeId) (now : Int)
    (items : List MemoryProjection)
    (hinside : ∀ old new, Points items old new → ∃ item ∈ items, item.id = new)
    (hacyclic : ∀ id, ¬Relation.TransGen (Points items) id id) (calls : List Supersession)
    (hcalls : (calls.map fun c => (c.predecessor, c.successor)).Perm (pointers items)) :
    Matches (projectMemoryGraph supersedesEdgeId now items)
        (supersedeAll (addAll new items) calls) ↔
      ∀ item ∈ items, item.supersededBy = none := by
  constructor
  · rintro ⟨hpairs, -⟩
    rw [← pointers_eq_nil_iff]
    -- the edge of the last call is there, and the projection would need its pointer reversed
    cases calls using List.reverseRecOn with
    | nil => simpa using hcalls
    | append_singleton calls c _ =>
      have hpoint : Points items c.predecessor c.successor := hcalls.mem_iff.mp (by simp)
      have hne : c.predecessor ≠ c.successor := by
        intro heq
        exact hacyclic c.predecessor (.single (heq ▸ hpoint))
      obtain ⟨old, hold, hid, -⟩ := mem_pointers.mp hpoint
      have hlast := supersedesPair_supersedeNode c hne
        (lookup_supersedeAll calls (lookup_addAll (g := new) (.inl ⟨old, hold, hid⟩)))
        (lookup_supersedeAll calls (lookup_addAll (.inl (hinside _ _ hpoint))))
      have hback : Points items c.successor c.predecessor := by
        refine points_of_projected ((hpairs _ _).mpr ?_)
        rw [supersedeAll, List.foldl_append]
        exact hlast
      exact absurd ((Relation.TransGen.single hpoint).tail hback) (hacyclic _)
  · intro hnone
    have hnil : pointers items = [] := pointers_eq_nil_iff.mpr hnone
    obtain rfl : calls = [] := by
      rw [hnil] at hcalls
      simpa using hcalls.eq_nil
    have hpending : items.flatMap pendingEdge = [] := by
      rw [List.flatMap_eq_nil_iff]
      intro item hitem
      simp [pendingEdge, hnone item hitem]
    have hsame : projectMemoryGraph supersedesEdgeId now items =
        addAll new items := by
      simp only [projectMemoryGraph, collected_pending, collected_graph, hpending,
        List.append_nil, List.foldl_nil]
    rw [hsame]
    exact ⟨fun _ _ => Iff.rfl, fun _ => Iff.rfl⟩

def newer : MemoryProjection := ⟨2, 7, "plan", "the plan as of May", .canonical, none, 5, 5⟩

def older : MemoryProjection := { newer with id := 1, state := .superseded, supersededBy := some 2 }

def newerOlderId : NodeId → NodeId → EdgeId := fun _ _ => 0xf5f215cdc20e52a7ba8b57e0d2be102e

def supersedeOlder : Supersession := ⟨1, 2, 9, 6, 6⟩

theorem points_older_newer {a b : NodeId} (h : Points [older, newer] a b) : a = 1 ∧ b = 2 := by
  simpa [Points, pointers, older, newer] using h

theorem inside_older_newer (old new : NodeId) (h : Points [older, newer] old new) :
    ∃ item ∈ [older, newer], item.id = new := by
  obtain ⟨-, rfl⟩ := points_older_newer h
  exact ⟨newer, by simp, rfl⟩

theorem acyclic_older_newer (id : NodeId) : ¬Relation.TransGen (Points [older, newer]) id id := by
  have hends : ∀ a b, Relation.TransGen (Points [older, newer]) a b → a = 1 ∧ b = 2 := by
    intro a b h
    induction h with
    | single h => exact points_older_newer h
    | tail _ h ih => exact ⟨ih.1, (points_older_newer h).2⟩
  intro h
  obtain ⟨hone, htwo⟩ := hends id id h
  rw [hone] at htwo
  revert htwo
  decide

theorem projection_matches_one_pointer :
    (∀ old new, Points [older, newer] old new → ∃ item ∈ [older, newer], item.id = new) ∧
      (∀ id, ¬Relation.TransGen (Points [older, newer]) id id) ∧
      (Matches (projectMemoryGraph newerOlderId 6 [older, newer])
          (supersedeAll (addAll new [older, newer]) [supersedeOlder]) ↔
        ∀ item ∈ [older, newer], item.supersededBy = none) :=
  ⟨inside_older_newer, acyclic_older_newer, projection_matches_iff newerOlderId 6 [older, newer]
    inside_older_newer acyclic_older_newer [supersedeOlder] (.refl _)⟩

/-- One pointer is enough: the call leads from the old node to the new one, and no edge of the
projection does. -/
theorem supersedes_edges_reversed :
    (∀ old new, Points [older, newer] old new → ∃ item ∈ [older, newer], item.id = new) ∧
      (∀ id, ¬Relation.TransGen (Points [older, newer]) id id) ∧
      ¬Matches (projectMemoryGraph newerOlderId 6 [older, newer])
        (supersedeAll (addAll new [older, newer]) [supersedeOlder]) := by
  have hedge : (supersedeAll (addAll new [older, newer])
      [supersedeOlder]).edges.lookup 9 = some ⟨9, 1, 2, .supersedes, 7, 6⟩ := by
    decide +kernel
  refine ⟨inside_older_newer, acyclic_older_newer, fun h => ?_⟩
  have hback := points_of_projected ((h.1 1 2).mpr ⟨9, _, hedge, rfl, rfl, rfl⟩)
  have htwo := (points_older_newer hback).1
  revert htwo
  decide

end Knowledge.Concept
