import Knowledge.Concept.Built
import Knowledge.Lib.Breadth
import Knowledge.Lib.Dedup

/-!
`crates/concept_graph/src/incremental.rs`: the nodes a change touches and those of them that are
to be evaluated again. Both walks are given a number of rounds, and are `none` where they need more.
-/

set_option autoImplicit false

namespace Knowledge.Concept
open Knowledge.Breadth Knowledge.Dedup

inductive ChangeEvent where
  | nodePromoted (node : NodeId)
  | nodeSuperseded (predecessor successor : NodeId)
  | nodeContradicted (a b : NodeId)
  | edgeAdded (edge : EdgeId)
  | edgeRemoved (edge : EdgeId)

def ChangeEvent.anchors : ChangeEvent → List NodeId
  | nodePromoted node => [node]
  | nodeSuperseded predecessor successor => [predecessor, successor]
  | nodeContradicted a b => [a, b]
  | edgeAdded _ | edgeRemoved _ => []

/-- The source keeps both lists as hash sets. -/
structure AffectedSubgraph where
  nodes : List NodeId
  edges : List EdgeId
  maxDepthReached : Nat

open AffectedSubgraph

structure IncrementalUpdateEngine where
  maxPropagationDepth : Nat

namespace AffectedSubgraph

def empty : AffectedSubgraph := ⟨[], [], 0⟩

def insertEdge (subgraph : AffectedSubgraph) (edge : EdgeId) : AffectedSubgraph :=
  { subgraph with edges := insertNew subgraph.edges edge }

def containsNode (subgraph : AffectedSubgraph) (node : NodeId) : Bool :=
  subgraph.nodes.contains node

def reach (subgraph : AffectedSubgraph) (depth : Nat) : AffectedSubgraph :=
  if depth > subgraph.maxDepthReached then { subgraph with maxDepthReached := depth } else subgraph

end AffectedSubgraph

/-- The end of an edge listed at a node that is not the node, where the walk goes there: over any
edge from an anchor, later only from a source to what is derived from it. -/
def follows (id : NodeId) (depth : Nat) (e : ConceptEdge) : Option NodeId :=
  let other := if e.fromNode = id then e.toNode else e.fromNode
  if other = id then none
  else
    let isProvenance := e.relation = .derivedFrom
    let inProvenance := isProvenance ∧ e.toNode = id
    let directNeighbour := depth = 0
    if directNeighbour ∨ inProvenance then some other else none

def visitEdge (id : NodeId) (depth : Nat) (s : AffectedSubgraph × List (NodeId × Nat))
    (e : ConceptEdge) : AffectedSubgraph × List (NodeId × Nat) :=
  let subgraph := s.1.insertEdge e.id
  match follows id depth e with
  | none => (subgraph, s.2)
  | some other =>
    if subgraph.containsNode other then (subgraph, s.2)
    else ({ subgraph with nodes := subgraph.nodes ++ [other] }, s.2 ++ [(other, depth+1)])

def affectedLoop (engine : IncrementalUpdateEngine) (graph : ConceptGraph) :
    Nat → AffectedSubgraph → List (NodeId × Nat) → Option AffectedSubgraph
  | 0, _, _ => none
  | _+1, subgraph, [] => some subgraph
  | rounds+1, subgraph, (id, depth) :: frontier =>
    let subgraph := subgraph.reach depth
    if depth ≥ engine.maxPropagationDepth then
      affectedLoop engine graph rounds
        ((graph.getEdges id).foldl (fun s e => s.insertEdge e.id) subgraph) frontier
    else
      let s := (graph.getEdges id).foldl (visitEdge id depth) (subgraph, frontier)
      affectedLoop engine graph rounds s.1 s.2

def seedAnchor (graph : ConceptGraph) (s : AffectedSubgraph × List (NodeId × Nat)) (a : NodeId) :
    AffectedSubgraph × List (NodeId × Nat) :=
  if (graph.getNode a).isSome then
    ({ s.1 with nodes := insertNew s.1.nodes a }, s.2 ++ [(a, 0)])
  else s

def affectedSubgraph (engine : IncrementalUpdateEngine) (graph : ConceptGraph)
    (event : ChangeEvent) (rounds : Nat) : Option AffectedSubgraph :=
  if event.anchors.isEmpty then
    match event with
    | .edgeAdded edge | .edgeRemoved edge => some (AffectedSubgraph.empty.insertEdge edge)
    | _ => some .empty
  else
    let s := event.anchors.foldl (seedAnchor graph) (.empty, [])
    affectedLoop engine graph rounds s.1 s.2

def dependent (affected : AffectedSubgraph) (id : NodeId) (e : ConceptEdge) : Option NodeId :=
  if e.relation ≠ .derivedFrom then none
  else if e.toNode ≠ id then none
  else if !affected.containsNode e.fromNode then none
  else some e.fromNode

def pushDependent (affected : AffectedSubgraph) (id : NodeId) (s : List NodeId × List NodeId)
    (e : ConceptEdge) : List NodeId × List NodeId :=
  match dependent affected id e with
  | none => s
  | some n => if s.1.contains n then s else (s.1 ++ [n], s.2 ++ [n])

def scopeLoop (graph : ConceptGraph) (affected : AffectedSubgraph) :
    Nat → List NodeId → List NodeId → Option (List NodeId)
  | 0, _, _ => none
  | _+1, nodes, [] => some nodes
  | rounds+1, nodes, id :: frontier =>
    let s := (graph.getEdges id).foldl (pushDependent affected id) (nodes, frontier)
    scopeLoop graph affected rounds s.1 s.2

def recomputeScope (graph : ConceptGraph) (event : ChangeEvent) (affected : AffectedSubgraph)
    (rounds : Nat) : Option (List NodeId) :=
  let nodes := event.anchors.foldl
    (fun out a => if (graph.getNode a).isSome then insertNew out a else out) []
  scopeLoop graph affected rounds nodes nodes

/-! Both loops as walks of the library. -/

def affectedNext (engine : IncrementalUpdateEngine) (graph : ConceptGraph) (id : NodeId)
    (depth : Nat) : List NodeId :=
  if depth ≥ engine.maxPropagationDepth then []
  else (graph.getEdges id).filterMap (follows id depth)

def scopeNext (graph : ConceptGraph) (affected : AffectedSubgraph) (id : NodeId) (_ : Nat) :
    List NodeId :=
  (graph.getEdges id).filterMap (dependent affected id)

@[simp] theorem AffectedSubgraph.reach_nodes (subgraph : AffectedSubgraph) (depth : Nat) :
    (subgraph.reach depth).nodes = subgraph.nodes := by
  unfold reach
  split <;> rfl

@[simp] theorem AffectedSubgraph.foldl_insertEdge_nodes (es : List ConceptEdge)
    (subgraph : AffectedSubgraph) :
    (es.foldl (fun s e => s.insertEdge e.id) subgraph).nodes = subgraph.nodes := by
  induction es generalizing subgraph with
  | nil => rfl
  | cons e es ih =>
    rw [List.foldl_cons, ih]
    rfl

theorem foldl_visitEdge (id : NodeId) (depth : Nat) (es : List ConceptEdge)
    (s : AffectedSubgraph × List (NodeId × Nat)) :
    let s' := es.foldl (visitEdge id depth) s
    (s'.1.nodes, s'.2) = meet (depth+1) (es.filterMap (follows id depth)) s.1.nodes s.2 := by
  induction es generalizing s with
  | nil => rfl
  | cons e es ih =>
    simp only [List.foldl_cons]
    rw [ih]
    cases h : follows id depth e with
    | none => simp [visitEdge, h, insertEdge]
    | some other =>
      by_cases hmem : other ∈ s.1.nodes
      · simp [visitEdge, h, insertEdge, containsNode, meet, hmem]
      · simp [visitEdge, h, insertEdge, containsNode, meet, hmem]

theorem affectedLoop_nodes (engine : IncrementalUpdateEngine) (graph : ConceptGraph) (rounds : Nat)
    (subgraph : AffectedSubgraph) (frontier : List (NodeId × Nat)) :
    (affectedLoop engine graph rounds subgraph frontier).map (·.nodes) =
      walk (affectedNext engine graph) rounds subgraph.nodes frontier := by
  induction rounds generalizing subgraph frontier with
  | zero => rfl
  | succ rounds ih =>
    cases frontier with
    | nil => rfl
    | cons entry frontier =>
      obtain ⟨id, depth⟩ := entry
      by_cases hdepth : depth ≥ engine.maxPropagationDepth
      · simp [affectedLoop, walk, affectedNext, hdepth, ih, meet]
      · have hmeet := foldl_visitEdge id depth (graph.getEdges id) (subgraph.reach depth, frontier)
        simp only [reach_nodes] at hmeet
        simp only [affectedLoop, walk, affectedNext, if_neg hdepth, ih, ← hmeet]

theorem affectedLoop_mono {engine : IncrementalUpdateEngine} {graph : ConceptGraph}
    {rounds more : Nat} {subgraph out : AffectedSubgraph} {frontier : List (NodeId × Nat)}
    (h : affectedLoop engine graph rounds subgraph frontier = some out) (hle : rounds ≤ more) :
    affectedLoop engine graph more subgraph frontier = some out := by
  induction rounds generalizing more subgraph frontier with
  | zero => cases h
  | succ rounds ih =>
    obtain ⟨more, rfl⟩ : ∃ m, more = m+1 := ⟨more-1, by omega⟩
    cases frontier with
    | nil => exact h
    | cons entry frontier =>
      simp only [affectedLoop] at h ⊢
      by_cases hdepth : entry.2 ≥ engine.maxPropagationDepth
      · rw [if_pos hdepth] at h ⊢
        exact ih h (by omega)
      · rw [if_neg hdepth] at h ⊢
        exact ih h (by omega)

theorem foldl_pushDependent (affected : AffectedSubgraph) (id : NodeId) (es : List ConceptEdge)
    (depth : Nat) (nodes : List NodeId) (frontier : List (NodeId × Nat)) :
    let s := meet depth (es.filterMap (dependent affected id)) nodes frontier
    es.foldl (pushDependent affected id) (nodes, frontier.map Prod.fst) =
      (s.1, s.2.map Prod.fst) := by
  induction es generalizing nodes frontier with
  | nil => rfl
  | cons e es ih =>
    cases h : dependent affected id e with
    | none => simpa [pushDependent, h] using ih nodes frontier
    | some n =>
      by_cases hmem : n ∈ nodes
      · simpa [pushDependent, h, meet, hmem] using ih nodes frontier
      · simpa [pushDependent, h, meet, hmem] using ih (nodes ++ [n]) (frontier ++ [(n, depth)])

section

variable (graph : ConceptGraph)

theorem scopeLoop_eq (affected : AffectedSubgraph) (rounds : Nat)
    (nodes : List NodeId) (frontier : List (NodeId × Nat)) :
    scopeLoop graph affected rounds nodes (frontier.map Prod.fst) =
      walk (scopeNext graph affected) rounds nodes frontier := by
  induction rounds generalizing nodes frontier with
  | zero => rfl
  | succ rounds ih =>
    cases frontier with
    | nil => rfl
    | cons entry frontier =>
      obtain ⟨id, depth⟩ := entry
      have hpush := foldl_pushDependent affected id (graph.getEdges id) (depth+1) nodes frontier
      simp only [List.map_cons, scopeLoop, walk, scopeNext, hpush, ih]

def presentAnchors (event : ChangeEvent) : List NodeId :=
  event.anchors.filter fun a => (graph.getNode a).isSome

theorem foldl_seedAnchor (anchors : List NodeId) (s : AffectedSubgraph × List (NodeId × Nat)) :
    let s' := anchors.foldl (seedAnchor graph) s
    let present := anchors.filter fun a => (graph.getNode a).isSome
    s'.2 = s.2 ++ present.map (fun a => (a, 0)) ∧
      ∀ v, v ∈ s'.1.nodes ↔ v ∈ s.1.nodes ∨ v ∈ present := by
  induction anchors generalizing s with
  | nil => simp
  | cons a anchors ih =>
    obtain ⟨hfrontier, hnodes⟩ := ih (seedAnchor graph s a)
    cases h : (graph.getNode a).isSome with
    | false => simpa [seedAnchor, h] using ih s
    | true =>
      simp only [seedAnchor, h, if_true] at hfrontier hnodes
      simp only [List.foldl_cons, seedAnchor, h, if_true, List.filter_cons, List.map_cons]
      refine ⟨by rw [hfrontier]; simp, fun v => ?_⟩
      rw [hnodes, mem_insertNew, List.mem_cons]
      tauto

theorem foldl_scopeAnchors (anchors out : List NodeId) (hout : out.Nodup) :
    let out' := anchors.foldl
      (fun out a => if (graph.getNode a).isSome then insertNew out a else out) out
    out'.Nodup ∧
      ∀ v, v ∈ out' ↔ v ∈ out ∨ v ∈ anchors.filter fun a => (graph.getNode a).isSome := by
  induction anchors generalizing out with
  | nil => simpa using hout
  | cons a anchors ih =>
    cases h : (graph.getNode a).isSome with
    | false => simpa [h] using ih out hout
    | true =>
      obtain ⟨hnodup, hmem⟩ := ih (insertNew out a) (nodup_insertNew hout a)
      simp only [List.foldl_cons, h, if_true, List.filter_cons]
      refine ⟨hnodup, fun v => ?_⟩
      rw [hmem, mem_insertNew, List.mem_cons]
      tauto

/-- What the graph says is derived from a node. -/
def Dependent (source n : NodeId) : Prop :=
  ∃ e, graph.edges.lookup e.id = some e ∧ e.relation = .derivedFrom ∧ e.toNode = source ∧
    e.fromNode = n

/-- A node is a number of `derived_from` steps away from a present anchor. -/
def DerivedInSteps (event : ChangeEvent) (k : Nat) (n : NodeId) : Prop :=
  ∃ a ∈ presentAnchors graph event, Steps (Dependent graph) k a n

end

theorem follows_dependent {graph : ConceptGraph} (hg : graph.Built) {u v : NodeId}
    (h : Dependent graph u v) (depth : Nat) :
    v ∈ (graph.getEdges u).filterMap (follows u depth) ∨ v = u := by
  obtain ⟨e, hlookup, hrelation, rfl, rfl⟩ := h
  by_cases hne : e.fromNode = e.toNode
  · exact .inr hne
  · have hmem := (hg.mem_getEdges_iff (.inr rfl)).mpr hlookup
    exact .inl (List.mem_filterMap.mpr ⟨e, hmem, by simp [follows, hne, hrelation]⟩)

theorem mem_scopeNext {graph : ConceptGraph} (hg : graph.Built) {affected : AffectedSubgraph}
    {u v : NodeId} {depth : Nat} :
    v ∈ scopeNext graph affected u depth ↔ Dependent graph u v ∧ v ∈ affected.nodes := by
  simp only [scopeNext, List.mem_filterMap, dependent, Dependent]
  constructor
  · rintro ⟨e, hmem, he⟩
    split at he
    · cases he
    · split at he
      · cases he
      · split at he
        · cases he
        · rename_i hrelation hto hin
          obtain rfl := Option.some.inj he
          have hto : e.toNode = u := by simpa using hto
          refine ⟨⟨e, (hg.mem_getEdges_iff (.inr hto)).mp hmem, by simpa using hrelation, hto, rfl⟩,
            by simpa [containsNode] using hin⟩
  · rintro ⟨⟨e, hlookup, hrelation, hto, rfl⟩, hin⟩
    refine ⟨e, (hg.mem_getEdges_iff (.inr hto)).mpr hlookup, ?_⟩
    simp [hrelation, hto, containsNode, hin]

def edgeEnds (graph : ConceptGraph) : Finset NodeId :=
  (graph.edges.rows.flatMap fun row => [row.2.fromNode, row.2.toNode]).toFinset

theorem mem_edgeEnds {graph : ConceptGraph} {n : NodeId} {e : ConceptEdge}
    (h : e ∈ graph.getEdges n) : e.fromNode ∈ edgeEnds graph ∧ e.toNode ∈ edgeEnds graph := by
  obtain ⟨id, hid⟩ := ConceptGraph.Wired.mem_getEdges h
  have hrow := Table.mem_rows_iff.mpr hid
  simp only [edgeEnds, List.mem_toFinset, List.mem_flatMap]
  exact ⟨⟨_, hrow, by simp⟩, ⟨_, hrow, by simp⟩⟩

theorem affectedNext_subset (engine : IncrementalUpdateEngine) (graph : ConceptGraph)
    (u : NodeId) (depth : Nat) : ∀ v ∈ affectedNext engine graph u depth, v ∈ edgeEnds graph := by
  intro v hv
  unfold affectedNext at hv
  split at hv
  · cases hv
  · obtain ⟨e, he, hfollows⟩ := List.mem_filterMap.mp hv
    have hends := mem_edgeEnds he
    have hv : v = e.fromNode ∨ v = e.toNode := by
      simp only [follows] at hfollows
      grind
    rcases hv with rfl | rfl
    · exact hends.1
    · exact hends.2

theorem scopeNext_subset (graph : ConceptGraph) (affected : AffectedSubgraph) (u : NodeId)
    (depth : Nat) : ∀ v ∈ scopeNext graph affected u depth, v ∈ edgeEnds graph := by
  intro v hv
  obtain ⟨e, he, hdependent⟩ := List.mem_filterMap.mp hv
  have hv : v = e.fromNode := by
    simp only [dependent] at hdependent
    grind
  exact hv ▸ (mem_edgeEnds he).1

theorem presentAnchors_of_isEmpty (graph : ConceptGraph) {event : ChangeEvent}
    (h : event.anchors.isEmpty) : presentAnchors graph event = [] := by
  rw [presentAnchors, List.isEmpty_iff.mp h, List.filter_nil]

/-- With enough rounds the first walk ends. It meets the present anchors and all that is derived
from one in as many steps as the engine allows. -/
theorem affectedSubgraph_ends {graph : ConceptGraph} (hg : graph.Built)
    (engine : IncrementalUpdateEngine) (event : ChangeEvent) :
    ∃ affected enough,
      (∀ rounds ≥ enough, affectedSubgraph engine graph event rounds = some affected) ∧
      ∀ n k, DerivedInSteps graph event k n → k ≤ engine.maxPropagationDepth →
        n ∈ affected.nodes := by
  by_cases hempty : event.anchors.isEmpty
  · obtain ⟨affected, haffected⟩ : ∃ affected, ∀ rounds,
        affectedSubgraph engine graph event rounds = some affected := by
      simp only [affectedSubgraph, hempty, if_true]
      split
      · exact ⟨_, fun _ => rfl⟩
      · exact ⟨_, fun _ => rfl⟩
      · exact ⟨_, fun _ => rfl⟩
    refine ⟨affected, 0, fun rounds _ => haffected rounds, fun n k h => ?_⟩
    obtain ⟨a, ha, -⟩ := h
    simp [presentAnchors_of_isEmpty graph hempty] at ha
  · obtain ⟨hfrontier, hnodes⟩ := foldl_seedAnchor graph event.anchors (.empty, [])
    have heq : ∀ rounds, affectedSubgraph engine graph event rounds =
        affectedLoop engine graph rounds (event.anchors.foldl (seedAnchor graph) (.empty, [])).1
          ((presentAnchors graph event).map fun a => (a, 0)) := by
      intro rounds
      rw [List.nil_append] at hfrontier
      simp only [affectedSubgraph, if_neg hempty, presentAnchors, ← hfrontier]
    generalize (event.anchors.foldl (seedAnchor graph) (.empty, [])).1 = seeded at heq hnodes
    have hmet : ∀ v, v ∈ seeded.nodes ↔ v ∈ presentAnchors graph event := by
      simpa [empty, presentAnchors] using hnodes
    obtain ⟨out, enough, hwalk⟩ := walk_ends (affectedNext_subset engine graph) seeded.nodes
      ((presentAnchors graph event).map fun a => (a, 0))
    have hwalk := hwalk enough (Nat.le_refl _)
    have hloop := affectedLoop_nodes engine graph enough seeded
      ((presentAnchors graph event).map fun a => (a, 0))
    rw [hwalk, Option.map_eq_some_iff] at hloop
    obtain ⟨affected, haffected, rfl⟩ := hloop
    refine ⟨affected, enough, fun rounds hle => ?_, fun n k h hk => ?_⟩
    · rw [heq]
      exact affectedLoop_mono haffected hle
    · obtain ⟨a, ha, hsteps⟩ := h
      refine walk_complete (fun u depth hlt v hv => ?_) ha hmet hwalk hsteps hk
      rw [affectedNext, if_neg (Nat.not_le.mpr hlt)]
      exact follows_dependent hg hv depth

theorem steps_within {graph : ConceptGraph} {event : ChangeEvent} {affected : List NodeId}
    {limit : Nat} (h : ∀ n k, DerivedInSteps graph event k n → k ≤ limit → n ∈ affected)
    {a n : NodeId} (ha : a ∈ presentAnchors graph event) {k : Nat}
    (hs : Steps (Dependent graph) k a n) (hk : k ≤ limit) :
    Steps (fun u v => Dependent graph u v ∧ v ∈ affected) k a n := by
  induction hs with
  | refl => exact .refl _
  | @tail k a b c hs hstep ih =>
    exact .tail (ih ha (by omega)) ⟨hstep, h c _ ⟨a, ha, .tail hs hstep⟩ hk⟩

/-- With enough rounds the second walk ends: at the present anchors and what is derived from them
through affected nodes, in any number of steps. -/
theorem recomputeScope_ends {graph : ConceptGraph} (hg : graph.Built) (event : ChangeEvent)
    (affected : AffectedSubgraph) :
    ∃ scope enough,
      (∀ rounds ≥ enough, recomputeScope graph event affected rounds = some scope) ∧
      scope.Nodup ∧
      (∀ n ∈ scope, (n ∈ presentAnchors graph event ∨ n ∈ affected.nodes) ∧
        ∃ k, DerivedInSteps graph event k n) ∧
      ∀ a ∈ presentAnchors graph event, ∀ n k,
        Steps (fun u v => Dependent graph u v ∧ v ∈ affected.nodes) k a n → n ∈ scope := by
  obtain ⟨hnodup, hmem⟩ := foldl_scopeAnchors graph event.anchors [] List.nodup_nil
  have heq : ∀ rounds, recomputeScope graph event affected rounds =
      let starts := event.anchors.foldl
        (fun out a => if (graph.getNode a).isSome then insertNew out a else out) []
      walk (scopeNext graph affected) rounds starts (starts.map fun a => (a, 0)) := by
    intro rounds
    dsimp only
    rw [← scopeLoop_eq, List.map_map, recomputeScope]
    congr 1
    exact (List.map_id _).symm
  dsimp only at heq hmem
  generalize event.anchors.foldl (fun out a =>
    if (graph.getNode a).isSome then insertNew out a else out) [] = starts at heq hnodup hmem
  have hmem : ∀ v, v ∈ starts ↔ v ∈ presentAnchors graph event := by
    simpa [presentAnchors] using hmem
  obtain ⟨scope, enough, hwalk⟩ := walk_ends (scopeNext_subset graph affected) starts
    (starts.map fun a => (a, 0))
  have hends := hwalk enough (Nat.le_refl _)
  refine ⟨scope, enough, fun rounds hle => (heq rounds).trans (hwalk rounds hle),
    walk_nodup hnodup hends, ?_, fun a ha n k hs => ?_⟩
  · have hstart : ∀ v ∈ starts, (v ∈ presentAnchors graph event ∨ v ∈ affected.nodes) ∧
        ∃ k, DerivedInSteps graph event k v := fun v hv =>
      ⟨.inl ((hmem v).mp hv), 0, v, (hmem v).mp hv, .refl v⟩
    refine walk_sound (fun u depth hu v hv => ?_) hstart (by simpa using hstart) hends
    obtain ⟨-, k, a, ha, hsteps⟩ := hu
    obtain ⟨hdependent, hin⟩ := (mem_scopeNext hg).mp hv
    exact ⟨.inr hin, k+1, a, ha, .tail hsteps hdependent⟩
  · refine walk_complete (fun u depth _ v hv => .inl ?_) ((hmem a).mpr ha) (fun _ => Iff.rfl) hends
      hs (Nat.le_refl k)
    exact (mem_scopeNext hg).mpr hv

/-- Both walks end. The scope is what is derived from a present anchor, with everything that is
within the engine's depth, and lies within what was affected. -/
theorem recomputeScope_exact {graph : ConceptGraph} (hg : graph.Built)
    (engine : IncrementalUpdateEngine) (event : ChangeEvent) :
    ∃ affected scope enough,
      (∀ rounds ≥ enough, affectedSubgraph engine graph event rounds = some affected ∧
        recomputeScope graph event affected rounds = some scope) ∧
      (∀ n ∈ scope, ∃ k, DerivedInSteps graph event k n) ∧
      (∀ n k, DerivedInSteps graph event k n → k ≤ engine.maxPropagationDepth → n ∈ scope) ∧
      (∀ n ∈ scope, n ∈ affected.nodes) ∧
      scope.Nodup := by
  obtain ⟨affected, few, haffected, hcomplete⟩ := affectedSubgraph_ends hg engine event
  obtain ⟨scope, many, hscope, hnodup, hsound, hreach⟩ := recomputeScope_ends hg event affected
  refine ⟨affected, scope, max few many, fun rounds hle => ?_, fun n hn => (hsound n hn).2,
    fun n k h hk => ?_, fun n hn => ?_, hnodup⟩
  · exact ⟨haffected rounds (by omega), hscope rounds (by omega)⟩
  · obtain ⟨a, ha, hsteps⟩ := h
    exact hreach a ha n k (steps_within hcomplete ha hsteps hk)
  · rcases (hsound n hn).1 with hanchor | hin
    · exact hcomplete n 0 ⟨n, hanchor, .refl n⟩ (Nat.zero_le _)
    · exact hin

/-- Four nodes, each derived from the one before, and the first from the last and from itself. -/
def ring : ConceptGraph :=
  let node (id : NodeId) : ConceptNode := ⟨id, "plan", "the plan", 7, .canonical, none, 5, 5⟩
  let edge (id source n : NodeId) : ConceptEdge := ⟨id, n, source, .derivedFrom, 7, 6⟩
  let g := [node 1, node 2, node 3, node 4].foldl (fun g n => (g.addNode n).1) .new
  [edge 11 1 2, edge 12 2 3, edge 13 3 4, edge 14 4 1, edge 15 1 1].foldl
    (fun g e => (g.addEdge e).1) g

theorem ring_built : ring.Built :=
  (((((((((ConceptGraph.Built.new.addNode _).addNode _).addNode _).addNode _).addEdge _).addEdge
    _).addEdge _).addEdge _).addEdge _)

theorem recomputeScope_exact_ring :
    ∃ affected scope enough,
      (∀ rounds ≥ enough,
        affectedSubgraph ⟨2⟩ ring (.nodeSuperseded 1 1) rounds = some affected ∧
          recomputeScope ring (.nodeSuperseded 1 1) affected rounds = some scope) ∧
      3 ∈ scope ∧ (∀ n ∈ scope, n ∈ affected.nodes) ∧ scope.Nodup := by
  obtain ⟨affected, scope, enough, hends, -, hcomplete, hsub, hnodup⟩ :=
    recomputeScope_exact ring_built ⟨2⟩ (.nodeSuperseded 1 1)
  have hsteps : Steps (Dependent ring) 2 1 3 := by
    refine .tail (.tail (.refl 1) (b := 1) (c := 2) ⟨⟨11, 2, 1, .derivedFrom, 7, 6⟩, ?_⟩)
      ⟨⟨12, 3, 2, .derivedFrom, 7, 6⟩, ?_⟩
    · decide +kernel
    · decide +kernel
  exact ⟨affected, scope, enough, hends,
    hcomplete 3 2 ⟨1, by decide +kernel, hsteps⟩ (Nat.le_refl 2), hsub, hnodup⟩

/-- The walk from node 1 does not get to node 3, whose source is affected. -/
example : (affectedSubgraph ⟨1⟩ ring (.nodePromoted 1) 5).bind
    (recomputeScope ring (.nodePromoted 1) · 5) = some [1, 2] := by decide +kernel

end Knowledge.Concept
