import Knowledge.Concept.Graph

/-!
The graphs that the calls of `ConceptGraph` lead to. An edge may be added under an id that is
taken, and the indexes then keep the id at the ends of the old edge as well; at the ends of each
edge of the graph they list it in any case.
-/

set_option autoImplicit false

namespace Knowledge.Concept.ConceptGraph

/-- `get_node_mut` gives a caller any node to write in place of the old one; `supersede_node` and
`mark_contradiction` are made of such writes and of `add_edge`. -/
inductive Built : ConceptGraph → Prop where
  | new : Built .new
  | addNode {g : ConceptGraph} (node : ConceptNode) : Built g → Built (g.addNode node).1
  | addEdge {g : ConceptGraph} (edge : ConceptEdge) : Built g → Built (g.addEdge edge).1
  | removeNode {g : ConceptGraph} (id : NodeId) : Built g → Built (g.removeNode id).1
  | removeEdge {g : ConceptGraph} (id : EdgeId) : Built g → Built (g.removeEdge id).1
  | getNodeMut {g : ConceptGraph} (id : NodeId) (node : ConceptNode) :
    (g.getNode id).isSome → Built g → Built (g.setNode id node)

def Listed (m : Adjacency) (n : NodeId) (e : EdgeId) : Prop := e ∈ (m.lookup n).getD []

/-- Each edge but some is stored under its id and listed at both of its ends. -/
structure IndexedBut (except : List EdgeId) (g : ConceptGraph) : Prop where
  edgeId : ∀ id edge, g.edges.lookup id = some edge → edge.id = id
  outgoing : ∀ id edge, g.edges.lookup id = some edge → id ∉ except →
    Listed g.outgoing edge.fromNode id
  incoming : ∀ id edge, g.edges.lookup id = some edge → id ∉ except →
    Listed g.incoming edge.toNode id

abbrev Indexed : ConceptGraph → Prop := IndexedBut []

theorem listed_push {m : Adjacency} {n k : NodeId} {e e' : EdgeId} (h : Listed m k e') :
    Listed (m.push n e) k e' := by
  simp only [Listed, Adjacency.lookup_push]
  split
  · rename_i hk
    subst hk
    simpa using .inl h
  · exact h

theorem listed_push_self (m : Adjacency) (n : NodeId) (e : EdgeId) : Listed (m.push n e) n e := by
  simp [Listed, Adjacency.lookup_push]

theorem listed_retain {m : Adjacency} {n k : NodeId} {e e' : EdgeId} (h : Listed m k e')
    (hne : e' ≠ e) : Listed (m.retain n e) k e' := by
  simp only [Listed, Adjacency.lookup_retain] at h ⊢
  split
  · rename_i hk
    subst hk
    cases hl : m.lookup k with
    | none => simp [hl] at h
    | some ids => simpa [hl, hne] using h
  · exact h

theorem listed_orDefault {m : Adjacency} {n k : NodeId} {e : EdgeId} (h : Listed m k e) :
    Listed (m.orDefault n) k e := by
  simp only [Listed, Adjacency.lookup_orDefault] at h ⊢
  split
  · rename_i hk
    subst hk
    exact h
  · exact h

theorem listed_erase {m : Adjacency} {n k : NodeId} {e : EdgeId} (h : Listed m k e)
    (hnot : ¬Listed m n e) : Listed (m.erase n) k e := by
  have hne : k ≠ n := by
    rintro rfl
    exact hnot h
  simpa [Listed, Table.lookup_erase_ite, hne] using h

section

variable {g : ConceptGraph}

theorem IndexedBut.addEdge (h : Indexed g) (edge : ConceptEdge) :
    Indexed (g.addEdge edge).1 := by
  obtain ⟨err, heq⟩ | ⟨hfrom, hto⟩ := g.addEdge_cases edge
  · rw [heq]
    exact h
  rw [addEdge_of_present hfrom hto]
  have hlookup : ∀ id e, (g.edges.insert edge.id edge).lookup id = some e →
      (id = edge.id ∧ e = edge) ∨ g.edges.lookup id = some e := by
    intro id e hl
    rw [Table.lookup_insert_ite] at hl
    split at hl
    · exact .inl ⟨‹_›, (Option.some.inj hl).symm⟩
    · exact .inr hl
  refine ⟨fun id e hl => ?_, fun id e hl hnot => ?_, fun id e hl hnot => ?_⟩
  · obtain ⟨rfl, rfl⟩ | hold := hlookup id e hl
    · rfl
    · exact h.edgeId id e hold
  · obtain ⟨rfl, rfl⟩ | hold := hlookup id e hl
    · exact listed_push_self _ _ _
    · exact listed_push (h.outgoing id e hold hnot)
  · obtain ⟨rfl, rfl⟩ | hold := hlookup id e hl
    · exact listed_push_self _ _ _
    · exact listed_push (h.incoming id e hold hnot)

theorem IndexedBut.dropEdge {id : EdgeId} {except : List EdgeId}
    (h : IndexedBut (id :: except) g) : IndexedBut except (g.dropEdge id) := by
  cases hid : g.edges.lookup id with
  | none =>
    have hne : ∀ k edge, g.edges.lookup k = some edge → k ∉ except → k ∉ id :: except := by
      intro k edge hk hnot
      rw [List.mem_cons, not_or]
      refine ⟨?_, hnot⟩
      rintro rfl
      rw [hid] at hk
      cases hk
    simp only [ConceptGraph.dropEdge, hid]
    exact ⟨h.edgeId, fun k edge hk hnot => h.outgoing k edge hk (hne k edge hk hnot),
      fun k edge hk hnot => h.incoming k edge hk (hne k edge hk hnot)⟩
  | some old =>
    have hlookup : ∀ k edge, (g.edges.erase id).lookup k = some edge →
        k ≠ id ∧ g.edges.lookup k = some edge := by
      intro k edge hk
      rw [Table.lookup_erase_ite] at hk
      split at hk
      · cases hk
      · exact ⟨‹_›, hk⟩
    simp only [ConceptGraph.dropEdge, hid]
    refine ⟨fun k edge hk => h.edgeId k edge (hlookup k edge hk).2, fun k edge hk hnot => ?_,
      fun k edge hk hnot => ?_⟩
    · obtain ⟨hne, hold⟩ := hlookup k edge hk
      exact listed_retain (h.outgoing k edge hold (by simp [hne, hnot])) hne
    · obtain ⟨hne, hold⟩ := hlookup k edge hk
      exact listed_retain (h.incoming k edge hold (by simp [hne, hnot])) hne

theorem IndexedBut.dropEdges {ids : List EdgeId} (h : IndexedBut ids g) :
    Indexed (ids.foldl ConceptGraph.dropEdge g) := by
  induction ids generalizing g with
  | nil => exact h
  | cons id ids ih => exact ih h.dropEdge

theorem IndexedBut.mono {few many : List EdgeId} (h : IndexedBut few g)
    (hsub : ∀ id ∈ few, id ∈ many) : IndexedBut many g :=
  ⟨h.edgeId, fun id edge hl hnot => h.outgoing id edge hl fun hin => hnot (hsub id hin),
    fun id edge hl hnot => h.incoming id edge hl fun hin => hnot (hsub id hin)⟩

theorem indexed_of_built (h : Built g) : Indexed g := by
  induction h with
  | new =>
    exact ⟨by simp [ConceptGraph.new], by simp [ConceptGraph.new], by simp [ConceptGraph.new]⟩
  | @addNode g node _ ih =>
    by_cases hpresent : (g.nodes.lookup node.id).isSome
    · simpa only [addNode, hpresent, if_true] using ih
    · rw [addNode_of_absent (by simpa using hpresent)]
      exact ⟨ih.edgeId, fun id edge hl hnot => listed_orDefault (ih.outgoing id edge hl hnot),
        fun id edge hl hnot => listed_orDefault (ih.incoming id edge hl hnot)⟩
  | addEdge edge _ ih => exact ih.addEdge edge
  | @removeNode g id _ ih =>
    cases hid : g.nodes.lookup id with
    | none => simpa only [removeNode, hid] using ih
    | some node =>
      simp only [removeNode, hid]
      refine IndexedBut.dropEdges ⟨ih.edgeId, fun k edge hl hnot => ?_, fun k edge hl hnot => ?_⟩
      · simp only [List.mem_dedup, List.mem_append, not_or] at hnot
        exact listed_erase (ih.outgoing k edge hl (List.not_mem_nil)) hnot.1
      · simp only [List.mem_dedup, List.mem_append, not_or] at hnot
        exact listed_erase (ih.incoming k edge hl (List.not_mem_nil)) hnot.2
  | @removeEdge g id _ ih =>
    cases hid : g.edges.lookup id with
    | none => simpa only [removeEdge, hid] using ih
    | some edge =>
      simp only [removeEdge, hid]
      have hbut : IndexedBut [id] g := ih.mono (by simp)
      exact hbut.dropEdge
  | getNodeMut id node _ _ ih => exact ⟨ih.edgeId, ih.outgoing, ih.incoming⟩

theorem Built.mem_getEdges_iff (h : Built g) {n : NodeId} {edge : ConceptEdge}
    (hn : edge.fromNode = n ∨ edge.toNode = n) :
    edge ∈ g.getEdges n ↔ g.edges.lookup edge.id = some edge := by
  have hindexed := indexed_of_built h
  simp only [getEdges, List.mem_append, List.mem_filterMap]
  constructor
  · rintro (⟨id, -, hid⟩ | ⟨id, -, hid⟩)
    · rw [hindexed.edgeId id edge hid, hid]
    · rw [hindexed.edgeId id edge hid, hid]
  · intro hid
    obtain rfl | rfl := hn
    · exact .inl ⟨edge.id, hindexed.outgoing edge.id edge hid List.not_mem_nil, hid⟩
    · exact .inr ⟨edge.id, hindexed.incoming edge.id edge hid List.not_mem_nil, hid⟩

end

end Knowledge.Concept.ConceptGraph
