import Knowledge.Concept.Built
import Knowledge.Concept.Projection
import Knowledge.Lib.Dedup

/-!
The representation invariant of `ConceptGraph`: each index lists every edge once, at its end, and
nothing else. An edge added under the id of a stored one breaks it.
-/

set_option autoImplicit false

namespace Knowledge.Concept
open Knowledge.Dedup (insertNew mem_foldl_insertNew nodup_foldl_insertNew)
open Knowledge.Transition

namespace Adjacency

def times (m : Adjacency) (n : NodeId) (e : EdgeId) : Nat := ((m.lookup n).getD []).count e

section

variable (m : Adjacency) (n k : NodeId)

theorem times_push (e x : EdgeId) :
    (m.push n e).times k x = m.times k x + if k = n ∧ x = e then 1 else 0 := by
  simp only [times, lookup_push]
  by_cases hk : k = n
  · subst hk
    by_cases hx : x = e
    · simp [hx]
    · simp [hx, Ne.symm hx]
  · simp [hk]

theorem times_retain (e x : EdgeId) :
    (m.retain n e).times k x = if k = n ∧ x = e then 0 else m.times k x := by
  simp only [times, lookup_retain]
  by_cases hk : k = n
  · subst hk
    cases m.lookup k with
    | none => simp
    | some ids =>
      by_cases hx : x = e
      · simp [hx, List.count_eq_zero]
      · simp [hx, List.count_filter]
  · simp [hk]

theorem times_orDefault (e : EdgeId) :
    (m.orDefault n).times k e = m.times k e := by
  simp only [times, lookup_orDefault]
  by_cases hk : k = n
  · subst hk
    simp
  · simp [hk]

theorem times_erase (e : EdgeId) :
    times (m.erase n) k e = if k = n then 0 else m.times k e := by
  simp only [times, Table.lookup_erase_ite]
  split <;> simp

end

theorem times_pos_iff {m : Adjacency} {n : NodeId} {e : EdgeId} :
    0 < m.times n e ↔ ConceptGraph.Listed m n e := by
  simp [times, ConceptGraph.Listed, List.count_pos_iff]

end Adjacency

open Adjacency

/-- An index lists at each node the edges with that end, each once, and nothing else. -/
def Exact (ends : ConceptEdge → NodeId) (edges : Table EdgeId ConceptEdge) (m : Adjacency) : Prop :=
  ∀ n e, m.times n e = if (edges.lookup e).any (fun edge => ends edge = n) then 1 else 0

section

variable {ends : ConceptEdge → NodeId}

theorem Exact.push {edges : Table EdgeId ConceptEdge} {m : Adjacency}
    (h : Exact ends edges m) {edge : ConceptEdge} (hnew : edges.lookup edge.id = none) :
    Exact ends (edges.insert edge.id edge) (m.push (ends edge) edge.id) := by
  intro n e
  rw [times_push, h n e, Table.lookup_insert_ite]
  by_cases he : e = edge.id
  · subst he
    simp [hnew, eq_comm]
  · simp [he]

theorem Exact.of_push {edges : Table EdgeId ConceptEdge} {m : Adjacency} {edge : ConceptEdge}
    (h : Exact ends (edges.insert edge.id edge) (m.push (ends edge) edge.id))
    (hlisted : ∀ old, edges.lookup edge.id = some old → ConceptGraph.Listed m (ends old) edge.id) :
    edges.lookup edge.id = none ∧ Exact ends edges m := by
  have hcount : ∀ n e, m.times n e + (if n = ends edge ∧ e = edge.id then 1 else 0) =
      if (if e = edge.id then some edge else edges.lookup e).any (fun edge => ends edge = n)
      then 1 else 0 := by
    intro n e
    rw [← times_push, h n e, Table.lookup_insert_ite]
  have hnew : edges.lookup edge.id = none := by
    rw [Option.eq_none_iff_forall_ne_some]
    intro old hold
    have hpos := times_pos_iff.mpr (hlisted old hold)
    have hat := hcount (ends old) edge.id
    by_cases hsame : ends edge = ends old
    · simp [hsame] at hat
      omega
    · simp [hsame, Ne.symm hsame] at hat
      omega
  refine ⟨hnew, fun n e => ?_⟩
  have hat := hcount n e
  by_cases he : e = edge.id
  · subst he
    by_cases hn : ends edge = n
    · simp [hn] at hat
      simp [hat, hnew]
    · simp [hn, Ne.symm hn] at hat
      simp [hat, hnew]
  · simpa [he] using hat

/-- An exact index stays so when edges are dropped, and when a node is cut out of it with all the
edges that end there. -/
theorem Exact.dropped {edges edges' : Table EdgeId ConceptEdge}
    {m cut m' : Adjacency} {ids : List EdgeId} (h : Exact ends edges m)
    (hcut : ∀ n e, cut.times n e = m.times n e ∨ cut.times n e = 0 ∧
      ∀ edge, edges.lookup e = some edge → ends edge = n → e ∈ ids)
    (hedges : ∀ e, edges'.lookup e = if e ∈ ids then none else edges.lookup e)
    (hm : ∀ n e, m'.times n e =
      if e ∈ ids ∧ (edges.lookup e).any (fun edge => ends edge = n) then 0 else cut.times n e) :
    Exact ends edges' m' := by
  intro n e
  have hexact := h n e
  rw [hm, hedges]
  by_cases hend : (edges.lookup e).any (fun edge => ends edge = n) = true
  · by_cases he : e ∈ ids
    · simp [he, hend]
    · obtain ⟨edge, hedge, hn⟩ := (Option.any_eq_true _ _).mp hend
      rcases hcut n e with hsame | ⟨_, hin⟩
      · simpa [he, hend, hsame] using hexact
      · exact absurd (hin edge hedge (by simpa using hn)) he
  · have hzero : cut.times n e = 0 := by
      rcases hcut n e with hsame | ⟨hzero, _⟩
      · simpa [hend, hsame] using hexact
      · exact hzero
    by_cases he : e ∈ ids
    · simp [he, hend, hzero]
    · simp [he, hend, hzero]

theorem Exact.count_filterMap {edges : Table EdgeId ConceptEdge}
    {m : Adjacency} (h : Exact ends edges m)
    (hid : ∀ id edge, edges.lookup id = some edge → edge.id = id) (n : NodeId)
    (edge : ConceptEdge) : (((m.lookup n).getD []).filterMap edges.lookup).count edge =
      if edges.lookup edge.id = some edge ∧ ends edge = n then 1 else 0 := by
  have hexact := h n edge.id
  rw [times] at hexact
  rw [List.count_filterMap]
  by_cases hstored : edges.lookup edge.id = some edge
  · have hsame : ∀ id, (edges.lookup id == some edge) = (id == edge.id) := by
      intro id
      by_cases heq : id = edge.id
      · subst heq
        simp [hstored]
      · have hne : edges.lookup id ≠ some edge := fun hl => heq (hid id edge hl).symm
        simp [heq, hne]
    simp only [hsame]
    rw [List.count_eq_countP] at hexact
    simpa [hstored] using hexact
  · have hne : ∀ id, (edges.lookup id == some edge) = false := by
      intro id
      rw [beq_eq_false_iff_ne]
      intro hl
      obtain rfl := hid id edge hl
      exact hstored hl
    simp [hne, hstored]

end

namespace ConceptGraph

structure Incident (g : ConceptGraph) : Prop where
  edgeId : ∀ id edge, g.edges.lookup id = some edge → edge.id = id
  outgoing : Exact ConceptEdge.fromNode g.edges g.outgoing
  incoming : Exact ConceptEdge.toNode g.edges g.incoming
  endpoints : ∀ id edge, g.edges.lookup id = some edge →
    g.nodes.lookup edge.fromNode ≠ none ∧ g.nodes.lookup edge.toNode ≠ none

namespace Incident

variable {g : ConceptGraph}

theorem new : Incident ConceptGraph.new where
  edgeId _ _ h := by simp [ConceptGraph.new] at h
  outgoing n e := by simp [ConceptGraph.new, times]
  incoming n e := by simp [ConceptGraph.new, times]
  endpoints _ _ h := by simp [ConceptGraph.new] at h

theorem mono (h : Incident g) {g' : ConceptGraph} (hedges : g'.edges = g.edges)
    (hout : ∀ n e, g'.outgoing.times n e = g.outgoing.times n e)
    (hin : ∀ n e, g'.incoming.times n e = g.incoming.times n e)
    (hnodes : ∀ n, g.nodes.lookup n ≠ none → g'.nodes.lookup n ≠ none) : Incident g' where
  edgeId := hedges ▸ h.edgeId
  outgoing n e := by rw [hout, hedges, h.outgoing n e]
  incoming n e := by rw [hin, hedges, h.incoming n e]
  endpoints id edge hl :=
    have hends := h.endpoints id edge (hedges ▸ hl)
    ⟨hnodes _ hends.1, hnodes _ hends.2⟩

theorem setNode (h : Incident g) (id : NodeId) (node : ConceptNode) :
    Incident (g.setNode id node) := by
  refine h.mono rfl (fun _ _ => rfl) (fun _ _ => rfl) fun n hn => ?_
  simp only [ConceptGraph.setNode, Table.lookup_insert_ite]
  split
  · simp
  · exact hn

theorem addNode (h : Incident g) (node : ConceptNode) : Incident (g.addNode node).1 := by
  by_cases hpresent : (g.nodes.lookup node.id).isSome
  · simpa only [ConceptGraph.addNode, hpresent, if_true] using h
  · refine h.mono (addNode_edges g node) (fun n e => ?_) (fun n e => ?_)
      fun n hn => lookup_addNode (.inr hn)
    · simp [ConceptGraph.addNode, hpresent, times_orDefault]
    · simp [ConceptGraph.addNode, hpresent, times_orDefault]

theorem addEdge (h : Incident g) {edge : ConceptEdge} (hnew : g.edges.lookup edge.id = none) :
    Incident (g.addEdge edge).1 := by
  obtain ⟨err, heq⟩ | ⟨hfrom, hto⟩ := g.addEdge_cases edge
  · rw [heq]
    exact h
  rw [addEdge_of_present hfrom hto]
  refine ⟨fun id e hl => ?_, h.outgoing.push hnew, h.incoming.push hnew, fun id e hl => ?_⟩
  · rw [Table.lookup_insert_ite] at hl
    split at hl
    · simp_all
    · exact h.edgeId id e hl
  · rw [Table.lookup_insert_ite] at hl
    split at hl
    · obtain rfl := Option.some.inj hl
      exact ⟨hfrom, hto⟩
    · exact h.endpoints id e hl

end Incident

/-- `h` is `g` without the edges named, and without their ids at their ends. -/
structure Dropped (ids : List EdgeId) (g h : ConceptGraph) : Prop where
  nodes : h.nodes = g.nodes
  edges : ∀ e, h.edges.lookup e = if e ∈ ids then none else g.edges.lookup e
  outgoing : ∀ n e, h.outgoing.times n e =
    if e ∈ ids ∧ (g.edges.lookup e).any (fun edge => edge.fromNode = n) then 0
    else g.outgoing.times n e
  incoming : ∀ n e, h.incoming.times n e =
    if e ∈ ids ∧ (g.edges.lookup e).any (fun edge => edge.toNode = n) then 0
    else g.incoming.times n e

theorem dropped_dropEdge (g : ConceptGraph) (id : EdgeId) : Dropped [id] g (g.dropEdge id) := by
  cases hid : g.edges.lookup id with
  | none =>
    simp only [ConceptGraph.dropEdge, hid]
    have hnone : ∀ e, e ∈ [id] → g.edges.lookup e = none := by
      intro e he
      rwa [List.mem_singleton.mp he]
    refine ⟨rfl, fun e => ?_, fun n e => ?_, fun n e => ?_⟩
    · split
      · rw [hnone e ‹_›]
      · rfl
    · rw [if_neg]
      rintro ⟨he, hend⟩
      simp [hnone e he] at hend
    · rw [if_neg]
      rintro ⟨he, hend⟩
      simp [hnone e he] at hend
  | some edge =>
    simp only [ConceptGraph.dropEdge, hid]
    refine ⟨rfl, fun e => ?_, fun n e => ?_, fun n e => ?_⟩
    · simp [Table.lookup_erase_ite]
    · rw [times_retain]
      by_cases he : e = id
      · subst he
        simp [hid, eq_comm]
      · simp [he]
    · rw [times_retain]
      by_cases he : e = id
      · subst he
        simp [hid, eq_comm]
      · simp [he]

theorem dropped_cons {id : EdgeId} {ids : List EdgeId} {g h k : ConceptGraph}
    (h₁ : Dropped [id] g h) (h₂ : Dropped ids h k) : Dropped (id :: ids) g k := by
  refine ⟨h₂.nodes.trans h₁.nodes, fun e => ?_, fun n e => ?_, fun n e => ?_⟩
  · rw [h₂.edges, h₁.edges]
    by_cases he : e = id <;> simp [he]
  · rw [h₂.outgoing, h₁.outgoing, h₁.edges]
    by_cases he : e = id <;> simp [he]
  · rw [h₂.incoming, h₁.incoming, h₁.edges]
    by_cases he : e = id <;> simp [he]

theorem dropped_foldl (ids : List EdgeId) (g : ConceptGraph) :
    Dropped ids g (ids.foldl dropEdge g) := by
  induction ids generalizing g with
  | nil => exact ⟨rfl, fun e => by simp, fun n e => by simp, fun n e => by simp⟩
  | cons id ids ih => exact dropped_cons (dropped_dropEdge g id) (ih _)

namespace Incident

variable {g : ConceptGraph}

theorem dropped (h : Incident g) {g' : ConceptGraph} {ids : List EdgeId} (hd : Dropped ids g g') :
    Incident g' where
  edgeId id edge hl := by
    rw [hd.edges] at hl
    split at hl
    · cases hl
    · exact h.edgeId id edge hl
  outgoing := h.outgoing.dropped (fun _ _ => .inl rfl) hd.edges hd.outgoing
  incoming := h.incoming.dropped (fun _ _ => .inl rfl) hd.edges hd.incoming
  endpoints id edge hl := by
    rw [hd.edges] at hl
    rw [hd.nodes]
    split at hl
    · cases hl
    · exact h.endpoints id edge hl

theorem removeEdge (h : Incident g) (id : EdgeId) : Incident (g.removeEdge id).1 := by
  unfold ConceptGraph.removeEdge
  split
  · exact h
  · exact h.dropped (dropped_dropEdge g id)

theorem mem_listed (h : Incident g) {n : NodeId} {e : EdgeId} :
    e ∈ (g.outgoing.lookup n).getD [] ++ (g.incoming.lookup n).getD [] ↔
      ∃ edge, g.edges.lookup e = some edge ∧ (edge.fromNode = n ∨ edge.toNode = n) := by
  have hout := h.outgoing n e
  have hin := h.incoming n e
  rw [List.mem_append, ← List.count_pos_iff, ← List.count_pos_iff]
  change 0 < g.outgoing.times n e ∨ 0 < g.incoming.times n e ↔ _
  rw [hout, hin]
  cases g.edges.lookup e with
  | none => simp
  | some edge => by_cases hf : edge.fromNode = n <;> by_cases ht : edge.toNode = n <;> simp [hf, ht]

theorem removeNode (h : Incident g) (id : NodeId) : Incident (g.removeNode id).1 := by
  cases hid : g.nodes.lookup id with
  | none => simpa only [ConceptGraph.removeNode, hid] using h
  | some node =>
    simp only [ConceptGraph.removeNode, hid]
    set ids := ((g.outgoing.lookup id).getD [] ++ (g.incoming.lookup id).getD []).dedup with hids
    have hmem : ∀ e, e ∈ ids ↔
        ∃ edge, g.edges.lookup e = some edge ∧ (edge.fromNode = id ∨ edge.toNode = id) := by
      intro e
      rw [hids, List.mem_dedup, h.mem_listed]
    have hd := dropped_foldl ids { g with
      nodes := g.nodes.erase id
      outgoing := g.outgoing.erase id
      incoming := g.incoming.erase id }
    have hkept : ∀ e, e ∉ ids → ∀ edge, g.edges.lookup e = some edge →
        edge.fromNode ≠ id ∧ edge.toNode ≠ id := by
      intro e he edge hedge
      rw [hmem] at he
      exact ⟨fun hf => he ⟨edge, hedge, .inl hf⟩, fun ht => he ⟨edge, hedge, .inr ht⟩⟩
    have hcut : ∀ (m : Adjacency) (ends : ConceptEdge → NodeId),
        (∀ edge, ends edge = id → edge.fromNode = id ∨ edge.toNode = id) → ∀ n e,
        times (m.erase id) n e = m.times n e ∨ times (m.erase id) n e = 0 ∧
          ∀ edge, g.edges.lookup e = some edge → ends edge = n → e ∈ ids := by
      intro m ends hends n e
      rw [times_erase]
      by_cases hn : n = id
      · subst hn
        exact .inr ⟨if_pos rfl, fun edge hedge hend => (hmem e).mpr ⟨edge, hedge, hends edge hend⟩⟩
      · exact .inl (if_neg hn)
    refine ⟨fun e edge hl => ?_,
      h.outgoing.dropped (hcut g.outgoing _ fun _ hf => .inl hf) hd.edges hd.outgoing,
      h.incoming.dropped (hcut g.incoming _ fun _ ht => .inr ht) hd.edges hd.incoming,
      fun e edge hl => ?_⟩
    · rw [hd.edges] at hl
      split at hl
      · cases hl
      · exact h.edgeId e edge hl
    · rw [hd.edges] at hl
      rw [hd.nodes]
      split at hl
      · cases hl
      · rename_i he
        obtain ⟨hf, ht⟩ := hkept e he edge hl
        rw [Table.lookup_erase_ite, if_neg hf, Table.lookup_erase_ite, if_neg ht]
        exact h.endpoints e edge hl

theorem indexed (h : Incident g) : Indexed g := by
  refine ⟨h.edgeId, fun id edge hl _ => ?_, fun id edge hl _ => ?_⟩
  · rw [← times_pos_iff, h.outgoing, hl]
    simp
  · rw [← times_pos_iff, h.incoming, hl]
    simp

theorem supersedeNode (h : Incident g) (predecessor successor : NodeId) {edgeId : EdgeId}
    (stamped created : Int) (hnew : g.edges.lookup edgeId = none) :
    Incident (g.supersedeNode predecessor successor edgeId stamped created).1 := by
  obtain ⟨err, heq⟩ | ⟨pred, succ, _, _, _, heq⟩ :=
    g.supersedeNode_cases predecessor successor edgeId stamped created
  · rw [heq]
    exact h
  · rw [heq]
    exact (h.setNode predecessor _).addEdge hnew

end Incident

/-- Adding an edge to a graph that lists its edges leaves the invariant where it held before and
the id is new, and not otherwise. -/
theorem incident_addEdge_iff {g : ConceptGraph} (h : Indexed g) {edge : ConceptEdge}
    (hfrom : g.nodes.lookup edge.fromNode ≠ none) (hto : g.nodes.lookup edge.toNode ≠ none) :
    Incident (g.addEdge edge).1 ↔ g.edges.lookup edge.id = none ∧ Incident g := by
  refine ⟨fun hafter => ?_, fun ⟨hnew, hg⟩ => hg.addEdge hnew⟩
  rw [addEdge_of_present hfrom hto] at hafter
  obtain ⟨hnew, hout⟩ := hafter.outgoing.of_push fun old hold =>
    h.outgoing edge.id old hold List.not_mem_nil
  obtain ⟨_, hin⟩ := hafter.incoming.of_push fun old hold =>
    h.incoming edge.id old hold List.not_mem_nil
  refine ⟨hnew, h.edgeId, hout, hin, fun id e hl => hafter.endpoints id e ?_⟩
  rw [Table.lookup_insert_ite, if_neg]
  · exact hl
  · rintro rfl
    rw [hnew] at hl
    cases hl

def addEdges (g : ConceptGraph) (edges : List ConceptEdge) : ConceptGraph :=
  edges.foldl (fun g edge => (g.addEdge edge).1) g

theorem addEdge_nodes (g : ConceptGraph) (edge : ConceptEdge) :
    (g.addEdge edge).1.nodes = g.nodes := by
  obtain ⟨err, heq⟩ | ⟨hfrom, hto⟩ := g.addEdge_cases edge
  · rw [heq]
  · rw [addEdge_of_present hfrom hto]

theorem addEdges_spec {g : ConceptGraph} (h : Indexed g) {edges : List ConceptEdge}
    (hends : ∀ edge ∈ edges,
      g.nodes.lookup edge.fromNode ≠ none ∧ g.nodes.lookup edge.toNode ≠ none) :
    Indexed (g.addEdges edges) ∧ (g.addEdges edges).nodes = g.nodes ∧
      ∀ id, (g.addEdges edges).edges.lookup id = none ↔
        g.edges.lookup id = none ∧ id ∉ edges.map ConceptEdge.id := by
  induction edges generalizing g with
  | nil => exact ⟨h, rfl, fun id => by simp [addEdges]⟩
  | cons edge edges ih =>
    obtain ⟨hfrom, hto⟩ := hends edge List.mem_cons_self
    have hnodes := addEdge_nodes g edge
    obtain ⟨hindexed, hsame, hlookup⟩ := ih (IndexedBut.addEdge h edge) fun e he => by
      rw [hnodes]
      exact hends e (List.mem_cons_of_mem _ he)
    refine ⟨hindexed, hsame.trans hnodes, fun id => (hlookup id).trans ?_⟩
    rw [addEdge_of_present hfrom hto]
    simp only [Table.lookup_insert_ite, List.map_cons, List.mem_cons, not_or]
    by_cases hid : id = edge.id <;> simp [hid]

theorem incident_addEdges_iff {g : ConceptGraph} (h : Incident g) {edges : List ConceptEdge}
    (hends : ∀ edge ∈ edges,
      g.nodes.lookup edge.fromNode ≠ none ∧ g.nodes.lookup edge.toNode ≠ none) :
    Incident (g.addEdges edges) ↔ (edges.map ConceptEdge.id).Nodup ∧
      ∀ edge ∈ edges, g.edges.lookup edge.id = none := by
  induction edges using List.reverseRecOn with
  | nil => simpa [addEdges] using h
  | append_singleton edges edge ih =>
    have hbefore : ∀ e ∈ edges,
        g.nodes.lookup e.fromNode ≠ none ∧ g.nodes.lookup e.toNode ≠ none :=
      fun e he => hends e (List.mem_append_left _ he)
    obtain ⟨hfrom, hto⟩ := hends edge (by simp)
    obtain ⟨hindexed, hnodes, hlookup⟩ := addEdges_spec h.indexed hbefore
    have hlast : g.addEdges (edges ++ [edge]) = ((g.addEdges edges).addEdge edge).1 := by
      simp [addEdges]
    rw [hlast, incident_addEdge_iff hindexed (hnodes ▸ hfrom) (hnodes ▸ hto), hlookup,
      ih hbefore, List.map_append, List.nodup_append]
    simp only [List.map_cons, List.map_nil, List.nodup_singleton, true_and, List.mem_singleton,
      forall_eq, List.mem_append, List.mem_map]
    constructor
    · rintro ⟨⟨hnew, hfresh⟩, hnodup, hold⟩
      refine ⟨⟨hnodup, fun id hid heq => hfresh (heq ▸ hid)⟩, ?_⟩
      rintro e (he | rfl)
      · exact hold e he
      · exact hnew
    · rintro ⟨⟨hnodup, hne⟩, hnew⟩
      exact ⟨⟨hnew edge (.inr rfl), fun hid => hne _ hid rfl⟩, hnodup,
        fun e he => hnew e (.inl he)⟩

/-! ## Projections -/

theorem incident_addAll (items : List MemoryProjection) {g : ConceptGraph} (h : Incident g) :
    Incident (addAll g items) := by
  induction items generalizing g with
  | nil => exact h
  | cons item items ih => exact ih (h.addNode item.intoNode)

theorem mem_present (items : List MemoryProjection) (acc : Collected)
    (h : ∀ id, id ∈ acc.present ↔ acc.graph.nodes.lookup id ≠ none) (id : NodeId) :
    id ∈ (items.foldl Collected.add acc).present ↔
      id ∈ acc.present ∨ id ∈ items.map MemoryProjection.id := by
  induction items generalizing acc with
  | nil => simp
  | cons item items ih =>
    rw [List.foldl_cons, List.map_cons, List.mem_cons]
    cases hnode : acc.graph.nodes.lookup item.intoNode.id with
    | some old =>
      have hadd : acc.add item = ⟨acc.graph, acc.pending ++ item.pendingEdge, acc.present⟩ := by
        simp [Collected.add, addNode, hnode]
      have hin : item.id ∈ acc.present := (h item.intoNode.id).mpr (by simp [hnode])
      rw [hadd, ih ⟨acc.graph, acc.pending ++ item.pendingEdge, acc.present⟩ h]
      constructor
      · exact fun hmem => hmem.imp_right .inr
      · rintro (hmem | rfl | hmem)
        · exact .inl hmem
        · exact .inl hin
        · exact .inr hmem
    | none =>
      have hadd : acc.add item = ⟨(acc.graph.addNode item.intoNode).1,
          acc.pending ++ item.pendingEdge, acc.present ++ [item.id]⟩ := by
        simp [Collected.add, addNode, hnode]
      have hnodes : ∀ k, k ∈ acc.present ++ [item.id] ↔
          (acc.graph.addNode item.intoNode).1.nodes.lookup k ≠ none := by
        intro k
        rw [addNode_of_absent hnode, List.mem_append, List.mem_singleton, h k]
        simp only [Table.lookup_insert_ite]
        by_cases hk : k = item.id
        · simp [hk, MemoryProjection.intoNode]
        · simp [hk, MemoryProjection.intoNode]
      rw [hadd, ih _ hnodes, List.mem_append, List.mem_singleton, or_assoc]

def supersessions (items : List MemoryProjection) : List PendingEdge :=
  (items.flatMap MemoryProjection.pendingEdge).filter fun edge =>
    (items.map MemoryProjection.id).contains edge.successor &&
      (items.map MemoryProjection.id).contains edge.predecessor

section

variable (supersedesEdgeId : NodeId → NodeId → EdgeId) (now : Int)

def emitted (edge : PendingEdge) :
    ConceptEdge :=
  ⟨supersedesEdgeId edge.successor edge.predecessor, edge.successor, edge.predecessor,
    .supersedes, edge.scopeId, now⟩

theorem projectMemoryGraph_eq (items : List MemoryProjection) :
    projectMemoryGraph supersedesEdgeId now items =
      (addAll .new items).addEdges ((supersessions items).map (emitted supersedesEdgeId now)) := by
  have hpresent : ∀ id, id ∈ (items.foldl Collected.add ⟨.new, [], []⟩).present ↔
      id ∈ items.map MemoryProjection.id := by
    intro id
    rw [mem_present items ⟨.new, [], []⟩ (by simp [ConceptGraph.new])]
    simp
  simp only [projectMemoryGraph, addEdges, supersessions, List.foldl_map, List.foldl_filter,
    collected_pending, List.nil_append, collected_graph]
  congr 1
  funext g edge
  simp only [emitEdge, emitted, hpresent, Bool.and_eq_true, List.contains_iff_mem]
  by_cases hends : edge.successor ∈ items.map MemoryProjection.id ∧
      edge.predecessor ∈ items.map MemoryProjection.id
  · rw [if_pos hends, if_neg]
    exact fun hor => hor.elim (fun hno => hno hends.1) fun hno => hno hends.2
  · rw [if_neg hends, if_pos]
    exact not_and_or.mp hends

theorem incident_projectMemoryGraph_iff (items : List MemoryProjection) :
    Incident (projectMemoryGraph supersedesEdgeId now items) ↔
      ((supersessions items).map fun edge =>
        supersedesEdgeId edge.successor edge.predecessor).Nodup := by
  have hempty : (addAll .new items).edges = ∅ := addAll_edges .new items
  rw [projectMemoryGraph_eq, incident_addEdges_iff (incident_addAll items .new)]
  · rw [List.map_map]
    refine and_iff_left_of_imp fun _ edge _ => ?_
    rw [hempty]
    rfl
  · intro edge hedge
    obtain ⟨pending, hpending, rfl⟩ := List.mem_map.mp hedge
    have hends := (List.mem_filter.mp hpending).2
    simp only [Bool.and_eq_true, List.contains_iff_mem] at hends
    have hnode : ∀ id ∈ items.map MemoryProjection.id,
        (addAll .new items).nodes.lookup id ≠ none := by
      intro id hid
      exact lookup_addAll (.inl (List.mem_map.mp hid))
    exact ⟨hnode _ hends.1, hnode _ hends.2⟩

end

/-! ## Queries -/

/-- What the queries at a node return. An edge from a node to itself is both an outgoing and an
incoming one. -/
structure Answers (g : ConceptGraph) : Prop where
  getEdges : ∀ n edge, (g.getEdges n).count edge =
    if g.edges.lookup edge.id = some edge then
      (if edge.fromNode = n then 1 else 0) + if edge.toNode = n then 1 else 0
    else 0
  neighbors_nodup : ∀ n relation, (g.neighbors n relation).Nodup
  mem_neighbors : ∀ n relation k, k ∈ g.neighbors n relation ↔
    ∃ id edge, g.edges.lookup id = some edge ∧ edge.fromNode = n ∧ edge.toNode = k ∧
      ∀ r, relation = some r → r = edge.relation

def target (g : ConceptGraph) (relation : Option RelationType) (e : EdgeId) : Option NodeId :=
  (g.edges.lookup e).bind fun edge =>
    if relation.any (fun r => r ≠ edge.relation) then none else some edge.toNode

theorem target_eq_some {g : ConceptGraph} {relation : Option RelationType} {e : EdgeId}
    {k : NodeId} : g.target relation e = some k ↔ ∃ edge, g.edges.lookup e = some edge ∧
      edge.toNode = k ∧ ∀ r, relation = some r → r = edge.relation := by
  unfold target
  cases g.edges.lookup e with
  | none => simp
  | some edge => cases relation <;> simp [and_comm]

theorem neighbors_eq (g : ConceptGraph) (n : NodeId) (relation : Option RelationType) :
    g.neighbors n relation =
      (((g.outgoing.lookup n).getD []).filterMap (g.target relation)).foldl insertNew [] := by
  rw [List.foldl_filterMap, neighbors]
  congr 1
  funext out e
  unfold target insertNew
  cases g.edges.lookup e with
  | none => rfl
  | some edge =>
    by_cases hskip : relation.any (fun r => r ≠ edge.relation) = true
    · simp only [Option.bind_some, hskip, Bool.true_or, if_true]
    · rw [Bool.not_eq_true] at hskip
      simp only [Option.bind_some, hskip, Bool.false_or, List.contains_iff_mem,
        Bool.false_eq_true, if_false]

theorem Incident.mem_outgoing {g : ConceptGraph} (h : Incident g) {n : NodeId} {e : EdgeId} :
    e ∈ (g.outgoing.lookup n).getD [] ↔
      ∃ edge, g.edges.lookup e = some edge ∧ edge.fromNode = n := by
  have hexact := h.outgoing n e
  rw [← List.count_pos_iff]
  change 0 < g.outgoing.times n e ↔ _
  rw [hexact]
  cases g.edges.lookup e with
  | none => simp
  | some edge => by_cases hn : edge.fromNode = n <;> simp [hn]

theorem Incident.answers {g : ConceptGraph} (h : Incident g) : Answers g := by
  refine ⟨fun n edge => ?_, fun n relation => ?_, fun n relation k => ?_⟩
  · rw [ConceptGraph.getEdges, List.count_append, h.outgoing.count_filterMap h.edgeId,
      h.incoming.count_filterMap h.edgeId]
    by_cases hstored : g.edges.lookup edge.id = some edge <;> simp [hstored]
  · rw [neighbors_eq]
    exact nodup_foldl_insertNew _ List.nodup_nil
  · rw [neighbors_eq, mem_foldl_insertNew, or_iff_right List.not_mem_nil, List.mem_filterMap]
    simp only [h.mem_outgoing, target_eq_some]
    constructor
    · rintro ⟨e, ⟨edge, hl, hn⟩, edge', hl', hk, hrelation⟩
      obtain rfl := Option.some.inj (hl.symm.trans hl')
      exact ⟨e, edge, hl, hn, hk, hrelation⟩
    · rintro ⟨e, edge, hl, hn, hk, hrelation⟩
      exact ⟨e, ⟨edge, hl, hn⟩, edge, hl, hk, hrelation⟩

/-! ## Runs -/

inductive Edit where
  | addNode (node : ConceptNode)
  | addEdge (edge : ConceptEdge)
  | removeNode (id : NodeId)
  | removeEdge (id : EdgeId)
  | supersedeNode (predecessor successor : NodeId) (edgeId : EdgeId) (stamped created : Int)
  | markContradiction (a b : NodeId) (there back : EdgeId) (stamped created : Int × Int)
  | projectMemoryGraph (items : List MemoryProjection) (now : Int)

section

variable (supersedesEdgeId : NodeId → NodeId → EdgeId)

def perform (g : ConceptGraph) : Edit → ConceptGraph
  | .addNode node => (g.addNode node).1
  | .addEdge edge => (g.addEdge edge).1
  | .removeNode id => (g.removeNode id).1
  | .removeEdge id => (g.removeEdge id).1
  | .supersedeNode predecessor successor edgeId stamped created =>
    (g.supersedeNode predecessor successor edgeId stamped created).1
  | .markContradiction a b there back stamped created =>
    (g.markContradiction a b there back stamped created).1
  | .projectMemoryGraph items now => Concept.projectMemoryGraph supersedesEdgeId now items

def Drawn (g : ConceptGraph) : Edit → Prop
  | .supersedeNode _ _ edgeId _ _ => g.edges.lookup edgeId = none
  | .markContradiction _ _ there back _ _ =>
    g.edges.lookup there = none ∧ g.edges.lookup back = none ∧ there ≠ back
  | _ => True

def system : System ConceptGraph Edit :=
  .ofNext (fun g => g = .new) Drawn (perform supersedesEdgeId)

/-- No edge is added between nodes of the graph under the id of a stored one, and no two of the
supersessions of a projection have the same id. -/
def FreshIds (g : ConceptGraph) : Edit → Prop
  | .addEdge edge => g.edges.lookup edge.id = none ∨ g.nodes.lookup edge.fromNode = none ∨
    g.nodes.lookup edge.toNode = none
  | .projectMemoryGraph items _ => ((supersessions items).map fun edge =>
    supersedesEdgeId edge.successor edge.predecessor).Nodup
  | _ => True

theorem Incident.markContradiction {g : ConceptGraph} (h : Incident g) (a b : NodeId)
    {there back : EdgeId} (stamped created : Int × Int) (hthere : g.edges.lookup there = none)
    (hback : g.edges.lookup back = none) (hne : there ≠ back) :
    Incident (g.markContradiction a b there back stamped created).1 := by
  unfold ConceptGraph.markContradiction
  split
  · exact h
  split
  · exact h
  · exact h
  rename_i na nb _ _
  have hmarked := (h.setNode a (na.markContradictedBy b stamped.1)).setNode b
    (nb.markContradictedBy a stamped.2)
  set e₁ : ConceptEdge := ⟨there, a, b, .contradicts, na.scopeId, created.1⟩
  have hfirst := @Incident.addEdge _ hmarked e₁ hthere
  dsimp only
  split
  · rename_i g' err heq
    rwa [heq] at hfirst
  · rename_i g' id heq
    have hedges := addEdge_edges ((g.setNode a (na.markContradictedBy b stamped.1)).setNode b
      (nb.markContradictedBy a stamped.2)) e₁
    rw [heq] at hfirst hedges
    have hnew : g'.edges.lookup back = none := by
      obtain hsame | hput := hedges
      · rw [hsame]
        exact hback
      · rw [hput, Table.lookup_insert_ite, if_neg (Ne.symm hne)]
        exact hback
    have hsecond := @Incident.addEdge _ hfirst
      ⟨back, b, a, .contradicts, nb.scopeId, created.2⟩ hnew
    split
    · rename_i heq'
      rwa [heq'] at hsecond
    · rename_i heq'
      rwa [heq'] at hsecond

theorem incident_perform_iff {g : ConceptGraph} (h : Incident g) {edit : Edit}
    (hdrawn : g.Drawn edit) :
    Incident (g.perform supersedesEdgeId edit) ↔ g.FreshIds supersedesEdgeId edit := by
  cases edit with
  | addNode node => exact iff_of_true (h.addNode node) trivial
  | removeNode id => exact iff_of_true (h.removeNode id) trivial
  | removeEdge id => exact iff_of_true (h.removeEdge id) trivial
  | supersedeNode predecessor successor edgeId stamped created =>
    exact iff_of_true (h.supersedeNode predecessor successor stamped created hdrawn) trivial
  | markContradiction a b there back stamped created =>
    obtain ⟨hthere, hback, hne⟩ := hdrawn
    exact iff_of_true (h.markContradiction a b stamped created hthere hback hne) trivial
  | projectMemoryGraph items now =>
    exact incident_projectMemoryGraph_iff supersedesEdgeId now items
  | addEdge edge =>
    simp only [perform, FreshIds]
    by_cases hends : g.nodes.lookup edge.fromNode = none ∨ g.nodes.lookup edge.toNode = none
    · have hkeep : (g.addEdge edge).1 = g := by
        obtain ⟨err, heq⟩ | ⟨hfrom, hto⟩ := g.addEdge_cases edge
        · rw [heq]
        · exact absurd hends (not_or.mpr ⟨hfrom, hto⟩)
      rw [hkeep]
      exact iff_of_true h (.inr hends)
    · obtain ⟨hfrom, hto⟩ := not_or.mp hends
      rw [incident_addEdge_iff h.indexed hfrom hto, and_iff_left h, or_iff_left hends]

theorem incident_reachable {g : ConceptGraph}
    (h : ((system supersedesEdgeId).restrict (FreshIds supersedesEdgeId)).Reachable g) :
    Incident g := by
  refine h.invariant Incident ?_ ?_
  · rintro g rfl
    exact .new
  · rintro g edit g' _ hg ⟨⟨hdrawn, rfl⟩, hfresh⟩
    exact (incident_perform_iff supersedesEdgeId hg hdrawn).mpr hfresh

end

instance (g : ConceptGraph) : (edit : Edit) → Decidable (g.Drawn edit)
  | .supersedeNode _ _ edgeId _ _ => inferInstanceAs (Decidable (g.edges.lookup edgeId = none))
  | .markContradiction _ _ there back _ _ => inferInstanceAs (Decidable
    (g.edges.lookup there = none ∧ g.edges.lookup back = none ∧ there ≠ back))
  | .addNode _ | .addEdge _ | .removeNode _ | .removeEdge _ | .projectMemoryGraph _ _ =>
    isTrue trivial

instance (supersedesEdgeId : NodeId → NodeId → EdgeId) (g : ConceptGraph) :
    (edit : Edit) → Decidable (g.FreshIds supersedesEdgeId edit)
  | .addEdge edge => inferInstanceAs (Decidable (g.edges.lookup edge.id = none ∨
    g.nodes.lookup edge.fromNode = none ∨ g.nodes.lookup edge.toNode = none))
  | .projectMemoryGraph items _ => inferInstanceAs (Decidable
    ((supersessions items).map fun edge =>
      supersedesEdgeId edge.successor edge.predecessor).Nodup)
  | .addNode _ | .removeNode _ | .removeEdge _ | .supersedeNode .. | .markContradiction .. =>
    isTrue trivial

def bare (id : NodeId) : ConceptNode := ⟨id, "plan", "the plan", 7, .candidate, none, 5, 5⟩

def nine (toNode : NodeId) : ConceptEdge := ⟨9, 1, toNode, .derivedFrom, 7, 6⟩

def threeNodes : List Edit := [.addNode (bare 1), .addNode (bare 2), .addNode (bare 3)]

def run (edits : List Edit) : ConceptGraph := edits.foldl (perform newerOlderId) .new

end ConceptGraph

end Knowledge.Concept
