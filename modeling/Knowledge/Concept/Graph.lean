import Knowledge.Memory.Policy

/-!
`crates/concept_graph`: nodes, edges and the in-memory `ConceptGraph` with its two adjacency
indexes. A call that works on `&mut self` returns the graph it leaves together with its result.
-/

set_option autoImplicit false

namespace Knowledge.Concept
open Knowledge.Sync (Uuid)
open Knowledge.Memory (ScopeId)

abbrev NodeId := Uuid

abbrev EdgeId := Uuid

inductive NodeState where
  | candidate
  | canonical
  | superseded
  | contradicted
  | deleted
  deriving DecidableEq

def NodeState.asStr : NodeState → String
  | candidate => "candidate"
  | canonical => "canonical"
  | superseded => "superseded"
  | contradicted => "contradicted"
  | deleted => "deleted"

structure ConceptNode where
  id : NodeId
  label : String
  definition : String
  scopeId : ScopeId
  state : NodeState
  supersededBy : Option NodeId
  createdAt : Int
  updatedAt : Int

def ConceptNode.markSupersededBy (node : ConceptNode) (successor : NodeId) (now : Int) :
    ConceptNode :=
  { node with state := .superseded, supersededBy := some successor, updatedAt := now }

def ConceptNode.markContradictedBy (node : ConceptNode) (other : NodeId) (now : Int) :
    ConceptNode :=
  { node with state := .contradicted, supersededBy := some other, updatedAt := now }

inductive RelationType where
  | isA
  | partOf
  | decidedBy
  | supersedes
  | contradicts
  | derivedFrom
  | assignedTo
  deriving DecidableEq

def RelationType.asStr : RelationType → String
  | isA => "is_a"
  | partOf => "part_of"
  | decidedBy => "decided_by"
  | supersedes => "supersedes"
  | contradicts => "contradicts"
  | derivedFrom => "derived_from"
  | assignedTo => "assigned_to"

structure ConceptEdge where
  id : EdgeId
  fromNode : NodeId
  toNode : NodeId
  relation : RelationType
  scopeId : ScopeId
  createdAt : Int
  deriving DecidableEq

inductive GraphError where
  | nodeNotFound (id : Uuid)
  | edgeNotFound (id : Uuid)
  | duplicateNode (id : Uuid)
  | danglingEdge (id : Uuid)
  | selfSupersession (id : Uuid)
  | selfContradiction (id : Uuid)
  | persistence (message : String)
  | sqlite
  | crypto
  deriving DecidableEq

abbrev Adjacency := Table NodeId (List EdgeId)

namespace Adjacency

def push (m : Adjacency) (n : NodeId) (e : EdgeId) : Adjacency :=
  m.insert n ((m.lookup n).getD [] ++ [e])

def orDefault (m : Adjacency) (n : NodeId) : Adjacency :=
  m.insert n ((m.lookup n).getD [])

def retain (m : Adjacency) (n : NodeId) (e : EdgeId) : Adjacency :=
  match m.lookup n with
  | none => m
  | some ids => m.insert n (ids.filter fun x => x ≠ e)

theorem lookup_push (m : Adjacency) (n k : NodeId) (e : EdgeId) :
    (m.push n e).lookup k =
      if k = n then some ((m.lookup n).getD [] ++ [e]) else m.lookup k :=
  Table.lookup_insert_ite m n k _

theorem lookup_orDefault (m : Adjacency) (n k : NodeId) :
    (m.orDefault n).lookup k = if k = n then some ((m.lookup n).getD []) else m.lookup k :=
  Table.lookup_insert_ite m n k _

theorem lookup_retain (m : Adjacency) (n k : NodeId) (e : EdgeId) :
    (m.retain n e).lookup k =
      if k = n then (m.lookup n).map (fun ids => ids.filter fun x => x ≠ e) else m.lookup k := by
  cases h : m.lookup n with
  | none =>
    simp only [retain, h, Option.map_none]
    by_cases hk : k = n
    · rw [if_pos hk, hk, h]
    · rw [if_neg hk]
  | some ids => simp only [retain, h, Table.lookup_insert_ite, Option.map_some]

theorem lookup_retain_push {m : Adjacency} {n : NodeId} {e : EdgeId}
    (hn : m.lookup n ≠ none) (he : ∀ k ids, m.lookup k = some ids → e ∉ ids) (k : NodeId) :
    ((m.push n e).retain n e).lookup k = m.lookup k := by
  obtain ⟨ids, hids⟩ := Option.ne_none_iff_exists'.mp hn
  rw [lookup_retain, lookup_push, lookup_push]
  by_cases hk : k = n
  · subst hk
    have hkeep : ids.filter (fun x => decide (x ≠ e)) = ids :=
      List.filter_eq_self.mpr fun x hx => by
        have hne : x ≠ e := fun heq => he k ids hids (heq ▸ hx)
        simpa using hne
    simp only [hids, if_true, Option.getD_some, Option.map_some, List.filter_append, hkeep]
    simp
  · simp only [if_neg hk]

end Adjacency

structure ConceptGraph where
  nodes : Table NodeId ConceptNode
  edges : Table EdgeId ConceptEdge
  outgoing : Adjacency
  incoming : Adjacency

namespace ConceptGraph

def new : ConceptGraph := ⟨∅, ∅, ∅, ∅⟩

section

variable (g : ConceptGraph)

def addNode (node : ConceptNode) : ConceptGraph × Except GraphError NodeId :=
  if (g.nodes.lookup node.id).isSome then (g, .error (.duplicateNode node.id))
  else
    ({ g with
        nodes := g.nodes.insert node.id node
        outgoing := g.outgoing.orDefault node.id
        incoming := g.incoming.orDefault node.id }, .ok node.id)

def addEdge (edge : ConceptEdge) : ConceptGraph × Except GraphError EdgeId :=
  if (g.nodes.lookup edge.fromNode).isNone then (g, .error (.danglingEdge edge.fromNode))
  else if (g.nodes.lookup edge.toNode).isNone then (g, .error (.danglingEdge edge.toNode))
  else
    ({ g with
        edges := g.edges.insert edge.id edge
        outgoing := g.outgoing.push edge.fromNode edge.id
        incoming := g.incoming.push edge.toNode edge.id }, .ok edge.id)

def dropEdge (id : EdgeId) : ConceptGraph :=
  match g.edges.lookup id with
  | none => g
  | some edge =>
    { g with
      edges := g.edges.erase id
      outgoing := g.outgoing.retain edge.fromNode id
      incoming := g.incoming.retain edge.toNode id }

def removeNode (id : NodeId) : ConceptGraph × Except GraphError ConceptNode :=
  match g.nodes.lookup id with
  | none => (g, .error (.nodeNotFound id))
  | some node =>
    let outgoing := (g.outgoing.lookup id).getD []
    let incoming := (g.incoming.lookup id).getD []
    let bare : ConceptGraph :=
      { g with
        nodes := g.nodes.erase id
        outgoing := g.outgoing.erase id
        incoming := g.incoming.erase id }
    ((outgoing ++ incoming).dedup.foldl dropEdge bare, .ok node)

def removeEdge (id : EdgeId) : ConceptGraph × Except GraphError ConceptEdge :=
  match g.edges.lookup id with
  | none => (g, .error (.edgeNotFound id))
  | some edge => (g.dropEdge id, .ok edge)

def getNode (id : NodeId) : Option ConceptNode := g.nodes.lookup id

def setNode (id : NodeId) (node : ConceptNode) : ConceptGraph :=
  { g with nodes := g.nodes.insert id node }

def getEdges (id : NodeId) : List ConceptEdge :=
  ((g.outgoing.lookup id).getD []).filterMap g.edges.lookup ++
    ((g.incoming.lookup id).getD []).filterMap g.edges.lookup

def neighbors (id : NodeId) (relation : Option RelationType) : List NodeId :=
  ((g.outgoing.lookup id).getD []).foldl (fun out e =>
    match g.edges.lookup e with
    | none => out
    | some edge =>
      if relation.any (fun r => r ≠ edge.relation) || out.contains edge.toNode then out
      else out ++ [edge.toNode]) []

/-- `edgeId` is the id drawn for the edge, `stamped` and `created` are the clock readings for the
predecessor and for the edge. -/
def supersedeNode (predecessor successor : NodeId) (edgeId : EdgeId)
    (stamped created : Int) : ConceptGraph × Except GraphError EdgeId :=
  if predecessor = successor then (g, .error (.selfSupersession predecessor))
  else if (g.nodes.lookup successor).isNone then (g, .error (.nodeNotFound successor))
  else
    match g.nodes.lookup predecessor with
    | none => (g, .error (.nodeNotFound predecessor))
    | some pred =>
      let marked := g.setNode predecessor (pred.markSupersededBy successor stamped)
      marked.addEdge ⟨edgeId, predecessor, successor, .supersedes, pred.scopeId, created⟩

/-- The ids and the clock readings are drawn in this order: for `a`, for `b`, for the edge from
`a`, and for the edge back. -/
def markContradiction (a b : NodeId) (there back : EdgeId)
    (stamped created : Int × Int) : ConceptGraph × Except GraphError (EdgeId × EdgeId) :=
  if a = b then (g, .error (.selfContradiction a))
  else
    match g.nodes.lookup a, g.nodes.lookup b with
    | none, _ => (g, .error (.nodeNotFound a))
    | some _, none => (g, .error (.nodeNotFound b))
    | some na, some nb =>
      let marked := (g.setNode a (na.markContradictedBy b stamped.1)).setNode b
        (nb.markContradictedBy a stamped.2)
      match marked.addEdge ⟨there, a, b, .contradicts, na.scopeId, created.1⟩ with
      | (g, .error err) => (g, .error err)
      | (g, .ok e1) =>
        match g.addEdge ⟨back, b, a, .contradicts, nb.scopeId, created.2⟩ with
        | (g, .error err) => (g, .error err)
        | (g, .ok e2) => (g, .ok (e1, e2))

end

theorem addNode_of_absent {g : ConceptGraph} {node : ConceptNode}
    (h : g.nodes.lookup node.id = none) :
    g.addNode node =
      ({ g with
          nodes := g.nodes.insert node.id node
          outgoing := g.outgoing.orDefault node.id
          incoming := g.incoming.orDefault node.id }, .ok node.id) := by
  simp [addNode, h]

theorem addEdge_of_present {g : ConceptGraph} {edge : ConceptEdge}
    (hfrom : g.nodes.lookup edge.fromNode ≠ none) (hto : g.nodes.lookup edge.toNode ≠ none) :
    g.addEdge edge =
      ({ g with
          edges := g.edges.insert edge.id edge
          outgoing := g.outgoing.push edge.fromNode edge.id
          incoming := g.incoming.push edge.toNode edge.id }, .ok edge.id) := by
  simp [addEdge, hfrom, hto]

theorem addEdge_cases (g : ConceptGraph) (edge : ConceptEdge) :
    (∃ err, g.addEdge edge = (g, .error err)) ∨
      (g.nodes.lookup edge.fromNode ≠ none ∧ g.nodes.lookup edge.toNode ≠ none) := by
  unfold addEdge
  split_ifs with hfrom hto
  · exact .inl ⟨_, rfl⟩
  · exact .inl ⟨_, rfl⟩
  · exact .inr ⟨by simpa using hfrom, by simpa using hto⟩

structure Same (g h : ConceptGraph) : Prop where
  nodes : ∀ id, g.nodes.lookup id = h.nodes.lookup id
  edges : ∀ id, g.edges.lookup id = h.edges.lookup id
  outgoing : ∀ id, g.outgoing.lookup id = h.outgoing.lookup id
  incoming : ∀ id, g.incoming.lookup id = h.incoming.lookup id

theorem Same.refl (g : ConceptGraph) : Same g g :=
  ⟨fun _ => rfl, fun _ => rfl, fun _ => rfl, fun _ => rfl⟩

/-- The graph is stored under its own ids and the indexes list nothing but edges it has. -/
structure Wired (g : ConceptGraph) : Prop where
  nodeId : ∀ id node, g.nodes.lookup id = some node → node.id = id
  edgeId : ∀ id edge, g.edges.lookup id = some edge → edge.id = id
  outgoing_none : ∀ id, g.outgoing.lookup id = none ↔ g.nodes.lookup id = none
  incoming_none : ∀ id, g.incoming.lookup id = none ↔ g.nodes.lookup id = none
  outgoing_listed : ∀ n ids e, g.outgoing.lookup n = some ids → e ∈ ids →
    g.edges.lookup e ≠ none
  incoming_listed : ∀ n ids e, g.incoming.lookup n = some ids → e ∈ ids →
    g.edges.lookup e ≠ none

theorem Same.wired {g h : ConceptGraph} (hs : Same g h) (hw : Wired h) : Wired g where
  nodeId id node hl := hw.nodeId id node (hs.nodes id ▸ hl)
  edgeId id edge hl := hw.edgeId id edge (hs.edges id ▸ hl)
  outgoing_none id := by rw [hs.outgoing, hs.nodes, hw.outgoing_none]
  incoming_none id := by rw [hs.incoming, hs.nodes, hw.incoming_none]
  outgoing_listed n ids e hl he := by
    rw [hs.edges]
    exact hw.outgoing_listed n ids e (hs.outgoing n ▸ hl) he
  incoming_listed n ids e hl he := by
    rw [hs.edges]
    exact hw.incoming_listed n ids e (hs.incoming n ▸ hl) he

namespace Wired

theorem new : Wired ConceptGraph.new where
  nodeId _ _ h := by simp [ConceptGraph.new] at h
  edgeId _ _ h := by simp [ConceptGraph.new] at h
  outgoing_none _ := by simp [ConceptGraph.new]
  incoming_none _ := by simp [ConceptGraph.new]
  outgoing_listed _ _ _ h := by simp [ConceptGraph.new] at h
  incoming_listed _ _ _ h := by simp [ConceptGraph.new] at h

variable {g : ConceptGraph}

theorem orDefault_none {nodes : Table NodeId ConceptNode} {m : Adjacency} {node : ConceptNode}
    (h : ∀ id, m.lookup id = none ↔ nodes.lookup id = none) (id : NodeId) :
    (m.orDefault node.id).lookup id = none ↔ (nodes.insert node.id node).lookup id = none := by
  rw [Adjacency.lookup_orDefault, Table.lookup_insert_ite]
  split
  · simp
  · exact h id

theorem orDefault_listed {edges : Table EdgeId ConceptEdge} {m : Adjacency}
    (h : ∀ n ids e, m.lookup n = some ids → e ∈ ids → edges.lookup e ≠ none) (k : NodeId)
    (n : NodeId) (ids : List EdgeId) (e : EdgeId) (hl : (m.orDefault k).lookup n = some ids)
    (he : e ∈ ids) : edges.lookup e ≠ none := by
  rw [Adjacency.lookup_orDefault] at hl
  split at hl
  · cases hk : m.lookup k with
    | none => simp_all
    | some ids' =>
      simp only [hk, Option.getD_some, Option.some.injEq] at hl
      exact h k ids' e hk (hl ▸ he)
  · exact h n ids e hl he

theorem addNode (hw : Wired g) {node : ConceptNode} (h : g.nodes.lookup node.id = none) :
    Wired (g.addNode node).1 := by
  rw [addNode_of_absent h]
  refine ⟨fun id n hl => ?_, hw.edgeId, orDefault_none hw.outgoing_none,
    orDefault_none hw.incoming_none, orDefault_listed hw.outgoing_listed node.id,
    orDefault_listed hw.incoming_listed node.id⟩
  rw [Table.lookup_insert_ite] at hl
  split at hl
  · simp_all
  · exact hw.nodeId id n hl

theorem push_none {nodes : Table NodeId ConceptNode} {m : Adjacency} {n : NodeId} (e : EdgeId)
    (hn : nodes.lookup n ≠ none) (h : ∀ id, m.lookup id = none ↔ nodes.lookup id = none)
    (id : NodeId) : (m.push n e).lookup id = none ↔ nodes.lookup id = none := by
  rw [Adjacency.lookup_push]
  split
  · rename_i heq
    subst heq
    simp [hn]
  · exact h id

theorem push_listed {edges : Table EdgeId ConceptEdge} {m : Adjacency} {n : NodeId}
    {edge : ConceptEdge}
    (h : ∀ n ids e, m.lookup n = some ids → e ∈ ids → edges.lookup e ≠ none) (k : NodeId)
    (ids : List EdgeId) (e : EdgeId) (hl : (m.push n edge.id).lookup k = some ids)
    (he : e ∈ ids) : (edges.insert edge.id edge).lookup e ≠ none := by
  rw [Table.lookup_insert_ite]
  split
  · simp
  rename_i hne
  rw [Adjacency.lookup_push] at hl
  split at hl
  · obtain rfl := Option.some.inj hl
    rw [List.mem_append, List.mem_singleton, or_iff_left hne] at he
    cases hm : m.lookup n with
    | none => simp [hm] at he
    | some ids => exact h n ids e hm (by simpa [hm] using he)
  · exact h k ids e hl he

theorem addEdge (hw : Wired g) {edge : ConceptEdge} (hfrom : g.nodes.lookup edge.fromNode ≠ none)
    (hto : g.nodes.lookup edge.toNode ≠ none) : Wired (g.addEdge edge).1 := by
  rw [addEdge_of_present hfrom hto]
  refine ⟨hw.nodeId, fun id e hl => ?_, push_none edge.id hfrom hw.outgoing_none,
    push_none edge.id hto hw.incoming_none, push_listed hw.outgoing_listed,
    push_listed hw.incoming_listed⟩
  rw [Table.lookup_insert_ite] at hl
  split at hl
  · simp_all
  · exact hw.edgeId id e hl

theorem setNode (hw : Wired g) {id : NodeId} {node : ConceptNode} (hid : node.id = id)
    (h : g.nodes.lookup id ≠ none) : Wired (g.setNode id node) := by
  have hnone : ∀ k, (g.nodes.insert id node).lookup k = none ↔ g.nodes.lookup k = none := by
    intro k
    rw [Table.lookup_insert_ite]
    split
    · rename_i heq
      subst heq
      simp [h]
    · exact Iff.rfl
  refine ⟨fun k n hl => ?_, hw.edgeId, fun k => ?_, fun k => ?_, hw.outgoing_listed,
    hw.incoming_listed⟩
  · simp only [ConceptGraph.setNode, Table.lookup_insert_ite] at hl
    split at hl
    · simp_all
    · exact hw.nodeId k n hl
  · exact (hw.outgoing_none k).trans (hnone k).symm
  · exact (hw.incoming_none k).trans (hnone k).symm

theorem removeNode_addNode (hw : Wired g) {node : ConceptNode} (h : g.nodes.lookup node.id = none) :
    Same ((g.addNode node).1.removeNode node.id).1 g := by
  have hout := (hw.outgoing_none node.id).mpr h
  have hin := (hw.incoming_none node.id).mpr h
  have herase : ∀ {V : Type} (t : Table NodeId V) (v : V) (k : NodeId),
      t.lookup node.id = none → ((t.insert node.id v).erase node.id).lookup k = t.lookup k := by
    intro V t v k ht
    rw [Table.lookup_erase_ite, Table.lookup_insert_ite]
    split
    · rename_i heq
      rw [heq, ht]
    · rfl
  rw [addNode_of_absent h]
  simp only [removeNode, AList.lookup_insert, Adjacency.lookup_orDefault, hout, hin, if_true,
    Option.getD_none, Option.getD_some, List.append_nil, List.dedup_nil, List.foldl_nil]
  exact ⟨fun k => herase g.nodes node k h, fun _ => rfl,
    fun k => herase g.outgoing _ k hout, fun k => herase g.incoming _ k hin⟩

theorem removeEdge_addEdge (hw : Wired g) {edge : ConceptEdge}
    (hfrom : g.nodes.lookup edge.fromNode ≠ none) (hto : g.nodes.lookup edge.toNode ≠ none)
    (hnew : g.edges.lookup edge.id = none) :
    Same ((g.addEdge edge).1.removeEdge edge.id).1 g := by
  rw [addEdge_of_present hfrom hto]
  simp only [removeEdge, dropEdge, AList.lookup_insert]
  refine ⟨fun _ => rfl, fun k => ?_, fun k => ?_, fun k => ?_⟩
  · rw [Table.lookup_erase_ite, Table.lookup_insert_ite]
    split
    · rename_i heq
      rw [heq, hnew]
    · rfl
  · exact Adjacency.lookup_retain_push (fun h => hfrom ((hw.outgoing_none _).mp h))
      (fun n ids hl he => hw.outgoing_listed n ids _ hl he hnew) k
  · exact Adjacency.lookup_retain_push (fun h => hto ((hw.incoming_none _).mp h))
      (fun n ids hl he => hw.incoming_listed n ids _ hl he hnew) k

theorem mem_getEdges {n : NodeId} {edge : ConceptEdge} (h : edge ∈ g.getEdges n) :
    ∃ id, g.edges.lookup id = some edge := by
  rw [getEdges, List.mem_append, List.mem_filterMap, List.mem_filterMap] at h
  obtain ⟨id, -, hl⟩ | ⟨id, -, hl⟩ := h
  · exact ⟨id, hl⟩
  · exact ⟨id, hl⟩

theorem find_getEdges (hw : Wired g) {n : NodeId} {ids : List EdgeId} {edge : ConceptEdge}
    (hlisted : g.outgoing.lookup n = some ids) (hmem : edge.id ∈ ids)
    (hl : g.edges.lookup edge.id = some edge) :
    (g.getEdges n).find? (fun e => e.id = edge.id) = some edge := by
  have hin : edge ∈ g.getEdges n := by
    rw [getEdges, List.mem_append, List.mem_filterMap]
    exact .inl ⟨edge.id, by simpa [hlisted] using hmem, hl⟩
  cases hfind : (g.getEdges n).find? (fun e => e.id = edge.id) with
  | none =>
    have hnot := List.find?_eq_none.mp hfind edge hin
    simp at hnot
  | some e =>
    obtain ⟨id, hid⟩ := mem_getEdges (List.mem_of_find?_eq_some hfind)
    have heq : e.id = edge.id := by simpa using List.find?_some hfind
    rw [← hw.edgeId id e hid, heq, hl] at hid
    rw [hid]

end Wired

/-- What a supersession does: refuse and leave the graph, or mark the predecessor and add the
edge, which is then among the edges at the predecessor. -/
theorem supersedeNode_cases (g : ConceptGraph) (predecessor successor : NodeId) (edgeId : EdgeId)
    (stamped created : Int) :
    (∃ err, g.supersedeNode predecessor successor edgeId stamped created = (g, .error err)) ∨
      ∃ pred succ, g.nodes.lookup predecessor = some pred ∧ g.nodes.lookup successor = some succ ∧
        predecessor ≠ successor ∧
        g.supersedeNode predecessor successor edgeId stamped created =
          (((g.setNode predecessor (pred.markSupersededBy successor stamped)).addEdge
            ⟨edgeId, predecessor, successor, .supersedes, pred.scopeId, created⟩).1,
            .ok edgeId) := by
  unfold supersedeNode
  split_ifs with heq hsucc
  · exact .inl ⟨_, rfl⟩
  · exact .inl ⟨_, rfl⟩
  cases hpred : g.nodes.lookup predecessor with
  | none => exact .inl ⟨_, rfl⟩
  | some pred =>
    obtain ⟨succ, hs⟩ := Option.isSome_iff_exists.mp (Option.isSome_iff_ne_none.mpr
      (by simpa using hsucc))
    refine .inr ⟨pred, succ, rfl, hs, heq, ?_⟩
    have hfrom : (g.setNode predecessor (pred.markSupersededBy successor stamped)).nodes.lookup
        predecessor ≠ none := by simp [setNode]
    have hto : (g.setNode predecessor (pred.markSupersededBy successor stamped)).nodes.lookup
        successor ≠ none := by
      simp [setNode, AList.lookup_insert_ne (Ne.symm heq), hs]
    dsimp only
    rw [addEdge_of_present hfrom hto]

/-- What a supersession that goes through leaves behind. -/
structure Superseded (g g' : ConceptGraph) (predecessor : NodeId) (after : ConceptNode)
    (edge : ConceptEdge) : Prop where
  wired : Wired g'
  nodes : g'.nodes = g.nodes.insert predecessor after
  edges : g'.edges = g.edges.insert edge.id edge
  found : (g'.getEdges predecessor).find? (fun e => e.id = edge.id) = some edge
  undone : Same (g'.removeEdge edge.id).1 (g.setNode predecessor after)

theorem superseded_of_wired {g : ConceptGraph} (hw : Wired g) {predecessor : NodeId}
    {succ : ConceptNode} (after : ConceptNode) (edge : ConceptEdge) (hkey : after.id = predecessor)
    (hfrom : edge.fromNode = predecessor) (hpred : g.nodes.lookup predecessor ≠ none)
    (hsucc : g.nodes.lookup edge.toNode = some succ) (hne : edge.toNode ≠ predecessor)
    (hnew : g.edges.lookup edge.id = none) :
    Superseded g ((g.setNode predecessor after).addEdge edge).1 predecessor after edge := by
  have hmarked : Wired (g.setNode predecessor after) := hw.setNode hkey hpred
  have hsource : (g.setNode predecessor after).nodes.lookup edge.fromNode ≠ none := by
    simp [setNode, hfrom]
  have htarget : (g.setNode predecessor after).nodes.lookup edge.toNode ≠ none := by
    rw [setNode, AList.lookup_insert_ne hne, hsucc]
    simp
  have hadd := addEdge_of_present hsource htarget
  have hwired := hmarked.addEdge hsource htarget
  have hlisted : ((g.setNode predecessor after).addEdge edge).1.outgoing.lookup predecessor =
      some ((g.outgoing.lookup predecessor).getD [] ++ [edge.id]) := by
    rw [hadd, hfrom]
    simp [Adjacency.lookup_push, setNode]
  refine ⟨hwired, by rw [hadd, setNode], by rw [hadd, setNode], ?_,
    hmarked.removeEdge_addEdge hsource htarget hnew⟩
  refine hwired.find_getEdges hlisted (by simp) ?_
  rw [hadd]
  simp

end ConceptGraph

end Knowledge.Concept
