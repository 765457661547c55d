import Knowledge.Concept.Graph
import Knowledge.Lib.Cipher

/-!
`crates/concept_graph/src/persist.rs`: the concept graph mirrored to a database, one row for each
node and edge, and reloaded scope by scope. A payload is sealed under its scope's key, here named
by the scope; nonces are left out. Any statement may fail, `ROLLBACK` included.
-/

set_option autoImplicit false

namespace Knowledge.Concept
open Knowledge.Cipher
open Knowledge.Sync (Uuid)
open Knowledge.Memory (ScopeId)
open Knowledge.Transition
open ConceptGraph

abbrev Aad := String × ScopeId × Uuid

def nodeTag : String := "concept_node:v1:"

def edgeTag : String := "concept_edge:v1:"

structure Row (C α : Type) where
  scopeId : ScopeId
  createdAt : Int
  columns : C
  payload : Sealed ScopeId Unit Aad α

structure NodeColumns where
  state : String
  supersededBy : Option NodeId
  updatedAt : Int

structure EdgeColumns where
  fromNode : NodeId
  toNode : NodeId
  relation : String

structure Rows where
  nodes : Table NodeId (Row NodeColumns ConceptNode)
  edges : Table EdgeId (Row EdgeColumns ConceptEdge)

def timestamp (t : Int) : Int := t / 1000000000

def sealFor {α : Type} (tag : String) (scope : ScopeId) (id : Uuid) (body : α) :
    Sealed ScopeId Unit Aad α :=
  ⟨scope, (), (tag, scope, id), body⟩

def nodeRow (node : ConceptNode) : Row NodeColumns ConceptNode where
  scopeId := node.scopeId
  createdAt := timestamp node.createdAt
  columns := ⟨node.state.asStr, node.supersededBy, timestamp node.updatedAt⟩
  payload := sealFor nodeTag node.scopeId node.id node

def edgeRow (edge : ConceptEdge) : Row EdgeColumns ConceptEdge where
  scopeId := edge.scopeId
  createdAt := timestamp edge.createdAt
  columns := ⟨edge.fromNode, edge.toNode, edge.relation.asStr⟩
  payload := sealFor edgeTag edge.scopeId edge.id edge

/-- `INSERT .. ON CONFLICT(id) DO UPDATE`: every column follows but `created_at`. -/
def upsert {C α : Type} (t : Table Uuid (Row C α)) (id : Uuid) (row : Row C α) :
    Table Uuid (Row C α) :=
  match t.lookup id with
  | none => t.insert id row
  | some old => t.insert id { row with createdAt := old.createdAt }

/-- The database file and what an open transaction has written over it. -/
structure Connection where
  committed : Rows
  pending : Option Rows

open Connection

namespace Connection

def view (conn : Connection) : Rows := conn.pending.getD conn.committed

def write (conn : Connection) (rows : Rows) : Connection :=
  match conn.pending with
  | none => { conn with committed := rows }
  | some _ => { conn with pending := some rows }

def persistNode (conn : Connection) (node : ConceptNode) (fault : Option GraphError) :
    Except GraphError Connection :=
  match fault with
  | some err => .error err
  | none =>
    .ok (conn.write { conn.view with nodes := upsert conn.view.nodes node.id (nodeRow node) })

def persistEdge (conn : Connection) (edge : ConceptEdge) (fault : Option GraphError) :
    Except GraphError Connection :=
  match fault with
  | some err => .error err
  | none =>
    .ok (conn.write { conn.view with edges := upsert conn.view.edges edge.id (edgeRow edge) })

end Connection

structure TxFaults where
  beginFails : Bool
  node : Option GraphError
  edge : Option GraphError
  commitFails : Bool
  rollbackFails : Bool

def TxFaults.commits (faults : TxFaults) : Bool :=
  !faults.beginFails && faults.node.isNone && faults.edge.isNone && !faults.commitFails

namespace Connection

def rollback (conn : Connection) (faults : TxFaults) : Connection :=
  if faults.rollbackFails then conn else { conn with pending := none }

def persistPairInTx (conn : Connection) (node : ConceptNode) (edge : ConceptEdge)
    (faults : TxFaults) : Connection × Except GraphError Unit :=
  -- `BEGIN` is refused inside a transaction
  if faults.beginFails || conn.pending.isSome then (conn, .error .sqlite)
  else
    let opened := { conn with pending := some conn.committed }
    match opened.persistNode node faults.node with
    | .error err => (opened.rollback faults, .error err)
    | .ok written =>
      match written.persistEdge edge faults.edge with
      | .error err => (written.rollback faults, .error err)
      | .ok written =>
        if faults.commitFails then (written.rollback faults, .error .sqlite)
        else (⟨written.view, none⟩, .ok ())

end Connection

structure PersistentConceptGraph where
  graph : ConceptGraph
  conn : Connection

namespace PersistentConceptGraph

def create : PersistentConceptGraph := ⟨ConceptGraph.new, ⟨⟨∅, ∅⟩, none⟩⟩

def reopen (p : PersistentConceptGraph) : PersistentConceptGraph :=
  ⟨ConceptGraph.new, ⟨p.conn.committed, none⟩⟩

def addNode (p : PersistentConceptGraph) (node : ConceptNode) (fault : Option GraphError) :
    PersistentConceptGraph × Except GraphError NodeId :=
  match p.graph.addNode node with
  | (g, .error err) => (⟨g, p.conn⟩, .error err)
  | (g, .ok id) =>
    match p.conn.persistNode node fault with
    | .error err => (⟨(g.removeNode id).1, p.conn⟩, .error err)
    | .ok conn => (⟨g, conn⟩, .ok id)

def addEdge (p : PersistentConceptGraph) (edge : ConceptEdge) (fault : Option GraphError) :
    PersistentConceptGraph × Except GraphError EdgeId :=
  match p.graph.addEdge edge with
  | (g, .error err) => (⟨g, p.conn⟩, .error err)
  | (g, .ok id) =>
    match p.conn.persistEdge edge fault with
    | .error err => (⟨(g.removeEdge id).1, p.conn⟩, .error err)
    | .ok conn => (⟨g, conn⟩, .ok id)

def restoreNode (g : ConceptGraph) (id : NodeId) (node : ConceptNode) : ConceptGraph :=
  match g.getNode id with
  | none => g
  | some _ => g.setNode id node

def supersedeNode (p : PersistentConceptGraph) (predecessor successor : NodeId) (edgeId : EdgeId)
    (stamped created : Int) (faults : TxFaults) :
    PersistentConceptGraph × Except GraphError EdgeId :=
  match p.graph.getNode predecessor with
  | none => (p, .error (.nodeNotFound predecessor))
  | some predBefore =>
    match p.graph.supersedeNode predecessor successor edgeId stamped created with
    | (g, .error err) => (⟨g, p.conn⟩, .error err)
    | (g, .ok id) =>
      match g.getNode predecessor with
      | none => (⟨g, p.conn⟩, .error (.nodeNotFound predecessor))
      | some predAfter =>
        match (g.getEdges predecessor).find? fun e => e.id = id with
        | none =>
          (⟨g, p.conn⟩, .error (.persistence "expected supersedes edge to be present"))
        | some edge =>
          match p.conn.persistPairInTx predAfter edge faults with
          | (conn, .error err) =>
            (⟨restoreNode (g.removeEdge id).1 predecessor predBefore, conn⟩, .error err)
          | (conn, .ok ()) => (⟨g, conn⟩, .ok id)

def saveNode (p : PersistentConceptGraph) (id : NodeId) (fault : Option GraphError) :
    PersistentConceptGraph × Except GraphError Unit :=
  match p.graph.getNode id with
  | none => (p, .error (.nodeNotFound id))
  | some node =>
    match p.conn.persistNode node fault with
    | .error err => (p, .error err)
    | .ok conn => (⟨p.graph, conn⟩, .ok ())

/-- `SELECT .. WHERE scope_id = ?1 ORDER BY created_at ASC`. -/
def scopeRows {C α : Type} (t : Table Uuid (Row C α)) (scope : ScopeId) :
    List (Uuid × Row C α) :=
  (t.rows.filter fun e => e.2.scopeId = scope).insertionSort fun a b =>
    a.2.createdAt ≤ b.2.createdAt

def loadRows {C α : Type} (tag : String)
    (add : ConceptGraph → α → ConceptGraph × Except GraphError Uuid) (scope : ScopeId) :
    ConceptGraph → List (Uuid × Row C α) → ConceptGraph × Except GraphError Unit
  | g, [] => (g, .ok ())
  | g, (id, row) :: rest =>
    match row.payload.openWith scope (tag, scope, id) with
    | none => (g, .error .crypto)
    | some body =>
      match add g body with
      | (g', .error err) => (g', .error err)
      | (g', .ok _) => loadRows tag add scope g' rest

def loadScope (p : PersistentConceptGraph) (scope : ScopeId) :
    PersistentConceptGraph × Except GraphError (Nat × Nat) :=
  let nodeRows := scopeRows p.conn.view.nodes scope
  let edgeRows := scopeRows p.conn.view.edges scope
  match loadRows nodeTag ConceptGraph.addNode scope ConceptGraph.new nodeRows with
  | (g, .error err) => (⟨g, p.conn⟩, .error err)
  | (g, .ok ()) =>
    match loadRows edgeTag ConceptGraph.addEdge scope g edgeRows with
    | (g', .error err) => (⟨g', p.conn⟩, .error err)
    | (g', .ok ()) => (⟨g', p.conn⟩, .ok (nodeRows.length, edgeRows.length))

/-- The calls of a run, each with what the clock, the id generator and the database do to it. -/
inductive Call where
  | addNode (node : ConceptNode) (fault : Option GraphError)
  | addEdge (edge : ConceptEdge) (fault : Option GraphError)
  | supersedeNode (predecessor successor : NodeId) (edgeId : EdgeId) (stamped created : Int)
      (faults : TxFaults)
  | saveNode (id : NodeId) (fault : Option GraphError)

def perform (p : PersistentConceptGraph) : Call →
    PersistentConceptGraph × Except GraphError Unit
  | .addNode node fault => (p.addNode node fault).map id fun r => r.map fun _ => ()
  | .addEdge edge fault => (p.addEdge edge fault).map id fun r => r.map fun _ => ()
  | .supersedeNode predecessor successor edgeId stamped created faults =>
    (p.supersedeNode predecessor successor edgeId stamped created faults).map id fun r =>
      r.map fun _ => ()
  | .saveNode id fault => p.saveNode id fault

/-- The id drawn for the edge of a supersession is in use neither in memory nor on disk. -/
def Drawn (p : PersistentConceptGraph) : Call → Prop
  | .supersedeNode _ _ edgeId _ _ _ =>
    p.graph.edges.lookup edgeId = none ∧ p.conn.view.edges.lookup edgeId = none
  | _ => True

def system : System PersistentConceptGraph Call :=
  .ofNext (· = create) Drawn fun p call => (p.perform call).1

def inScope (g : ConceptGraph) (scope : ScopeId) (id : NodeId) : Bool :=
  (g.nodes.lookup id).any fun node => node.scopeId = scope

/-- Every scope can be loaded from the file and gives the nodes of that scope and the edges among
them that the memory holds. -/
def Reloads (p : PersistentConceptGraph) : Prop :=
  ∀ scope, ∃ reloaded counts, p.reopen.loadScope scope = (reloaded, .ok counts) ∧
    (∀ id, reloaded.graph.nodes.lookup id =
      (p.graph.nodes.lookup id).filter fun node => node.scopeId = scope) ∧
    ∀ id, reloaded.graph.edges.lookup id =
      (p.graph.edges.lookup id).filter fun edge =>
        inScope p.graph scope edge.fromNode && inScope p.graph scope edge.toNode

section Mirror

variable {C α : Type}

def Holds (tag : String) (scopeOf : α → ScopeId) (id : Uuid) (row : Row C α) (item : α) : Prop :=
  row.scopeId = scopeOf item ∧ row.payload = sealFor tag (scopeOf item) id item

def Mirrors (tag : String) (scopeOf : α → ScopeId) (rows : Table Uuid (Row C α))
    (memory : Table Uuid α) : Prop :=
  ∀ id, Option.Rel (Holds tag scopeOf id) (rows.lookup id) (memory.lookup id)

variable {tag : String} {scopeOf : α → ScopeId} {rows : Table Uuid (Row C α)}
  {memory : Table Uuid α}

theorem Mirrors.upsert (h : Mirrors tag scopeOf rows memory) {id : Uuid} {row : Row C α} {item : α}
    (hrow : Holds tag scopeOf id row item) :
    Mirrors tag scopeOf (upsert rows id row) (memory.insert id item) := by
  intro k
  unfold Knowledge.Concept.upsert
  by_cases hk : k = id
  · subst hk
    cases hold : rows.lookup k with
    | none =>
      rw [AList.lookup_insert, AList.lookup_insert]
      exact .some hrow
    | some old =>
      rw [AList.lookup_insert, AList.lookup_insert]
      exact .some hrow
  · cases hold : rows.lookup id with
    | none => simpa [AList.lookup_insert_ne hk] using h k
    | some old => simpa [AList.lookup_insert_ne hk] using h k

theorem Mirrors.congr (h : Mirrors tag scopeOf rows memory) {memory' : Table Uuid α}
    (hsame : ∀ id, memory'.lookup id = memory.lookup id) :
    Mirrors tag scopeOf rows memory' := by
  intro id
  rw [hsame]
  exact h id

theorem Mirrors.row_of_item (h : Mirrors tag scopeOf rows memory) {id : Uuid} {item : α}
    (hl : memory.lookup id = some item) :
    ∃ row, rows.lookup id = some row ∧ Holds tag scopeOf id row item := by
  have hid := h id
  rw [hl] at hid
  cases hrow : rows.lookup id with
  | none => simp [hrow] at hid
  | some row =>
    rw [hrow] at hid
    cases hid with
    | some hholds => exact ⟨row, rfl, hholds⟩

theorem Mirrors.item_of_row (h : Mirrors tag scopeOf rows memory) {id : Uuid} {row : Row C α}
    (hl : rows.lookup id = some row) :
    ∃ item, memory.lookup id = some item ∧ Holds tag scopeOf id row item := by
  have hid := h id
  rw [hl] at hid
  cases hitem : memory.lookup id with
  | none => simp [hitem] at hid
  | some item =>
    rw [hitem] at hid
    cases hid with
    | some hholds => exact ⟨item, rfl, hholds⟩

theorem mem_scopeRows {scope : ScopeId} {id : Uuid} {row : Row C α} :
    (id, row) ∈ scopeRows rows scope ↔ rows.lookup id = some row ∧ row.scopeId = scope := by
  rw [scopeRows, (List.perm_insertionSort _ _).mem_iff, List.mem_filter, Table.mem_rows_iff]
  simp

theorem nodup_scopeRows (scope : ScopeId) :
    ((scopeRows rows scope).map Prod.fst).Nodup := by
  rw [scopeRows, ((List.perm_insertionSort _ _).map _).nodup_iff]
  exact (Table.keys_nodup_rows rows).sublist (List.filter_sublist.map _)

theorem Mirrors.select (h : Mirrors tag scopeOf rows memory) {scope : ScopeId}
    {loaded : Table Uuid α}
    (hin : ∀ e ∈ scopeRows rows scope, loaded.lookup e.1 = some e.2.payload.plain)
    (hout : ∀ id, id ∉ (scopeRows rows scope).map Prod.fst → loaded.lookup id = none) (id : Uuid) :
    loaded.lookup id = (memory.lookup id).filter fun item => scopeOf item = scope := by
  have hnone : (∀ row, rows.lookup id = some row → row.scopeId ≠ scope) →
      loaded.lookup id = none := by
    intro hne
    refine hout id fun hmem => ?_
    obtain ⟨⟨k, row⟩, hrow, rfl⟩ := List.mem_map.mp hmem
    exact hne row (mem_scopeRows.mp hrow).1 (mem_scopeRows.mp hrow).2
  cases hitem : memory.lookup id with
  | none =>
    rw [Option.filter_none]
    refine hnone fun row hrow => ?_
    obtain ⟨item, hl, -⟩ := h.item_of_row hrow
    simp [hitem] at hl
  | some item =>
    obtain ⟨row, hrow, hscope, hpayload⟩ := h.row_of_item hitem
    by_cases hs : scopeOf item = scope
    · have hload : loaded.lookup id = some row.payload.plain :=
        hin (id, row) (mem_scopeRows.mpr ⟨hrow, hscope.trans hs⟩)
      rw [hload, hpayload, Option.filter_some, if_pos (by simpa using hs)]
      rfl
    · rw [Option.filter_some, if_neg (by simpa using hs)]
      refine hnone fun row' hrow' => ?_
      rw [hrow] at hrow'
      obtain rfl := Option.some.inj hrow'
      rwa [hscope]

end Mirror

theorem loadRows_ok {C α β : Type} {tag : String} {scope : ScopeId}
    {add : ConceptGraph → α → ConceptGraph × Except GraphError Uuid} (idOf : α → Uuid)
    (items : ConceptGraph → Table Uuid α) (others : ConceptGraph → β)
    (Ready : ConceptGraph → α → Prop)
    (hadd : ∀ g a, Ready g a → ∃ g', add g a = (g', .ok (idOf a)) ∧ others g' = others g ∧
      items g' = (items g).insert (idOf a) a ∧ ∀ b, idOf b ≠ idOf a → Ready g b → Ready g' b)
    {l : List (Uuid × Row C α)} (hnodup : (l.map Prod.fst).Nodup) {g : ConceptGraph}
    (hsealed : ∀ e ∈ l, ∃ a, idOf a = e.1 ∧ e.2.payload = sealFor tag scope e.1 a ∧ Ready g a) :
    ∃ g', loadRows tag add scope g l = (g', .ok ()) ∧ others g' = others g ∧
      (∀ e ∈ l, (items g').lookup e.1 = some e.2.payload.plain) ∧
      ∀ id, id ∉ l.map Prod.fst → (items g').lookup id = (items g).lookup id := by
  induction l generalizing g with
  | nil => exact ⟨g, rfl, rfl, by simp, fun _ _ => rfl⟩
  | cons e l ih =>
    obtain ⟨id, row⟩ := e
    rw [List.map_cons, List.nodup_cons] at hnodup
    obtain ⟨hnot, hnodup⟩ := hnodup
    obtain ⟨a, hid, hpayload, hready⟩ := hsealed (id, row) List.mem_cons_self
    dsimp only at hid hpayload
    subst hid
    obtain ⟨g₁, hg₁, hothers₁, hitems₁, hkeep⟩ := hadd g a hready
    have hsealed₁ : ∀ e ∈ l, ∃ b, idOf b = e.1 ∧ e.2.payload = sealFor tag scope e.1 b ∧
        Ready g₁ b := by
      intro e he
      obtain ⟨b, hb, hsealed, hready⟩ := hsealed e (List.mem_cons_of_mem _ he)
      have hne : idOf b ≠ idOf a :=
        fun heq => hnot (List.mem_map.mpr ⟨e, he, hb.symm.trans heq⟩)
      exact ⟨b, hb, hsealed, hkeep b hne hready⟩
    obtain ⟨g', hload, hothers, hin, hrest⟩ := ih hnodup hsealed₁
    refine ⟨g', ?_, hothers.trans hothers₁, fun e he => ?_, fun k hk => ?_⟩
    · simp only [loadRows, hpayload, sealFor, Sealed.openWith_mk, hg₁]
      exact hload
    · obtain rfl | he := List.mem_cons.mp he
      · rw [hrest _ hnot, hitems₁, AList.lookup_insert, hpayload]
        rfl
      · exact hin e he
    · rw [List.map_cons, List.mem_cons, not_or] at hk
      rw [hrest k hk.2, hitems₁, AList.lookup_insert_ne hk.1]

def scopeOf (g : ConceptGraph) (id : NodeId) : Option ScopeId :=
  (g.nodes.lookup id).map ConceptNode.scopeId

theorem inScope_iff {g : ConceptGraph} {scope : ScopeId} {id : NodeId} :
    inScope g scope id = true ↔ scopeOf g id = some scope := by
  unfold inScope scopeOf
  cases g.nodes.lookup id <;> simp

/-- Memory and file hold the same nodes and edges, and an edge lies in the scope of both its
ends. -/
structure Lockstep (p : PersistentConceptGraph) : Prop where
  wired : p.graph.Wired
  idle : p.conn.pending = none
  nodes : Mirrors nodeTag ConceptNode.scopeId p.conn.committed.nodes p.graph.nodes
  edges : Mirrors edgeTag ConceptEdge.scopeId p.conn.committed.edges p.graph.edges
  ends : ∀ id edge, p.graph.edges.lookup id = some edge →
    scopeOf p.graph edge.fromNode = some edge.scopeId ∧
      scopeOf p.graph edge.toNode = some edge.scopeId

namespace Lockstep

variable {p : PersistentConceptGraph}

theorem create : Lockstep PersistentConceptGraph.create where
  wired := ConceptGraph.Wired.new
  idle := rfl
  nodes _ := by simp [PersistentConceptGraph.create, new]
  edges _ := by simp [PersistentConceptGraph.create, new]
  ends _ _ h := by simp [PersistentConceptGraph.create, new] at h

theorem reloads (h : Lockstep p) : Reloads p := by
  intro scope
  have hnodes : ∀ e ∈ scopeRows p.conn.committed.nodes scope, ∃ node : ConceptNode,
      node.id = e.1 ∧ e.2.payload = sealFor nodeTag scope e.1 node ∧
        new.nodes.lookup node.id = none := by
    rintro ⟨id, row⟩ he
    obtain ⟨hrow, hscope⟩ := mem_scopeRows.mp he
    obtain ⟨node, hnode, hrs, hpayload⟩ := h.nodes.item_of_row hrow
    exact ⟨node, h.wired.nodeId id node hnode, by rw [hpayload, ← hrs, hscope], rfl⟩
  obtain ⟨g, hload, hedges, hin, hout⟩ := loadRows_ok ConceptNode.id ConceptGraph.nodes
    ConceptGraph.edges (fun g node => g.nodes.lookup node.id = none)
    (fun g node hnone => ⟨_, addNode_of_absent hnone, rfl, rfl,
      fun _ hne hfree => (AList.lookup_insert_ne hne).trans hfree⟩)
    (nodup_scopeRows scope) hnodes
  have hselect := h.nodes.select hin fun id hid => by rw [hout id hid]; simp [new]
  have hpresent : ∀ id, scopeOf p.graph id = some scope → g.nodes.lookup id ≠ none := by
    intro id hid
    obtain ⟨node, hnode, hs⟩ := Option.map_eq_some_iff.mp hid
    rw [hselect id, hnode, Option.filter_some, if_pos (by simpa using hs)]
    simp
  have hends : ∀ e ∈ scopeRows p.conn.committed.edges scope, ∃ edge : ConceptEdge,
      edge.id = e.1 ∧ e.2.payload = sealFor edgeTag scope e.1 edge ∧
        g.nodes.lookup edge.fromNode ≠ none ∧ g.nodes.lookup edge.toNode ≠ none := by
    rintro ⟨id, row⟩ he
    obtain ⟨hrow, hscope⟩ := mem_scopeRows.mp he
    obtain ⟨edge, hedge, hrs, hpayload⟩ := h.edges.item_of_row hrow
    obtain ⟨hfrom, hto⟩ := h.ends id edge hedge
    rw [← hrs, hscope] at hfrom hto
    exact ⟨edge, h.wired.edgeId id edge hedge, by rw [hpayload, ← hrs, hscope],
      hpresent _ hfrom, hpresent _ hto⟩
  obtain ⟨g', hload', hnodes', hin', hout'⟩ := loadRows_ok ConceptEdge.id ConceptGraph.edges
    ConceptGraph.nodes
    (fun g edge => g.nodes.lookup edge.fromNode ≠ none ∧ g.nodes.lookup edge.toNode ≠ none)
    (fun g edge hends => ⟨_, addEdge_of_present hends.1 hends.2, rfl, rfl,
      fun _ _ hends' => hends'⟩)
    (nodup_scopeRows scope) hends
  have hselect' := h.edges.select hin' fun id hid => by
    rw [hout' id hid, hedges]
    simp [new]
  refine ⟨⟨g', p.reopen.conn⟩, ((scopeRows p.conn.committed.nodes scope).length,
    (scopeRows p.conn.committed.edges scope).length), ?_, fun id => ?_, fun id => ?_⟩
  · simp only [loadScope, reopen, view, Option.getD_none, hload, hload']
  · rw [hnodes', hselect id]
  · rw [hselect' id]
    cases hedge : p.graph.edges.lookup id with
    | none => rfl
    | some edge =>
      obtain ⟨hfrom, hto⟩ := h.ends id edge hedge
      have hiff : edge.scopeId = scope ↔
          (inScope p.graph scope edge.fromNode && inScope p.graph scope edge.toNode) = true := by
        rw [Bool.and_eq_true, inScope_iff, inScope_iff, hfrom, hto]
        simp
      simp only [Option.filter_some, decide_eq_true_iff, hiff]

theorem of_same (h : Lockstep p) {g : ConceptGraph} (hs : g.Same p.graph) :
    Lockstep ⟨g, p.conn⟩ where
  wired := hs.wired h.wired
  idle := h.idle
  nodes := h.nodes.congr hs.nodes
  edges := h.edges.congr hs.edges
  ends id edge hl := by
    simp only [scopeOf, hs.nodes]
    exact h.ends id edge ((hs.edges id).symm.trans hl)

end Lockstep

theorem persistNode_idle {conn : Connection} (h : conn.pending = none) (node : ConceptNode) :
    conn.persistNode node none =
      .ok ⟨{ conn.committed with
        nodes := upsert conn.committed.nodes node.id (nodeRow node) }, none⟩ := by
  simp [persistNode, write, view, h]

theorem persistEdge_idle {conn : Connection} (h : conn.pending = none) (edge : ConceptEdge) :
    conn.persistEdge edge none =
      .ok ⟨{ conn.committed with
        edges := upsert conn.committed.edges edge.id (edgeRow edge) }, none⟩ := by
  simp [persistEdge, write, view, h]

theorem persistPairInTx_idle {conn : Connection} (h : conn.pending = none) (node : ConceptNode)
    (edge : ConceptEdge) {faults : TxFaults}
    (hroll : faults.beginFails = false → faults.commits = false →
      faults.rollbackFails = false) :
    (∃ err, conn.persistPairInTx node edge faults = (conn, .error err)) ∨
      (faults.commits = true ∧ conn.persistPairInTx node edge faults =
        (⟨⟨upsert conn.committed.nodes node.id (nodeRow node),
          upsert conn.committed.edges edge.id (edgeRow edge)⟩, none⟩, .ok ())) := by
  obtain ⟨committed, pending⟩ := conn
  obtain ⟨beginFails, nodeFault, edgeFault, commitFails, rollbackFails⟩ := faults
  dsimp only at h
  subst h
  cases beginFails <;> cases nodeFault <;> cases edgeFault <;> cases commitFails <;>
    simp_all [persistPairInTx, persistNode, persistEdge, rollback, write, view, TxFaults.commits]

/-- A call from a state in lockstep ends in one, and if it fails the memory is as before. -/
def Settles {α : Type} (p : PersistentConceptGraph)
    (r : PersistentConceptGraph × Except GraphError α) : Prop :=
  Lockstep r.1 ∧ ∀ err, r.2 = .error err → r.1.graph.Same p.graph

theorem Settles.refused {α : Type} {p : PersistentConceptGraph} (h : Lockstep p)
    {g : ConceptGraph} (hs : g.Same p.graph) (r : Except GraphError α) :
    Settles p (⟨g, p.conn⟩, r) :=
  ⟨h.of_same hs, fun _ _ => hs⟩

theorem Settles.done {α : Type} {p q : PersistentConceptGraph} (h : Lockstep q) (a : α) :
    Settles p (q, .ok a) :=
  ⟨h, by simp⟩

namespace Lockstep

variable {p : PersistentConceptGraph}

theorem addNode (h : Lockstep p) (node : ConceptNode) (fault : Option GraphError) :
    Settles p (p.addNode node fault) := by
  unfold PersistentConceptGraph.addNode
  cases hnode : p.graph.nodes.lookup node.id with
  | some old =>
    have hdup : p.graph.addNode node = (p.graph, .error (.duplicateNode node.id)) := by
      simp [ConceptGraph.addNode, hnode]
    rw [hdup]
    exact Settles.refused h (.refl _) _
  | none =>
    have hwired := h.wired.addNode hnode
    have hsame := h.wired.removeNode_addNode hnode
    rw [addNode_of_absent hnode] at hwired hsame ⊢
    cases fault with
    | some err => exact Settles.refused h hsame _
    | none =>
      simp only [persistNode_idle h.idle]
      apply Settles.done
      refine ⟨hwired, rfl, h.nodes.upsert ⟨rfl, rfl⟩, h.edges, ?_⟩
      intro id edge hedge
      have hkeep : ∀ n, scopeOf p.graph n = some edge.scopeId →
          ((p.graph.nodes.insert node.id node).lookup n).map ConceptNode.scopeId =
            some edge.scopeId := by
        intro n hn
        have hne : n ≠ node.id := by
          rintro rfl
          simp [scopeOf, hnode] at hn
        rw [AList.lookup_insert_ne hne]
        exact hn
      obtain ⟨hfrom, hto⟩ := h.ends id edge hedge
      exact ⟨hkeep _ hfrom, hkeep _ hto⟩

theorem saveNode (h : Lockstep p) (id : NodeId) (fault : Option GraphError) :
    Settles p (p.saveNode id fault) := by
  unfold PersistentConceptGraph.saveNode getNode
  cases hnode : p.graph.nodes.lookup id with
  | none => exact Settles.refused h (.refl _) _
  | some node =>
    cases fault with
    | some err => exact Settles.refused h (.refl _) _
    | none =>
      simp only [persistNode_idle h.idle]
      have hid := h.wired.nodeId id node hnode
      apply Settles.done
      refine ⟨h.wired, rfl, ?_, h.edges, h.ends⟩
      have hrow : Holds nodeTag ConceptNode.scopeId node.id (nodeRow node) node := ⟨rfl, rfl⟩
      refine (h.nodes.upsert hrow).congr fun k => ?_
      rw [Table.lookup_insert_ite]
      split
      · rename_i hk
        rw [hk, hid, hnode]
      · rfl

theorem addEdge (h : Lockstep p) (edge : ConceptEdge) (fault : Option GraphError)
    (hnew : scopeOf p.graph edge.fromNode ≠ none → scopeOf p.graph edge.toNode ≠ none →
      fault ≠ none → p.graph.edges.lookup edge.id = none)
    (hscope : ∀ a b, scopeOf p.graph edge.fromNode = some a →
      scopeOf p.graph edge.toNode = some b → fault = none →
        a = edge.scopeId ∧ b = edge.scopeId) :
    Settles p (p.addEdge edge fault) := by
  unfold PersistentConceptGraph.addEdge
  obtain ⟨err, herr⟩ | ⟨hfrom, hto⟩ := p.graph.addEdge_cases edge
  · rw [herr]
    exact Settles.refused h (.refl _) _
  have hwired := h.wired.addEdge hfrom hto
  obtain ⟨a, ha⟩ := Option.ne_none_iff_exists'.mp hfrom
  obtain ⟨b, hb⟩ := Option.ne_none_iff_exists'.mp hto
  have hsa : scopeOf p.graph edge.fromNode = some a.scopeId := by simp [scopeOf, ha]
  have hsb : scopeOf p.graph edge.toNode = some b.scopeId := by simp [scopeOf, hb]
  cases fault with
  | some err =>
    have hsame := h.wired.removeEdge_addEdge hfrom hto (hnew (by simp [hsa]) (by simp [hsb])
      (by simp))
    rw [addEdge_of_present hfrom hto] at hsame ⊢
    exact Settles.refused h hsame _
  | none =>
    rw [addEdge_of_present hfrom hto] at hwired ⊢
    simp only [persistEdge_idle h.idle]
    apply Settles.done
    refine ⟨hwired, rfl, h.nodes, h.edges.upsert ⟨rfl, rfl⟩, ?_⟩
    intro id e he
    rw [Table.lookup_insert_ite] at he
    split at he
    · obtain rfl := Option.some.inj he
      obtain ⟨haw, hbw⟩ := hscope _ _ hsa hsb rfl
      exact ⟨hsa.trans (congrArg some haw), hsb.trans (congrArg some hbw)⟩
    · exact h.ends id e he

theorem scopeOf_insert {g g' : ConceptGraph} {id : NodeId} {node node' : ConceptNode}
    (hl : g.nodes.lookup id = some node) (hg : g'.nodes = g.nodes.insert id node')
    (hs : node'.scopeId = node.scopeId) (n : NodeId) : scopeOf g' n = scopeOf g n := by
  simp only [scopeOf, hg, Table.lookup_insert_ite]
  split
  · rename_i hn
    rw [hn, hl, Option.map_some, Option.map_some, hs]
  · rfl

theorem same_restoreNode {g g' : ConceptGraph} {id : NodeId} {node node' : ConceptNode}
    (hl : g.nodes.lookup id = some node) (hs : g'.Same (g.setNode id node')) :
    (restoreNode g' id node).Same g := by
  have hset : ∀ k, (g.setNode id node').nodes.lookup k =
      if k = id then some node' else g.nodes.lookup k :=
    fun k => Table.lookup_insert_ite g.nodes id k node'
  have hslot : g'.getNode id = some node' := by
    rw [getNode, hs.nodes, hset, if_pos rfl]
  simp only [restoreNode, hslot]
  refine ⟨fun k => ?_, hs.edges, hs.outgoing, hs.incoming⟩
  rw [setNode, Table.lookup_insert_ite]
  split
  · rename_i hk
    rw [hk, hl]
  · rename_i hk
    rw [hs.nodes, hset, if_neg hk]

theorem supersedeNode (h : Lockstep p) (predecessor successor : NodeId) (edgeId : EdgeId)
    (stamped created : Int) (faults : TxFaults) (hdrawn : p.graph.edges.lookup edgeId = none)
    (hsound : ∀ a b, predecessor ≠ successor → scopeOf p.graph predecessor = some a →
      scopeOf p.graph successor = some b →
        (faults.beginFails = false → faults.commits = false → faults.rollbackFails = false) ∧
          (faults.commits = true → a = b)) :
    Settles p (p.supersedeNode predecessor successor edgeId stamped created faults) := by
  unfold PersistentConceptGraph.supersedeNode
  cases hpred : p.graph.getNode predecessor with
  | none => exact Settles.refused h (.refl _) _
  | some pred =>
    obtain ⟨err, herr⟩ | ⟨pred', succ, hl, hsucc, hne, hok⟩ :=
      p.graph.supersedeNode_cases predecessor successor edgeId stamped created
    · rw [herr]
      exact Settles.refused h (.refl _) _
    obtain rfl : pred' = pred := Option.some.inj (hl.symm.trans hpred)
    have hid := h.wired.nodeId _ _ hl
    obtain ⟨hroll, hscopes⟩ := hsound pred'.scopeId succ.scopeId hne (by simp [scopeOf, hl])
      (by simp [scopeOf, hsucc])
    have hput := superseded_of_wired h.wired
      (pred'.markSupersededBy successor stamped)
      ⟨edgeId, predecessor, successor, .supersedes, pred'.scopeId, created⟩ hid rfl
      (by simp [hl]) hsucc (Ne.symm hne) hdrawn
    rw [hok]
    generalize ((p.graph.setNode predecessor (pred'.markSupersededBy successor stamped)).addEdge
      ⟨edgeId, predecessor, successor, .supersedes, pred'.scopeId, created⟩).1 = g at hput ⊢
    have hget : g.getNode predecessor = some (pred'.markSupersededBy successor stamped) := by
      rw [getNode, hput.nodes, AList.lookup_insert]
    simp only [hget, hput.found]
    obtain ⟨err, herr⟩ | ⟨hcommits, hstored⟩ := persistPairInTx_idle h.idle
      (pred'.markSupersededBy successor stamped)
      ⟨edgeId, predecessor, successor, .supersedes, pred'.scopeId, created⟩ hroll
    · simp only [herr]
      exact Settles.refused h (same_restoreNode hl hput.undone) _
    · simp only [hstored]
      apply Settles.done
      have hsame : ∀ n, scopeOf g n = scopeOf p.graph n := scopeOf_insert hl hput.nodes rfl
      refine ⟨hput.wired, rfl, ?_, ?_, fun id e he => ?_⟩
      · rw [hput.nodes]
        exact hid ▸ h.nodes.upsert ⟨rfl, rfl⟩
      · rw [hput.edges]
        exact h.edges.upsert ⟨rfl, rfl⟩
      · rw [hsame, hsame]
        rw [hput.edges, Table.lookup_insert_ite] at he
        split at he
        · obtain rfl := Option.some.inj he
          simp [scopeOf, hl, hsucc, hscopes hcommits]
        · exact h.ends id e he

end Lockstep

/-- The calls that a run may make: an edge is only written inside the scope of both its ends, one
that reuses an id is written without fault, and a transaction that fails is rolled back. -/
def Sound (p : PersistentConceptGraph) : Call → Prop
  | .addNode _ _ => True
  | .addEdge edge fault =>
    ∀ a ∈ scopeOf p.graph edge.fromNode, ∀ b ∈ scopeOf p.graph edge.toNode,
      (fault ≠ none → p.graph.edges.lookup edge.id = none) ∧
        (fault = none → a = edge.scopeId ∧ b = edge.scopeId)
  | .supersedeNode predecessor successor _ _ _ faults =>
    predecessor ≠ successor →
      ∀ a ∈ scopeOf p.graph predecessor, ∀ b ∈ scopeOf p.graph successor,
        (faults.beginFails = false → faults.commits = false → faults.rollbackFails = false) ∧
          (faults.commits = true → a = b)
  | .saveNode _ _ => True

theorem Settles.map {α β : Type} {p : PersistentConceptGraph}
    {r : PersistentConceptGraph × Except GraphError α} (h : Settles p r) (f : α → β) :
    Settles p (r.map id fun e => e.map f) := by
  obtain ⟨q, e⟩ := r
  refine ⟨h.1, fun err herr => ?_⟩
  cases e with
  | error err' => exact h.2 err' rfl
  | ok a => cases herr

theorem Lockstep.perform {p : PersistentConceptGraph} (h : Lockstep p) {call : Call}
    (hdrawn : Drawn p call) (hsound : Sound p call) : Settles p (p.perform call) := by
  cases call with
  | addNode node fault => exact (h.addNode node fault).map _
  | addEdge edge fault =>
    refine Settles.map (h.addEdge edge fault (fun hfrom hto => ?_) fun a b ha hb => ?_) _
    · obtain ⟨a, ha⟩ := Option.ne_none_iff_exists'.mp hfrom
      obtain ⟨b, hb⟩ := Option.ne_none_iff_exists'.mp hto
      exact (hsound a ha b hb).1
    · exact (hsound a ha b hb).2
  | supersedeNode predecessor successor edgeId stamped created faults =>
    exact (h.supersedeNode predecessor successor edgeId stamped created faults hdrawn.1
      fun a b hne ha hb => hsound hne a ha b hb).map _
  | saveNode id fault => exact h.saveNode id fault

/-- In a run of sound calls a call that fails leaves the memory as it was, and at every point each
scope can be loaded from the file as the memory holds it. -/
theorem graph_reloads {p : PersistentConceptGraph} (h : (system.restrict Sound).Reachable p) :
    Reloads p ∧ ∀ call, Drawn p call → Sound p call → ∀ err, (p.perform call).2 = .error err →
      (p.perform call).1.graph.Same p.graph := by
  have hlock : Lockstep p := by
    refine h.invariant Lockstep ?_ ?_
    · rintro _ rfl
      exact Lockstep.create
    · rintro q call _ _ hq ⟨⟨hdrawn, rfl⟩, hsound⟩
      exact (hq.perform hdrawn hsound).1
  exact ⟨hlock.reloads, fun call hdrawn hsound => (hlock.perform hdrawn hsound).2⟩

def run (calls : List Call) : PersistentConceptGraph :=
  calls.foldl (fun p call => (p.perform call).1) create

theorem reachable_append {cond : PersistentConceptGraph → Call → Prop} {calls : List Call}
    (call : Call) (h : (system.restrict cond).Reachable (run calls))
    (hdrawn : Drawn (run calls) call) (hcond : cond (run calls) call) :
    (system.restrict cond).Reachable (run (calls ++ [call])) := by
  have hrun : run (calls ++ [call]) = ((run calls).perform call).1 := List.foldl_append
  rw [hrun]
  exact h.step ⟨⟨hdrawn, rfl⟩, hcond⟩

def atlas : ConceptNode :=
  ⟨1, "Atlas", "codename of the launch", 1, .candidate, none, 0, 0⟩

def twoNodes (scope : ScopeId) : List Call :=
  [.addNode atlas none, .addNode { atlas with id := 2, scopeId := scope } none]

def supersede : Call := .supersedeNode 1 2 9 5 5 ⟨false, none, none, false, false⟩

theorem reachable_twoNodes {cond : PersistentConceptGraph → Call → Prop}
    (h : ∀ p node fault, cond p (.addNode node fault)) (scope : ScopeId) :
    (system.restrict cond).Reachable (run (twoNodes scope)) :=
  have hempty : (system.restrict cond).Reachable (run []) := .init rfl
  reachable_append _ (reachable_append (.addNode atlas none) hempty trivial (h _ _ _)) trivial
    (h _ _ _)

theorem graph_reloads_one_scope :
    (system.restrict Sound).Reachable (run (twoNodes 1 ++ [supersede])) ∧
      Reloads (run (twoNodes 1 ++ [supersede])) := by
  have hdrawn : (run (twoNodes 1)).graph.edges.lookup 9 = none ∧
      (run (twoNodes 1)).conn.view.edges.lookup 9 = none := by
    decide +kernel
  have hscopes : scopeOf (run (twoNodes 1)).graph 1 = some 1 ∧
      scopeOf (run (twoNodes 1)).graph 2 = some 1 := by
    decide +kernel
  have hsound : Sound (run (twoNodes 1)) supersede := by
    intro _ a ha b hb
    obtain rfl := Option.some.inj (hscopes.1.symm.trans ha)
    obtain rfl := Option.some.inj (hscopes.2.symm.trans hb)
    simp [TxFaults.commits]
  have h := reachable_append supersede (reachable_twoNodes (fun _ _ _ => trivial) 1) hdrawn hsound
  exact ⟨h, (graph_reloads h).1⟩

def selfLoop (createdAt : Int) (fault : Option GraphError) : Call :=
  .addEdge ⟨9, 1, 1, .isA, 1, createdAt⟩ fault

/-- Across scopes a supersession leaves an edge that the predecessor's scope cannot load; and an
edge that is added again takes the one that was there with it when the write fails. -/
theorem cross_scope_edge_unloadable :
    (∃ p, system.Reachable p ∧ ¬Reloads p) ∧
      ∃ p call err, system.Reachable p ∧ Drawn p call ∧ (p.perform call).2 = .error err ∧
        ¬(p.perform call).1.graph.Same p.graph := by
  have hreach : ∀ scope, (system.restrict fun _ _ => True).Reachable (run (twoNodes scope)) :=
    reachable_twoNodes fun _ _ _ => trivial
  constructor
  · have hdrawn : (run (twoNodes 2)).graph.edges.lookup 9 = none ∧
        (run (twoNodes 2)).conn.view.edges.lookup 9 = none := by
      decide +kernel
    have hload : ((run (twoNodes 2 ++ [supersede])).reopen.loadScope 1).2 =
        .error (.danglingEdge 2) := by
      decide +kernel
    refine ⟨run (twoNodes 2 ++ [supersede]),
      (reachable_append supersede (hreach 2) hdrawn trivial).of_restrict, fun h => ?_⟩
    obtain ⟨reloaded, counts, hok, -⟩ := h 1
    rw [hok] at hload
    cases hload
  · have hfails : ((run (twoNodes 1 ++ [selfLoop 5 none])).perform
        (selfLoop 6 (some .sqlite))).2 = .error .sqlite := by
      decide +kernel
    have hgone : ((run (twoNodes 1 ++ [selfLoop 5 none])).perform
        (selfLoop 6 (some .sqlite))).1.graph.edges.lookup 9 ≠
          (run (twoNodes 1 ++ [selfLoop 5 none])).graph.edges.lookup 9 := by
      decide +kernel
    exact ⟨run (twoNodes 1 ++ [selfLoop 5 none]), selfLoop 6 (some .sqlite), .sqlite,
      (reachable_append (selfLoop 5 none) (hreach 1) trivial trivial).of_restrict, trivial, hfails,
      fun h => hgone (h.edges 9)⟩

end PersistentConceptGraph

end Knowledge.Concept
