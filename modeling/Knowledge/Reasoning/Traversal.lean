import Knowledge.Concept.Built
import Knowledge.Lib.Breadth
import Knowledge.Lib.Machine

/-!
`crates/reasoning_engine/src/traversal.rs`: the budgeted breadth-first walk over the concept graph,
to one target or to everything around a node.
-/

set_option autoImplicit false

namespace Knowledge.Traversal
open Knowledge.Breadth Knowledge.Machine
open Knowledge.Sync (Uuid)
open Knowledge.Memory (ScopeId)
open Knowledge.Concept (NodeId EdgeId ConceptEdge ConceptGraph RelationType)

inductive TraversalDirection where
  | outgoing
  | incoming
  | both

structure TraversalBudget where
  maxHops : Nat
  maxNodesVisited : Nat
  maxTimeMs : Nat
  maxEdgesPerHop : Nat

structure TraversalQuery where
  start : NodeId
  target : Option NodeId
  edgeTypes : List RelationType
  scopes : List ScopeId
  direction : TraversalDirection

structure TraversedPath (F : Type) where
  nodes : List NodeId
  edges : List EdgeId
  score : F

structure ReasoningTrace where
  nodesExpanded : Nat
  edgesInspected : Nat
  hopsTaken : Nat
  elapsedMs : Nat
  budgetExhausted : Bool

structure TraversalResult (F : Type) where
  paths : List (TraversedPath F)
  visited : List NodeId
  trace : ReasoningTrace

structure Entry where
  node : NodeId
  depth : Nat
  nodePath : List NodeId
  edgePath : List EdgeId
  relPath : List RelationType

open Entry

/-- What the walk has so far. The set of visited nodes is that of `visited_order`. -/
structure Walk (F : Type) where
  visited : List NodeId
  frontier : List Entry
  paths : List (TraversedPath F)
  trace : ReasoningTrace

abbrev Clock := Nat → Nat

def elapsedMsSaturating (start now : Nat) : Nat := min ((now-start)/1000000) u64Max

def edgePassesFilter (edge : ConceptEdge) (query : TraversalQuery) : Bool :=
  if !query.edgeTypes.isEmpty && !query.edgeTypes.contains edge.relation then false
  else if !query.scopes.isEmpty && !query.scopes.contains edge.scopeId then false
  else true

def follows (query : TraversalQuery) (node : NodeId) (edge : ConceptEdge) :
    Option (NodeId × EdgeId × RelationType) :=
  if edgePassesFilter edge query then
    match query.direction with
    | .outgoing => if edge.fromNode = node then some (edge.toNode, edge.id, edge.relation) else none
    | .incoming => if edge.toNode = node then some (edge.fromNode, edge.id, edge.relation) else none
    | .both =>
      if edge.fromNode = node then some (edge.toNode, edge.id, edge.relation)
      else if edge.toNode = node then some (edge.fromNode, edge.id, edge.relation)
      else none
  else none

def expand (g : ConceptGraph) (query : TraversalQuery) (node : NodeId) :
    List (NodeId × EdgeId × RelationType) :=
  (g.getEdges node).filterMap (follows query node)

section

variable {F : Type} (score : Nat → List RelationType → F) (budget : TraversalBudget)
  (query : TraversalQuery)

def Entry.extend (entry : Entry) (next : NodeId × EdgeId × RelationType) : Entry :=
  ⟨next.1, entry.depth+1, entry.nodePath ++ [next.1], entry.edgePath ++ [next.2.1],
    entry.relPath ++ [next.2.2]⟩

def Entry.path (entry : Entry) : TraversedPath F :=
  ⟨entry.nodePath, entry.edgePath, score (entry.nodePath.length-1) entry.relPath⟩

def Walk.inspect (w : Walk F) : Walk F :=
  { w with trace := { w.trace with edgesInspected := w.trace.edgesInspected+1 } }

def visitAll (entry : Entry) :
    List (NodeId × EdgeId × RelationType) → Nat → Walk F → Bool × Walk F
  | [], _, w => (false, w)
  | next :: rest, emitted, w =>
    if budget.maxEdgesPerHop ≤ emitted then (false, w)
    else
      let w := w.inspect
      if w.visited.contains next.1 then visitAll entry rest emitted w
      else
        let w := { w with visited := w.visited ++ [next.1] }
        if query.target = some next.1 then
          (true, { w with paths := w.paths ++ [(entry.extend next).path score] })
        else
          visitAll entry rest (emitted+1) { w with frontier := w.frontier ++ [entry.extend next] }

def Walk.pop (w : Walk F) (entry : Entry) (frontier : List Entry) : Walk F :=
  { w with
    frontier
    trace := { w.trace with
      nodesExpanded := w.trace.nodesExpanded+1
      hopsTaken := max w.trace.hopsTaken entry.depth } }

def Walk.exhaust (w : Walk F) : Walk F :=
  { w with trace := { w.trace with budgetExhausted := true } }

def Walk.report (w : Walk F) (entry : Entry) : Walk F :=
  if query.target = none ∧ entry.node ≠ query.start then
    { w with paths := w.paths ++ [entry.path score] }
  else w

/-- `none` where it has not ended within so many rounds. -/
def loop (g : ConceptGraph) (clock : Clock) : Nat → Walk F → Option (Walk F)
  | 0, _ => none
  | fuel+1, w =>
    match w.frontier with
    | [] => some w
    | entry :: frontier =>
      let w := w.pop entry frontier
      if clock 0+budget.maxTimeMs*1000000 ≤ clock w.trace.nodesExpanded then some w.exhaust
      else if budget.maxNodesVisited ≤ w.visited.length then some w.exhaust
      else if budget.maxHops ≤ entry.depth then loop g clock fuel w
      else
        match visitAll score budget query entry (expand g query entry.node) 0
            (w.report score query entry) with
        | (true, w) => some w
        | (false, w) => loop g clock fuel w

def startEntry : Entry := ⟨query.start, 0, [query.start], [], []⟩

def startWalk : Walk F := ⟨[query.start], [startEntry query], [], ⟨0, 0, 0, 0, false⟩⟩

def Walk.finish (w : Walk F) (clock : Clock) : TraversalResult F :=
  ⟨w.paths, w.visited, { w.trace with
    elapsedMs := elapsedMsSaturating (clock 0) (clock (w.trace.nodesExpanded+1)) }⟩

def run (g : ConceptGraph) (clock : Clock) (fuel : Nat) : Option (TraversalResult F) :=
  if (g.getNode query.start).isNone then some ((startWalk query).finish clock)
  else (loop score budget query g clock fuel (startWalk query)).map (Walk.finish · clock)

def Joins (g : ConceptGraph) (u : NodeId) (e : EdgeId) (v : NodeId) : Prop :=
  ∃ edge, g.edges.lookup e = some edge ∧ edgePassesFilter edge query = true ∧
    match query.direction with
    | .outgoing => edge.fromNode = u ∧ edge.toNode = v
    | .incoming => edge.toNode = u ∧ edge.fromNode = v
    | .both => (edge.fromNode = u ∧ edge.toNode = v) ∨ (edge.toNode = u ∧ edge.fromNode = v)

def Hop (g : ConceptGraph) (u v : NodeId) : Prop := ∃ e, Joins query g u e v

/-- The nodes and the edges along a filtered path from the start to a node. -/
inductive FilteredPath (g : ConceptGraph) : List NodeId → List EdgeId → NodeId → Prop where
  | start : FilteredPath g [query.start] [] query.start
  | snoc {ns : List NodeId} {es : List EdgeId} {u v : NodeId} {e : EdgeId} :
    FilteredPath g ns es u → Joins query g u e v → FilteredPath g (ns ++ [v]) (es ++ [e]) v

def filteredEdges (g : ConceptGraph) (node : NodeId) : Finset EdgeId :=
  ((expand g query node).map fun next => next.2.1).toFinset

def WithinCap (g : ConceptGraph) (node : NodeId) : Prop :=
  (filteredEdges query g node).card ≤ budget.maxEdgesPerHop

end

section Neighbours

variable {query : TraversalQuery} {g : ConceptGraph}

theorem follows_eq_some {node : NodeId} {edge : ConceptEdge}
    {next : NodeId × EdgeId × RelationType} :
    follows query node edge = some next ↔ edgePassesFilter edge query = true ∧
      next.2 = (edge.id, edge.relation) ∧
      match query.direction with
      | .outgoing => edge.fromNode = node ∧ edge.toNode = next.1
      | .incoming => edge.toNode = node ∧ edge.fromNode = next.1
      | .both => (edge.fromNode = node ∧ edge.toNode = next.1) ∨
          (edge.toNode = node ∧ edge.fromNode = next.1) := by
  obtain ⟨v, e, r⟩ := next
  unfold follows
  cases query.direction <;> grind

theorem mem_expand_iff (hb : g.Built) {node v : NodeId} {e : EdgeId} {r : RelationType} :
    (v, e, r) ∈ expand g query node ↔
      ∃ edge, g.edges.lookup e = some edge ∧ follows query node edge = some (v, e, r) := by
  rw [expand, List.mem_filterMap]
  refine exists_congr fun edge => ?_
  constructor
  · rintro ⟨hmem, hfollows⟩
    obtain ⟨-, hid, hends⟩ := follows_eq_some.mp hfollows
    have hat : edge.fromNode = node ∨ edge.toNode = node := by
      cases hd : query.direction <;> simp only [hd] at hends <;> tauto
    obtain rfl : e = edge.id := (Prod.mk.inj hid).1
    exact ⟨(hb.mem_getEdges_iff hat).mp hmem, hfollows⟩
  · rintro ⟨hlookup, hfollows⟩
    obtain ⟨-, hid, hends⟩ := follows_eq_some.mp hfollows
    have hat : edge.fromNode = node ∨ edge.toNode = node := by
      cases hd : query.direction <;> simp only [hd] at hends <;> tauto
    obtain rfl : e = edge.id := (Prod.mk.inj hid).1
    exact ⟨(hb.mem_getEdges_iff hat).mpr hlookup, hfollows⟩

theorem joins_iff (hb : g.Built) {u v : NodeId} {e : EdgeId} :
    Joins query g u e v ↔ ∃ r, (v, e, r) ∈ expand g query u := by
  simp only [mem_expand_iff hb, follows_eq_some, Prod.mk.injEq]
  constructor
  · rintro ⟨edge, hlookup, hpasses, hends⟩
    have hid := (ConceptGraph.indexed_of_built hb).edgeId e edge hlookup
    exact ⟨edge.relation, edge, hlookup, hpasses, ⟨hid.symm, rfl⟩, hends⟩
  · rintro ⟨r, edge, hlookup, hpasses, -, hends⟩
    exact ⟨edge, hlookup, hpasses, hends⟩

theorem expand_unique (hb : g.Built) {u : NodeId} {a b : NodeId × EdgeId × RelationType}
    (ha : a ∈ expand g query u) (hb' : b ∈ expand g query u) (h : a.2.1 = b.2.1) : a.1 = b.1 := by
  obtain ⟨edge, hlookup, hfollows⟩ := (mem_expand_iff hb).mp ha
  obtain ⟨edge', hlookup', hfollows'⟩ := (mem_expand_iff hb).mp hb'
  rw [← h, hlookup] at hlookup'
  obtain rfl := Option.some.inj hlookup'
  rw [hfollows] at hfollows'
  exact (Prod.mk.inj (Option.some.inj hfollows')).1

theorem FilteredPath.steps {ns : List NodeId} {es : List EdgeId} {v : NodeId}
    (h : FilteredPath query g ns es v) : Steps (Hop query g) es.length query.start v := by
  induction h with
  | start => exact .refl _
  | snoc _ hjoins ih =>
    rw [List.length_append]
    exact ih.tail ⟨_, hjoins⟩

end Neighbours

section Search

@[simp] theorem inspect_visited {F : Type} (w : Walk F) : w.inspect.visited = w.visited := rfl

@[simp] theorem inspect_frontier {F : Type} (w : Walk F) : w.inspect.frontier = w.frontier := rfl

@[simp] theorem inspect_paths {F : Type} (w : Walk F) : w.inspect.paths = w.paths := rfl

variable {F : Type} {score : Nat → List RelationType → F} {budget : TraversalBudget}
  {query : TraversalQuery} {g : ConceptGraph}

/-- The way to a waiting node is a filtered path that repeats no node. -/
structure EntryOk (query : TraversalQuery) (g : ConceptGraph) (entry : Entry) : Prop where
  path : FilteredPath query g entry.nodePath entry.edgePath entry.node
  depth : entry.depth = entry.edgePath.length
  nodup : entry.nodePath.Nodup

/-- What was met so far are the nodes that were left and those that wait, each with its way. -/
structure Searched (query : TraversalQuery) (g : ConceptGraph) (limit : Nat) (visited : List NodeId)
    (left waiting : List Entry) : Prop where
  met : visited = (left ++ waiting).map Entry.node
  nodup : visited.Nodup
  entries : ∀ entry ∈ left ++ waiting, EntryOk query g entry
  inside : ∀ entry ∈ left ++ waiting, ∀ node ∈ entry.nodePath, node ∈ visited
  within : ∀ entry ∈ left ++ waiting, entry.depth ≤ limit
  start : ∃ rest, left ++ waiting = startEntry query :: rest
  parents : ∀ entry ∈ left ++ waiting, entry = startEntry query ∨ ∃ parent ∈ left ++ waiting,
    ∃ next ∈ expand g query parent.node, entry = parent.extend next

theorem Searched.push {visited : List NodeId} {left waiting : List Entry} {entry : Entry}
    (h : Searched query g budget.maxHops visited left (entry :: waiting)) (hb : g.Built)
    (hlt : entry.depth < budget.maxHops) {next : NodeId × EdgeId × RelationType}
    (hnext : next ∈ expand g query entry.node) (hnew : next.1 ∉ visited) :
    EntryOk query g (entry.extend next) ∧
      Searched query g budget.maxHops (visited ++ [next.1]) left
        (entry :: (waiting ++ [entry.extend next])) := by
  obtain ⟨v, e, r⟩ := next
  have hentry : entry ∈ left ++ entry :: waiting := by simp
  have hok := h.entries entry hentry
  have hinside := h.inside entry hentry
  have hextend : EntryOk query g (entry.extend (v, e, r)) := by
    refine ⟨hok.path.snoc ((joins_iff hb).mpr ⟨r, hnext⟩), ?_, ?_⟩
    · simp [extend, hok.depth]
    · simp only [extend, List.nodup_append, List.nodup_singleton, List.mem_singleton]
      refine ⟨hok.nodup, trivial, fun a ha b hb' => ?_⟩
      rintro rfl
      exact hnew (hb' ▸ hinside a ha)
  have hmem : ∀ x ∈ left ++ entry :: (waiting ++ [entry.extend (v, e, r)]),
      x ∈ left ++ entry :: waiting ∨ x = entry.extend (v, e, r) := by
    intro x hx
    simp only [List.mem_append, List.mem_cons, List.not_mem_nil, or_false] at hx ⊢
    tauto
  refine ⟨hextend, ?_, ?_, fun x hx => ?_, fun x hx node hnode => ?_, fun x hx => ?_, ?_,
    fun x hx => ?_⟩
  · simp [h.met, extend]
  · rw [List.nodup_append]
    refine ⟨h.nodup, List.nodup_singleton _, fun a ha b hb' => ?_⟩
    rintro rfl
    exact hnew (List.mem_singleton.mp hb' ▸ ha)
  · obtain hx | rfl := hmem x hx
    · exact h.entries x hx
    · exact hextend
  · rw [List.mem_append]
    obtain hx | rfl := hmem x hx
    · exact .inl (h.inside x hx node hnode)
    · simp only [extend, List.mem_append, List.mem_singleton] at hnode ⊢
      exact hnode.imp_left (hinside node)
  · obtain hx | rfl := hmem x hx
    · exact h.within x hx
    · exact hlt
  · obtain ⟨rest, hrest⟩ := h.start
    have happend := congrArg (· ++ [entry.extend (v, e, r)]) hrest
    exact ⟨rest ++ [entry.extend (v, e, r)], by simpa using happend⟩
  · have hkept : ∀ x ∈ left ++ entry :: waiting,
        x ∈ left ++ entry :: (waiting ++ [entry.extend (v, e, r)]) := by
      intro x hx
      simp only [List.mem_append, List.mem_cons] at hx ⊢
      tauto
    obtain hx | rfl := hmem x hx
    · refine (h.parents x hx).imp_right ?_
      rintro ⟨parent, hparent, hfrom⟩
      exact ⟨parent, hkept parent hparent, hfrom⟩
    · exact .inr ⟨entry, hkept entry hentry, _, hnext, rfl⟩

theorem Searched.leave {visited : List NodeId} {left waiting : List Entry} {entry : Entry}
    (h : Searched query g budget.maxHops visited left (entry :: waiting)) :
    Searched query g budget.maxHops visited (left ++ [entry]) waiting := by
  have hsame : left ++ [entry] ++ waiting = left ++ entry :: waiting := by simp
  exact ⟨hsame ▸ h.met, h.nodup, hsame ▸ h.entries, hsame ▸ h.inside,
    hsame ▸ h.within, hsame ▸ h.start, hsame ▸ h.parents⟩

/-- What the loop over the neighbours of a node does: it puts some of them into the frontier, and
where it hits the target it ends there. -/
theorem visitAll_cases (hb : g.Built) {left : List Entry} {entry : Entry}
    (hlt : entry.depth < budget.maxHops) {nexts : List (NodeId × EdgeId × RelationType)}
    {emitted : Nat} {w w' : Walk F} {hit : Bool}
    (hs : Searched query g budget.maxHops w.visited left (entry :: w.frontier))
    (hsub : ∀ next ∈ nexts, next ∈ expand g query entry.node)
    (ht : ∀ t, query.target = some t → t ∉ w.visited)
    (h : visitAll score budget query entry nexts emitted w = (hit, w')) :
    w'.trace.budgetExhausted = w.trace.budgetExhausted ∧
    w'.trace.nodesExpanded = w.trace.nodesExpanded ∧
    ∃ added : List (NodeId × EdgeId × RelationType), (∀ next ∈ added, next ∈ nexts) ∧
      w'.frontier = w.frontier ++ added.map entry.extend ∧
      Searched query g budget.maxHops (w.visited ++ added.map Prod.fst) left
        (entry :: w'.frontier) ∧
      match hit with
      | false => w'.visited = w.visited ++ added.map Prod.fst ∧ w'.paths = w.paths ∧
          ∀ t, query.target = some t → t ∉ w'.visited
      | true => ∃ next ∈ nexts, query.target = some next.1 ∧
          next.1 ∉ w.visited ++ added.map Prod.fst ∧
          w'.visited = w.visited ++ added.map Prod.fst ++ [next.1] ∧
          w'.paths = w.paths ++ [(entry.extend next).path score] := by
  induction nexts generalizing emitted w with
  | nil =>
    cases h
    exact ⟨rfl, rfl, [], by simp, by simp, by simpa using hs, by simp, rfl, ht⟩
  | cons next rest ih =>
    have hrest : ∀ next ∈ rest, next ∈ expand g query entry.node :=
      fun x hx => hsub x (List.mem_cons_of_mem _ hx)
    rw [visitAll] at h
    split at h
    · cases h
      exact ⟨rfl, rfl, [], by simp, by simp, by simpa using hs, by simp, rfl, ht⟩
    dsimp only at h
    split at h
    · obtain ⟨hex, hnodes, added, hadded, hfrontier, hsearched, hcase⟩ :=
        ih (w := w.inspect) hs hrest ht h
      refine ⟨hex, hnodes, added, fun x hx => List.mem_cons_of_mem _ (hadded x hx), hfrontier,
        hsearched, ?_⟩
      cases hit with
      | false => exact hcase
      | true =>
        obtain ⟨hitted, hmem, hrest⟩ := hcase
        exact ⟨hitted, List.mem_cons_of_mem _ hmem, hrest⟩
    rename_i hvisited
    have hnew : next.1 ∉ w.visited := by simpa using hvisited
    split at h
    · rename_i htarget
      cases h
      exact ⟨rfl, rfl, [], by simp, by simp, by simpa using hs, next, List.mem_cons_self, htarget,
        by simpa using hnew, by simp, rfl⟩
    · rename_i htarget
      have hpush := (hs.push hb hlt (hsub next List.mem_cons_self) hnew).2
      have ht' : ∀ t, query.target = some t → t ∉ w.visited ++ [next.1] := by
        intro t htt hmem
        obtain hmem | hmem := List.mem_append.mp hmem
        · exact ht t htt hmem
        · rw [List.mem_singleton.mp hmem] at htt
          exact htarget htt
      obtain ⟨hex, hnodes, added, hadded, hfrontier, hsearched, hcase⟩ :=
        ih (w := { w.inspect with
          visited := w.visited ++ [next.1]
          frontier := w.frontier ++ [entry.extend next] }) hpush hrest ht' h
      refine ⟨hex, hnodes, next :: added, ?_, by simp [hfrontier], by simpa using hsearched, ?_⟩
      · intro x hx
        obtain rfl | hx := List.mem_cons.mp hx
        · exact List.mem_cons_self
        · exact List.mem_cons_of_mem _ (hadded x hx)
      · cases hit with
        | false =>
          obtain ⟨hvis, hpaths, htgt⟩ := hcase
          exact ⟨by simp [hvis], hpaths, htgt⟩
        | true =>
          obtain ⟨hitted, hmem, htgt, hnot, hvis, hpaths⟩ := hcase
          exact ⟨hitted, List.mem_cons_of_mem _ hmem, htgt, by simpa using hnot, by simp [hvis],
            hpaths⟩

theorem visitAll_visited (score : Nat → List RelationType → F) (budget : TraversalBudget)
    (query : TraversalQuery) (entry : Entry)
    (nexts : List (NodeId × EdgeId × RelationType)) (emitted : Nat) (w : Walk F) :
    ∀ v ∈ w.visited, v ∈ (visitAll score budget query entry nexts emitted w).2.visited := by
  induction nexts generalizing emitted w with
  | nil => exact fun v hv => hv
  | cons next rest ih =>
    intro v hv
    rw [visitAll]
    split
    · exact hv
    dsimp only
    split
    · exact ih emitted w.inspect v hv
    split
    · exact List.mem_append_left _ hv
    · exact ih (emitted+1) _ v (List.mem_append_left _ hv)

/-- Where the cap is as large as the number of filtered edges, it does not stop the loop before
all the neighbours were visited. -/
theorem visitAll_complete (hb : g.Built) {entry : Entry}
    (front : List (NodeId × EdgeId × RelationType))
    {nexts : List (NodeId × EdgeId × RelationType)} {emitted : Nat} {w w' : Walk F}
    (hsub : ∀ next ∈ front ++ nexts, next ∈ expand g query entry.node)
    (hcap : ((front ++ nexts).map fun next => next.2.1).toFinset.card ≤ budget.maxEdgesPerHop)
    (hfront : ∀ next ∈ front, next.1 ∈ w.visited)
    (hemitted : emitted ≤ (front.map fun next => next.2.1).toFinset.card)
    (h : visitAll score budget query entry nexts emitted w = (false, w')) :
    ∀ next ∈ front ++ nexts, next.1 ∈ w'.visited := by
  induction nexts generalizing front emitted w with
  | nil =>
    cases h
    simpa using hfront
  | cons next rest ih =>
    have hsplit : front ++ next :: rest = front ++ [next] ++ rest := by simp
    rw [visitAll] at h
    split at h
    · rename_i hfull
      cases h
      have hedges : (front.map fun next => next.2.1).toFinset =
          ((front ++ next :: rest).map fun next => next.2.1).toFinset := by
        refine Finset.eq_of_subset_of_card_le (fun e he => ?_) (by omega)
        rw [List.mem_toFinset] at he ⊢
        rw [List.map_append]
        exact List.mem_append_left _ he
      intro x hx
      have hxe : x.2.1 ∈ (front.map fun next => next.2.1).toFinset := by
        rw [hedges, List.mem_toFinset]
        exact List.mem_map_of_mem hx
      rw [List.mem_toFinset] at hxe
      obtain ⟨y, hy, hye⟩ := List.mem_map.mp hxe
      rw [← expand_unique hb (hsub y (List.mem_append_left _ hy)) (hsub x hx) hye]
      exact hfront y hy
    rename_i hroom
    rw [hsplit] at hsub hcap ⊢
    have hgrow : (front.map fun next => next.2.1).toFinset.card ≤
        ((front ++ [next]).map fun next => next.2.1).toFinset.card := by
      refine Finset.card_le_card fun e he => ?_
      rw [List.mem_toFinset] at he ⊢
      rw [List.map_append]
      exact List.mem_append_left _ he
    dsimp only at h
    split at h
    · rename_i hvisited
      refine ih (front ++ [next]) (w := w.inspect) hsub hcap (fun x hx => ?_) (hemitted.trans hgrow) h
      obtain hx | hx := List.mem_append.mp hx
      · exact hfront x hx
      · obtain rfl := List.mem_singleton.mp hx
        simpa using hvisited
    rename_i hvisited
    split at h
    · cases h
    · have hedge : next.2.1 ∉ (front.map fun next => next.2.1).toFinset := by
        rw [List.mem_toFinset]
        intro hmem
        obtain ⟨y, hy, hye⟩ := List.mem_map.mp hmem
        have hsame := expand_unique hb (hsub y (by simp [hy])) (hsub next (by simp)) hye
        exact absurd (hsame ▸ hfront y hy) (by simpa using hvisited)
      have hcount : ((front ++ [next]).map fun next => next.2.1).toFinset.card =
          (front.map fun next => next.2.1).toFinset.card+1 := by
        rw [← Finset.card_insert_of_notMem hedge]
        congr 1
        ext e
        simp
      refine ih (front ++ [next]) hsub hcap (fun x hx => ?_) (by omega) h
      obtain hx | hx := List.mem_append.mp hx
      · exact List.mem_append_left _ (hfront x hx)
      · exact List.mem_append_right _ (List.mem_singleton.mpr (List.mem_singleton.mp hx ▸ rfl))

def pairs (entries : List Entry) : List (NodeId × Nat) :=
  entries.map fun entry => (entry.node, entry.depth)

structure Shortest (query : TraversalQuery) (g : ConceptGraph) (limit : Nat)
    (left waiting : List Entry) : Prop where
  ordered : Ordered (Hop query g) query.start limit (pairs left) (pairs waiting)
  least : ∀ entry ∈ left ++ waiting, ∀ n, Steps (Hop query g) n query.start entry.node →
    entry.depth ≤ n

theorem mem_pairs {entries : List Entry} {node : NodeId} {depth : Nat} :
    (node, depth) ∈ pairs entries ↔ ∃ entry ∈ entries, entry.node = node ∧ entry.depth = depth := by
  simp only [pairs, List.mem_map, Prod.mk.injEq]

section

variable {visited : List NodeId} {left waiting : List Entry} {entry : Entry}

theorem Shortest.deeper (h : Shortest query g budget.maxHops left (entry :: waiting))
    (hs : Searched query g budget.maxHops visited left (entry :: waiting))
    (hlt : entry.depth < budget.maxHops) {v : NodeId} (hv : v ∉ visited) {n : Nat}
    (hn : Steps (Hop query g) n query.start v) : entry.depth < n := by
  by_cases hle : n ≤ budget.maxHops
  · refine h.ordered.deeper hn hle fun d hd => hv ?_
    have hmem : (v, d) ∈ pairs (left ++ entry :: waiting) := by
      simpa [pairs] using hd
    obtain ⟨x, hx, hnode, -⟩ := mem_pairs.mp hmem
    rw [hs.met, ← hnode]
    exact List.mem_map_of_mem hx
  · omega

theorem Shortest.visit (h : Shortest query g budget.maxHops left (entry :: waiting))
    (hs : Searched query g budget.maxHops visited left (entry :: waiting))
    (hlt : entry.depth < budget.maxHops) {added : List (NodeId × EdgeId × RelationType)}
    (hafter : Searched query g budget.maxHops (visited ++ added.map Prod.fst) left
      (entry :: (waiting ++ added.map entry.extend))) :
    Shortest query g budget.maxHops left (entry :: (waiting ++ added.map entry.extend)) := by
  constructor
  · have hpush := h.ordered.pushAll (added.map Prod.fst)
    have hpairs : pairs (entry :: (waiting ++ added.map entry.extend)) =
        (entry.node, entry.depth) ::
          (pairs waiting ++ (added.map Prod.fst).map fun v => (v, entry.depth+1)) := by
      simp [pairs, extend, Function.comp_def]
    rw [hpairs]
    exact hpush
  · intro x hx n hn
    have hcases : x ∈ left ++ entry :: waiting ∨ ∃ next ∈ added, x = entry.extend next := by
      simp only [List.mem_append, List.mem_cons, List.mem_map] at hx ⊢
      obtain hx | hx | hx | ⟨next, hnext, rfl⟩ := hx
      · exact .inl (.inl hx)
      · exact .inl (.inr (.inl hx))
      · exact .inl (.inr (.inr hx))
      · exact .inr ⟨next, hnext, rfl⟩
    obtain hx | ⟨next, hnext, rfl⟩ := hcases
    · exact h.least x hx n hn
    · have hnew : next.1 ∉ visited := fun hmem =>
        (List.nodup_append.mp hafter.nodup).2.2 _ hmem _ (List.mem_map_of_mem hnext) rfl
      exact h.deeper hs hlt hnew hn

theorem Shortest.leave (h : Shortest query g budget.maxHops left (entry :: waiting))
    (hs : Searched query g budget.maxHops visited left (entry :: waiting))
    (hall : entry.depth < budget.maxHops → ∀ v, Hop query g entry.node v → v ∈ visited) :
    Shortest query g budget.maxHops (left ++ [entry]) waiting := by
  have hsame : left ++ [entry] ++ waiting = left ++ entry :: waiting := by simp
  refine ⟨?_, hsame ▸ h.least⟩
  have hleave := h.ordered.leave (u := entry.node) (k := entry.depth) (fun hlt v hv => ?_)
  · simpa [pairs] using hleave
  · have hmem := hall hlt v hv
    rw [hs.met] at hmem
    obtain ⟨x, hx, rfl⟩ := List.mem_map.mp hmem
    have hok := hs.entries entry (by simp)
    have hsteps : Steps (Hop query g) (entry.depth+1) query.start x.node :=
      (hok.depth ▸ hok.path.steps).tail hv
    refine ⟨x.depth, h.least x hx _ hsteps, ?_⟩
    have hpairs : (x.node, x.depth) ∈ pairs (left ++ entry :: waiting) :=
      mem_pairs.mpr ⟨x, hx, rfl, rfl⟩
    simpa [pairs] using hpairs

end

def reported (score : Nat → List RelationType → F) (query : TraversalQuery) (limit : Nat)
    (left : List Entry) : List (TraversedPath F) :=
  if query.target = none then
    (left.filter fun entry => entry.node ≠ query.start ∧ entry.depth < limit).map (Entry.path score)
  else []

structure Ended (score : Nat → List RelationType → F) (budget : TraversalBudget)
    (query : TraversalQuery) (g : ConceptGraph) (w : Walk F) (left : List Entry) : Prop where
  searched : Searched query g budget.maxHops w.visited left []
  paths : w.paths = reported score query budget.maxHops left
  missed : ∀ t, query.target = some t → t ∉ w.visited
  shortest : (∀ v ∈ w.visited, WithinCap budget query g v) →
    Shortest query g budget.maxHops left []

structure Hit (budget : TraversalBudget) (query : TraversalQuery) (g : ConceptGraph) (w : Walk F)
    (t : NodeId) (p : TraversedPath F) : Prop where
  target : query.target = some t
  paths : w.paths = [p]
  path : FilteredPath query g p.nodes p.edges t
  nodup : p.nodes.Nodup
  within : p.edges.length ≤ budget.maxHops
  least : (∀ v ∈ w.visited, WithinCap budget query g v) →
    ∀ n, Steps (Hop query g) n query.start t → p.edges.length ≤ n

theorem report_visited (score : Nat → List RelationType → F) (w : Walk F) (entry : Entry) :
    (w.report score query entry).visited = w.visited := by
  unfold Walk.report
  split <;> rfl

theorem report_frontier (score : Nat → List RelationType → F) (w : Walk F) (entry : Entry) :
    (w.report score query entry).frontier = w.frontier := by
  unfold Walk.report
  split <;> rfl

theorem loop_visited {clock : Clock} {fuel : Nat} {w w' : Walk F}
    (h : loop score budget query g clock fuel w = some w') : ∀ v ∈ w.visited, v ∈ w'.visited := by
  induction fuel generalizing w with
  | zero => cases h
  | succ fuel ih =>
    rw [loop] at h
    split at h
    · cases h
      exact fun v hv => hv
    · rename_i entry frontier _
      dsimp only at h
      split at h
      · cases h
        exact fun v hv => hv
      split at h
      · cases h
        exact fun v hv => hv
      split at h
      · exact fun v hv => ih h v hv
      · have hvisit := visitAll_visited score budget query entry
          (expand g query entry.node) 0 ((w.pop entry frontier).report score query entry)
        rw [report_visited] at hvisit
        split at h <;> rename_i heq <;> rw [heq] at hvisit
        · cases h
          exact hvisit
        · exact fun v hv => ih h v (hvisit v hv)

theorem reported_leave (score : Nat → List RelationType → F) (left : List Entry) (entry : Entry) :
    reported score query budget.maxHops (left ++ [entry]) =
      if entry.depth < budget.maxHops ∧ query.target = none ∧ entry.node ≠ query.start then
        reported score query budget.maxHops left ++ [entry.path score]
      else reported score query budget.maxHops left := by
  by_cases ht : query.target = none
  · by_cases hstart : entry.node = query.start
    · simp [reported, ht, hstart]
    · by_cases hlt : entry.depth < budget.maxHops
      · simp [reported, ht, hstart, hlt]
      · simp [reported, ht, hstart, hlt]
  · simp [reported, ht]

theorem report_paths (score : Nat → List RelationType → F) {w : Walk F} {left : List Entry}
    {entry : Entry} (hlt : entry.depth < budget.maxHops)
    (hpaths : w.paths = reported score query budget.maxHops left) :
    (w.report score query entry).paths =
      reported score query budget.maxHops (left ++ [entry]) := by
  rw [reported_leave]
  unfold Walk.report
  split
  · rename_i h
    rw [if_pos ⟨hlt, h⟩, ← hpaths]
  · rename_i h
    rw [if_neg fun h' => h h'.2, hpaths]

theorem loop_cases (hb : g.Built) {clock : Clock} {fuel : Nat} {w w' : Walk F} {left : List Entry}
    (hs : Searched query g budget.maxHops w.visited left w.frontier)
    (hpaths : w.paths = reported score query budget.maxHops left)
    (ht : ∀ t, query.target = some t → t ∉ w.visited)
    (h : loop score budget query g clock fuel w = some w')
    (hflag : w'.trace.budgetExhausted = false)
    (hshort : (∀ v ∈ w'.visited, WithinCap budget query g v) →
      Shortest query g budget.maxHops left w.frontier) :
    (∃ left', Ended score budget query g w' left') ∨ ∃ t p, Hit budget query g w' t p := by
  induction fuel generalizing w left with
  | zero => cases h
  | succ fuel ih =>
    rw [loop] at h
    split at h
    · rename_i hempty
      cases h
      rw [hempty] at hs hshort
      exact .inl ⟨left, hs, hpaths, ht, hshort⟩
    rename_i entry frontier hfrontier
    rw [hfrontier] at hs hshort
    dsimp only at h
    split at h
    · cases h
      cases hflag
    split at h
    · cases h
      cases hflag
    split at h
    · rename_i hdeep
      have hpaths' : w.paths = reported score query budget.maxHops (left ++ [entry]) := by
        rw [reported_leave, if_neg (by omega), hpaths]
      refine ih (w := w.pop entry frontier) hs.leave hpaths' ht h fun hcap => ?_
      exact (hshort hcap).leave hs (by omega)
    rename_i hshallow
    have hlt : entry.depth < budget.maxHops := by omega
    rcases hvisit : visitAll score budget query entry (expand g query entry.node) 0
      ((w.pop entry frontier).report score query entry) with ⟨hit, w₁⟩
    rw [hvisit] at h
    have hs' : Searched query g budget.maxHops
        ((w.pop entry frontier).report score query entry).visited left
        (entry :: ((w.pop entry frontier).report score query entry).frontier) := by
      rw [report_visited, report_frontier]
      exact hs
    obtain ⟨-, -, added, hadded, hfront, hsearched, hcase⟩ :=
      visitAll_cases hb hlt hs' (fun _ hnext => hnext) (by rwa [report_visited]) hvisit
    rw [report_visited] at hsearched hcase
    rw [report_frontier] at hfront
    have hfront' : w₁.frontier = frontier ++ added.map entry.extend := hfront
    have hreport := report_paths score (w := w.pop entry frontier) hlt hpaths
    cases hit with
    | false =>
      obtain ⟨hvisited, hsame, hmissed⟩ := hcase
      have hvisited' : w₁.visited = w.visited ++ added.map Prod.fst := hvisited
      rw [← hvisited] at hsearched
      refine ih hsearched.leave (hsame.trans hreport) hmissed h fun hcap => ?_
      have hafter := hsearched
      rw [hvisited', hfront'] at hafter
      have hshort' := (hshort hcap).visit hs hlt hafter
      rw [← hfront'] at hshort'
      refine hshort'.leave hsearched fun _ v hv => ?_
      obtain ⟨e, he⟩ := hv
      obtain ⟨r, hmem⟩ := (joins_iff hb).mp he
      have hentry : entry.node ∈ w₁.visited := by
        rw [hsearched.met]
        exact List.mem_map_of_mem (by simp)
      exact visitAll_complete hb [] (fun _ hnext => hnext)
        (hcap entry.node (loop_visited h _ hentry)) (by simp) (by simp) hvisit _ hmem
    | true =>
      obtain ⟨next, hnext, htarget, hnew, hvisited, hsame⟩ := hcase
      have hnone : reported score query budget.maxHops (left ++ [entry]) = [] := by
        simp [reported, htarget]
      rw [hreport, hnone, List.nil_append] at hsame
      cases h
      have hok := hs.entries entry (by simp)
      obtain ⟨hextend, -⟩ := hs.push hb hlt hnext fun hmem => hnew (List.mem_append_left _ hmem)
      refine .inr ⟨next.1, _, htarget, hsame, hextend.path, hextend.nodup, ?_, fun hcap n hn => ?_⟩
      · have hdepth := hextend.depth
        simp only [path, extend] at hdepth ⊢
        omega
      · have hunmet : next.1 ∉ w.visited := fun hmem => hnew (List.mem_append_left _ hmem)
        have hdeep := (hshort hcap).deeper hs hlt hunmet hn
        have hdepth := hextend.depth
        simp only [path, extend] at hdepth ⊢
        omega

section

variable (query : TraversalQuery) (g : ConceptGraph)

theorem searched_start (limit : Nat) :
    Searched query g limit [query.start] [] [startEntry query] := by
  refine ⟨rfl, List.nodup_singleton _, ?_, ?_, ?_, ⟨[], rfl⟩, ?_⟩
  · intro entry hentry
    obtain rfl := List.mem_singleton.mp hentry
    exact ⟨.start, rfl, List.nodup_singleton _⟩
  · intro entry hentry
    obtain rfl := List.mem_singleton.mp hentry
    exact fun node hnode => hnode
  · intro entry hentry
    obtain rfl := List.mem_singleton.mp hentry
    exact Nat.zero_le _
  · intro entry hentry
    exact .inl (List.mem_singleton.mp hentry)

theorem shortest_start (limit : Nat) :
    Shortest query g limit [] [startEntry query] := by
  refine ⟨ordered_start _ _ _, fun entry hentry n _ => ?_⟩
  obtain rfl := List.mem_singleton.mp hentry
  exact Nat.zero_le n

def reachableEnds : List NodeId :=
  query.start :: g.edges.rows.flatMap fun row => [row.2.fromNode, row.2.toNode]

end

theorem FilteredPath.mem_ends {ns : List NodeId} {es : List EdgeId} {v : NodeId}
    (h : FilteredPath query g ns es v) : v ∈ reachableEnds query g := by
  cases h with
  | start => exact List.mem_cons_self
  | @snoc _ _ u _ e _ hjoins =>
    obtain ⟨edge, hlookup, -, hends⟩ := hjoins
    have hv : v = edge.fromNode ∨ v = edge.toNode := by
      cases hd : query.direction <;> simp only [hd] at hends <;> grind
    refine List.mem_cons_of_mem _ (List.mem_flatMap.mpr ⟨(e, edge), ?_, by simpa using hv⟩)
    exact Table.mem_rows_iff.mpr hlookup

theorem Searched.length_le {limit : Nat} {visited : List NodeId} {left waiting : List Entry}
    (h : Searched query g limit visited left waiting) :
    visited.length ≤ (reachableEnds query g).length := by
  refine (List.subperm_of_subset h.nodup fun v hv => ?_).length_le
  rw [h.met] at hv
  obtain ⟨entry, hentry, rfl⟩ := List.mem_map.mp hv
  exact (h.entries entry hentry).path.mem_ends

theorem loop_ends (score : Nat → List RelationType → F) (hb : g.Built) (clock : Clock)
    (fuel : Nat) {w : Walk F} {left : List Entry}
    (hs : Searched query g budget.maxHops w.visited left w.frontier)
    (ht : ∀ t, query.target = some t → t ∉ w.visited)
    (hfuel : w.frontier.length+(reachableEnds query g).length < fuel+w.visited.length) :
    (loop score budget query g clock fuel w).isSome := by
  induction fuel generalizing w left with
  | zero =>
    have hle := hs.length_le
    omega
  | succ fuel ih =>
    rw [loop]
    split
    · rfl
    rename_i entry frontier hfrontier
    rw [hfrontier] at hs hfuel
    rw [List.length_cons] at hfuel
    dsimp only
    split
    · rfl
    split
    · rfl
    split
    · refine ih (w := w.pop entry frontier) hs.leave ht ?_
      simp only [Walk.pop]
      omega
    rename_i hshallow
    rcases hvisit : visitAll score budget query entry (expand g query entry.node) 0
      ((w.pop entry frontier).report score query entry) with ⟨hit, w₁⟩
    have hs' : Searched query g budget.maxHops
        ((w.pop entry frontier).report score query entry).visited left
        (entry :: ((w.pop entry frontier).report score query entry).frontier) := by
      rw [report_visited, report_frontier]
      exact hs
    obtain ⟨-, -, added, -, hfront, hsearched, hcase⟩ :=
      visitAll_cases hb (by omega) hs' (fun _ hnext => hnext) (by rwa [report_visited]) hvisit
    rw [report_visited] at hsearched hcase
    rw [report_frontier] at hfront
    cases hit with
    | true => rfl
    | false =>
      obtain ⟨hvisited, -, hmissed⟩ := hcase
      rw [← hvisited] at hsearched
      refine ih hsearched.leave hmissed ?_
      simp only [hfront, hvisited, Walk.pop, List.length_append, List.length_map]
      omega

theorem run_ends (score : Nat → List RelationType → F) (budget : TraversalBudget) (hb : g.Built)
    (clock : Clock) (ht : query.target ≠ some query.start) :
    ∃ fuel result, run score budget query g clock fuel = some result := by
  unfold run
  split
  · exact ⟨0, _, rfl⟩
  · obtain ⟨w, hw⟩ := Option.isSome_iff_exists.mp (loop_ends score
      hb clock ((reachableEnds query g).length+1) (w := startWalk query)
      (searched_start query g budget.maxHops)
      (fun t htt hmem => ht (List.mem_singleton.mp hmem ▸ htt)) (by
        simp only [startWalk, List.length_singleton]
        omega))
    exact ⟨_, _, by rw [hw]; rfl⟩

theorem run_cases (hb : g.Built) {clock : Clock} {fuel : Nat} {result : TraversalResult F}
    (hstart : (g.getNode query.start).isSome) (ht : query.target ≠ some query.start)
    (h : run score budget query g clock fuel = some result)
    (hflag : result.trace.budgetExhausted = false) :
    ∃ w : Walk F, result.paths = w.paths ∧ result.visited = w.visited ∧
      ((∃ left, Ended score budget query g w left) ∨ ∃ t p, Hit budget query g w t p) := by
  rw [run, if_neg (by simpa using Option.ne_none_iff_isSome.mpr hstart)] at h
  obtain ⟨w, hw, rfl⟩ := Option.map_eq_some_iff.mp h
  refine ⟨w, rfl, rfl, loop_cases hb (searched_start query g _) ?_ ?_ hw hflag fun _ =>
    shortest_start query g _⟩
  · simp [startWalk, reported]
  · exact fun t htt hmem => ht (List.mem_singleton.mp hmem ▸ htt)

end Search

/-- Where no budget was exhausted and the cap dropped no edge, the walk to a target comes back
with one path if there is one within the hops, and with none otherwise; the path is a shortest
one and repeats no node. -/
theorem targeted_finds_shortest {F : Type} (score : Nat → List RelationType → F)
    (budget : TraversalBudget) (query : TraversalQuery) (g : ConceptGraph) (hb : g.Built)
    (clock : Clock) (t : NodeId) (htarget : query.target = some t) (hne : t ≠ query.start)
    (hstart : (g.getNode query.start).isSome) :
    (∃ fuel result, run score budget query g clock fuel = some result) ∧
    ∀ fuel result, run score budget query g clock fuel = some result →
      result.trace.budgetExhausted = false →
      (∀ v ∈ result.visited, WithinCap budget query g v) →
      ((∃ ns es, FilteredPath query g ns es t ∧ es.length ≤ budget.maxHops) →
        ∃ p, result.paths = [p] ∧ FilteredPath query g p.nodes p.edges t ∧ p.nodes.Nodup ∧
          ∀ ns es, FilteredPath query g ns es t → p.edges.length ≤ es.length) ∧
      ((¬∃ ns es, FilteredPath query g ns es t ∧ es.length ≤ budget.maxHops) →
        result.paths = []) := by
  have hst : query.target ≠ some query.start := by
    rw [htarget]
    exact fun h => hne (Option.some.inj h)
  refine ⟨run_ends score budget hb clock hst, fun fuel result hrun hflag hcap => ?_⟩
  obtain ⟨w, hpaths, hvisited, ⟨left, hended⟩ | ⟨t', p, hhit⟩⟩ := run_cases hb hstart hst hrun hflag
  · have hnone : ¬∃ ns es, FilteredPath query g ns es t ∧ es.length ≤ budget.maxHops := by
      rintro ⟨ns, es, hpath, hle⟩
      have hshort := hended.shortest (hvisited ▸ hcap)
      obtain ⟨d, -, hd⟩ | ⟨a, ha, -⟩ := hshort.ordered.met_or_waiting hpath.steps hle
      · obtain ⟨entry, hentry, hnode, -⟩ := mem_pairs.mp (by simpa [pairs] using hd)
        refine hended.missed t htarget ?_
        rw [hended.searched.met, ← hnode]
        exact List.mem_map_of_mem (by simpa using hentry)
      · cases ha
    refine ⟨fun hsome => absurd hsome hnone, fun _ => ?_⟩
    rw [hpaths, hended.paths]
    simp [reported, htarget]
  · obtain rfl : t' = t := Option.some.inj (hhit.target.symm.trans htarget)
    refine ⟨fun _ => ?_, fun hnone => absurd ⟨_, _, hhit.path, hhit.within⟩ hnone⟩
    exact ⟨p, hpaths.trans hhit.paths, hhit.path, hhit.nodup,
      fun ns es hpath => hhit.least (hvisited ▸ hcap) _ hpath.steps⟩

def sampleNode (id : NodeId) : Concept.ConceptNode := ⟨id, "", "", 7, .canonical, none, 0, 0⟩

def sampleEdge (id : EdgeId) (u v : NodeId) : ConceptEdge := ⟨id, u, v, .isA, 7, 0⟩

/-- Three nodes, with an edge from the first to each of the others and one between these. -/
def sampleGraph : ConceptGraph :=
  let g := [1, 2, 3].foldl (fun g id => (g.addNode (sampleNode id)).1) ConceptGraph.new
  [sampleEdge 11 1 2, sampleEdge 12 1 3, sampleEdge 13 2 3].foldl
    (fun g edge => (g.addEdge edge).1) g

theorem sampleGraph_built : sampleGraph.Built :=
  .addEdge _ (.addEdge _ (.addEdge _ (.addNode _ (.addNode _ (.addNode _ .new)))))

def sampleQuery (target : Option NodeId) : TraversalQuery := ⟨1, target, [], [], .outgoing⟩

def sampleRun (budget : TraversalBudget) (target : Option NodeId) : Option (TraversalResult Nat) :=
  run (fun length _ => length) budget (sampleQuery target) sampleGraph (fun _ => 0) 5

theorem sample_direct (target : Option NodeId) :
    FilteredPath (sampleQuery target) sampleGraph [1, 3] [12] 3 :=
  .snoc .start ⟨sampleEdge 12 1 3, by decide +kernel, rfl, rfl, rfl⟩

instance (budget : TraversalBudget) (query : TraversalQuery) (g : ConceptGraph) (node : NodeId) :
    Decidable (WithinCap budget query g node) :=
  inferInstanceAs (Decidable ((filteredEdges query g node).card ≤ budget.maxEdgesPerHop))

theorem targeted_finds_shortest_sample : ∃ result p,
    sampleRun ⟨4, 1000, 50, 64⟩ (some 3) = some result ∧ result.paths = [p] ∧
      FilteredPath (sampleQuery (some 3)) sampleGraph p.nodes p.edges 3 := by
  obtain ⟨-, hall⟩ := targeted_finds_shortest (fun length _ => length) ⟨4, 1000, 50, 64⟩
    (sampleQuery (some 3)) sampleGraph sampleGraph_built (fun _ => 0) 3 rfl (by decide)
    (by decide +kernel)
  have hsome : (sampleRun ⟨4, 1000, 50, 64⟩ (some 3)).isSome := by decide +kernel
  have hclean : (sampleRun ⟨4, 1000, 50, 64⟩ (some 3)).all fun result =>
      !result.trace.budgetExhausted && result.visited.all fun v =>
        WithinCap ⟨4, 1000, 50, 64⟩ (sampleQuery (some 3)) sampleGraph v := by decide +kernel
  obtain ⟨result, hresult⟩ := Option.isSome_iff_exists.mp hsome
  simp only [hresult, Option.all_some, Bool.and_eq_true, Bool.not_eq_true', List.all_eq_true,
    decide_eq_true_eq] at hclean
  obtain ⟨p, hp, hfiltered, -⟩ :=
    (hall 5 result hresult hclean.1 hclean.2).1 ⟨_, _, sample_direct _, by decide⟩
  exact ⟨result, p, hresult, hp, hfiltered⟩

def pathsTo {F : Type} (paths : List (TraversedPath F)) (v : NodeId) : List (TraversedPath F) :=
  paths.filter fun p => p.nodes.getLast? = some v

/-- No path is listed, and an edge leads to the node that would be the last within the limit. -/
def LastHop {F : Type} (query : TraversalQuery) (g : ConceptGraph) (limit : Nat)
    (paths : List (TraversedPath F)) (v : NodeId) : Prop :=
  pathsTo paths v = [] ∧ ((limit = 1 ∧ Hop query g query.start v) ∨
    ∃ p ∈ paths, p.edges.length+1 = limit ∧
      ∃ u, FilteredPath query g p.nodes p.edges u ∧ Hop query g u v)

def OnePath {F : Type} (query : TraversalQuery) (g : ConceptGraph) (paths : List (TraversedPath F))
    (v : NodeId) : Prop :=
  ∃ p, pathsTo paths v = [p] ∧ FilteredPath query g p.nodes p.edges v ∧ p.nodes.Nodup

section Explore

variable {F : Type} {score : Nat → List RelationType → F} {budget : TraversalBudget}
  {query : TraversalQuery} {g : ConceptGraph}

theorem FilteredPath.getLast {ns : List NodeId} {es : List EdgeId} {v : NodeId}
    (h : FilteredPath query g ns es v) : ns.getLast? = some v := by
  cases h with
  | start => rfl
  | snoc _ _ => exact List.getLast?_concat

theorem filter_unique {A B : Type} {l : List A} {f : A → B} (hnodup : (l.map f).Nodup) {x : A}
    (hx : x ∈ l) {p : A → Bool} (hp : p x = true) (honly : ∀ y ∈ l, p y = true → f y = f x) :
    l.filter p = [x] := by
  induction l with
  | nil => cases hx
  | cons a l ih =>
    rw [List.map_cons, List.nodup_cons] at hnodup
    obtain rfl | hx := List.mem_cons.mp hx
    · have hnone : l.filter p = [] := by
        rw [List.filter_eq_nil_iff]
        intro y hy hpy
        refine hnodup.1 ?_
        rw [← honly y (List.mem_cons_of_mem _ hy) hpy]
        exact List.mem_map_of_mem hy
      rw [List.filter_cons_of_pos hp, hnone]
    · have ha : p a ≠ true := by
        intro hpa
        refine hnodup.1 ?_
        rw [honly a List.mem_cons_self hpa]
        exact List.mem_map_of_mem hx
      rw [List.filter_cons_of_neg ha]
      exact ih hnodup.2 hx fun y hy => honly y (List.mem_cons_of_mem _ hy)

section

variable {w : Walk F} {left : List Entry}

theorem Ended.pathsTo (h : Ended score budget query g w left)
    (ht : query.target = none) {entry : Entry} (hentry : entry ∈ left)
    (hne : entry.node ≠ query.start) (hlt : entry.depth < budget.maxHops) :
    pathsTo w.paths entry.node = [entry.path score] := by
  have hmet : w.visited = left.map node := by simpa using h.searched.met
  have hlast : ∀ x ∈ left, x.nodePath.getLast? = some x.node :=
    fun x hx => (h.searched.entries x (by simpa using hx)).path.getLast
  rw [h.paths, reported, if_pos ht, Traversal.pathsTo, List.filter_map, List.filter_filter,
    filter_unique (hmet ▸ h.searched.nodup) hentry]
  · rfl
  · simp [path, hlast entry hentry, hne, hlt]
  · intro y hy hp
    simp only [Function.comp_apply, path, hlast y hy, Option.some.injEq, Bool.and_eq_true,
      decide_eq_true_eq] at hp
    exact hp.1

theorem Ended.mem_paths (h : Ended score budget query g w left)
    (ht : query.target = none) {p : TraversedPath F} (hp : p ∈ w.paths) :
    ∃ entry ∈ left, entry.node ≠ query.start ∧ entry.depth < budget.maxHops ∧
      p = entry.path score := by
  rw [h.paths, reported, if_pos ht] at hp
  obtain ⟨entry, hentry, rfl⟩ := List.mem_map.mp hp
  rw [List.mem_filter, decide_eq_true_eq] at hentry
  exact ⟨entry, hentry.1, hentry.2.1, hentry.2.2, rfl⟩

theorem Ended.eq_of_node (h : Ended score budget query g w left)
    {entry entry' : Entry} (hentry : entry ∈ left) (hentry' : entry' ∈ left)
    (hnode : entry.node = entry'.node) : entry = entry' := by
  have hmet : w.visited = left.map node := by simpa using h.searched.met
  exact List.inj_on_of_nodup_map (hmet ▸ h.searched.nodup) hentry hentry' hnode

theorem Ended.lastHop (h : Ended score budget query g w left)
    (hb : g.Built) (ht : query.target = none) {entry : Entry} (hentry : entry ∈ left)
    (hne : entry.node ≠ query.start) (hdepth : entry.depth = budget.maxHops) :
    LastHop query g budget.maxHops w.paths entry.node := by
  constructor
  · refine List.filter_eq_nil_iff.mpr fun p hp hlast => ?_
    obtain ⟨entry', hentry', -, hlt, rfl⟩ := h.mem_paths ht hp
    have hok := h.searched.entries entry' (by simpa using hentry')
    have hnode : entry'.node = entry.node := by
      simpa [path, hok.path.getLast] using hlast
    rw [h.eq_of_node hentry' hentry hnode] at hlt
    omega
  · obtain hstart | ⟨parent, hparent, next, hnext, rfl⟩ :=
      h.searched.parents entry (by simpa using hentry)
    · exact absurd (congrArg node hstart) hne
    have hparent : parent ∈ left := by simpa using hparent
    have hok := h.searched.entries parent (by simpa using hparent)
    have hhop : Hop query g parent.node next.1 := ⟨_, (joins_iff hb).mpr ⟨_, hnext⟩⟩
    have hbefore : parent.depth+1 = budget.maxHops := hdepth
    by_cases hs : parent.node = query.start
    · obtain ⟨rest, hrest⟩ := h.searched.start
      have hfirst : startEntry query ∈ left := by
        rw [← List.append_nil left, hrest]
        exact List.mem_cons_self
      have hroot : parent = startEntry query := h.eq_of_node hparent hfirst hs
      rw [hroot] at hbefore
      exact .inl ⟨hbefore.symm, hs ▸ hhop⟩
    · refine .inr ⟨parent.path score, ?_, by simpa [path, ← hok.depth] using hbefore,
        parent.node, hok.path, hhop⟩
      rw [h.paths, reported, if_pos ht]
      exact List.mem_map_of_mem (List.mem_filter.mpr ⟨hparent, by simp [hs, ← hbefore]⟩)

theorem Ended.onePath (h : Ended score budget query g w left)
    (hb : g.Built) (ht : query.target = none) {v : NodeId} (hv : v ∈ w.visited)
    (hne : v ≠ query.start) :
    OnePath query g w.paths v ∨ LastHop query g budget.maxHops w.paths v := by
  rw [h.searched.met, List.append_nil] at hv
  obtain ⟨entry, hentry, rfl⟩ := List.mem_map.mp hv
  have hok := h.searched.entries entry (by simpa using hentry)
  have hwithin := h.searched.within entry (by simpa using hentry)
  by_cases hlt : entry.depth < budget.maxHops
  · exact .inl ⟨_, h.pathsTo ht hentry hne hlt, hok.path, hok.nodup⟩
  · exact .inr (h.lastHop hb ht hentry hne (by omega))

end

end Explore

/-- Where no budget was exhausted, the walk to everything around a node lists only filtered paths to
other nodes that it visited, and exactly one for each that it did not reach at its last hop. Where
the cap dropped no edge these are shortest paths, the nodes within the limit are those visited, and
each that lies nearer than the limit has its path. -/
theorem explored_paths {F : Type} (score : Nat → List RelationType → F) (budget : TraversalBudget)
    (query : TraversalQuery) (g : ConceptGraph) (hb : g.Built) (clock : Clock)
    (htarget : query.target = none) (hstart : (g.getNode query.start).isSome) :
    (∃ fuel result, run score budget query g clock fuel = some result) ∧
    ∀ fuel result, run score budget query g clock fuel = some result →
      result.trace.budgetExhausted = false →
      (∀ p ∈ result.paths, ∃ v ∈ result.visited, v ≠ query.start ∧
        FilteredPath query g p.nodes p.edges v ∧ p.nodes.Nodup) ∧
      (∀ v ∈ result.visited, v ≠ query.start → OnePath query g result.paths v ∨
        LastHop query g budget.maxHops result.paths v) ∧
      ((∀ v ∈ result.visited, WithinCap budget query g v) →
        (∀ p ∈ result.paths, ∀ v ns es, FilteredPath query g p.nodes p.edges v →
          FilteredPath query g ns es v → p.edges.length ≤ es.length) ∧
        (∀ v, v ∈ result.visited ↔
          ∃ ns es, FilteredPath query g ns es v ∧ es.length ≤ budget.maxHops) ∧
        ∀ v ns es, FilteredPath query g ns es v → es.length < budget.maxHops →
          v ≠ query.start → OnePath query g result.paths v) := by
  have hst : query.target ≠ some query.start := by
    rw [htarget]
    exact nofun
  refine ⟨run_ends score budget hb clock hst, fun fuel result hrun hflag => ?_⟩
  obtain ⟨w, hpaths, hvisited, ⟨left, hended⟩ | ⟨t, p, hhit⟩⟩ := run_cases hb hstart hst hrun hflag
  swap
  · have hcontra := hhit.target
    rw [htarget] at hcontra
    cases hcontra
  rw [hpaths, hvisited]
  have hentry : ∀ entry ∈ left, EntryOk query g entry ∧ entry.node ∈ w.visited := by
    intro entry hentry
    rw [hended.searched.met]
    exact ⟨hended.searched.entries entry (by simpa using hentry),
      List.mem_map_of_mem (by simpa using hentry)⟩
  refine ⟨fun p hp => ?_, fun v hv hne => hended.onePath hb htarget hv hne, fun hcap => ?_⟩
  · obtain ⟨entry, hmem, hne, -, rfl⟩ := hended.mem_paths htarget hp
    obtain ⟨hok, hin⟩ := hentry entry hmem
    exact ⟨entry.node, hin, hne, hok.path, hok.nodup⟩
  have hshort := hended.shortest hcap
  have hclose : ∀ v ns es, FilteredPath query g ns es v → es.length ≤ budget.maxHops →
      ∃ entry ∈ left, entry.node = v ∧ entry.depth ≤ es.length := by
    intro v ns es hpath hle
    obtain ⟨d, hd, hmem⟩ | ⟨a, ha, -⟩ := hshort.ordered.met_or_waiting hpath.steps hle
    · obtain ⟨entry, hentry, hnode, rfl⟩ := mem_pairs.mp (by simpa [pairs] using hmem)
      exact ⟨entry, hentry, hnode, hd⟩
    · cases ha
  refine ⟨fun p hp v ns es hv hpath => ?_, fun v => ⟨fun hv => ?_, ?_⟩,
    fun v ns es hpath hlt hne => ?_⟩
  · obtain ⟨entry, hmem, -, -, rfl⟩ := hended.mem_paths htarget hp
    obtain ⟨hok, -⟩ := hentry entry hmem
    obtain rfl : entry.node = v := Option.some.inj (hok.path.getLast.symm.trans hv.getLast)
    have hle := hshort.least entry (by simpa using hmem) _ hpath.steps
    rw [hok.depth] at hle
    exact hle
  · rw [hended.searched.met, List.append_nil] at hv
    obtain ⟨entry, hmem, rfl⟩ := List.mem_map.mp hv
    obtain ⟨hok, -⟩ := hentry entry hmem
    exact ⟨_, _, hok.path, hok.depth ▸ hended.searched.within entry (by simpa using hmem)⟩
  · rintro ⟨ns, es, hpath, hle⟩
    obtain ⟨entry, hmem, rfl, -⟩ := hclose v ns es hpath hle
    exact (hentry entry hmem).2
  · obtain ⟨entry, hmem, rfl, hle⟩ := hclose v ns es hpath hlt.le
    obtain ⟨hok, -⟩ := hentry entry hmem
    exact ⟨_, hended.pathsTo htarget hmem hne (by omega), hok.path, hok.nodup⟩

theorem explored_paths_sample : ∃ result, sampleRun ⟨2, 1000, 50, 64⟩ none = some result ∧
    result.paths.length = 2 ∧ OnePath (sampleQuery none) sampleGraph result.paths 3 ∧
    ∀ v, v ∈ result.visited ↔
      ∃ ns es, FilteredPath (sampleQuery none) sampleGraph ns es v ∧ es.length ≤ 2 := by
  obtain ⟨-, hall⟩ := explored_paths (fun length _ => length) ⟨2, 1000, 50, 64⟩ (sampleQuery none)
    sampleGraph sampleGraph_built (fun _ => 0) rfl (by decide +kernel)
  have hsome : (sampleRun ⟨2, 1000, 50, 64⟩ none).isSome := by decide +kernel
  have hclean : (sampleRun ⟨2, 1000, 50, 64⟩ none).all fun result =>
      !result.trace.budgetExhausted && result.paths.length == 2 && result.visited.all fun v =>
        WithinCap ⟨2, 1000, 50, 64⟩ (sampleQuery none) sampleGraph v := by decide +kernel
  obtain ⟨result, hresult⟩ := Option.isSome_iff_exists.mp hsome
  simp only [hresult, Option.all_some, Bool.and_eq_true, Bool.not_eq_true', List.all_eq_true,
    decide_eq_true_eq, beq_iff_eq] at hclean
  obtain ⟨-, -, hshort⟩ := hall 5 result hresult hclean.1.1
  obtain ⟨-, hvisited, hnear⟩ := hshort hclean.2
  exact ⟨result, hresult, hclean.1.2, hnear 3 _ _ (sample_direct none) (by decide) (by decide),
    hvisited⟩

/-- With a cap of one edge the third node is reached by way of the second, though the first has
an edge to it; no budget counts as exhausted. -/
theorem capped_path_not_shortest : ∃ result, sampleRun ⟨4, 1000, 50, 1⟩ none = some result ∧
    result.trace.budgetExhausted = false ∧ 3 ∈ result.visited ∧
    ¬∃ p, pathsTo result.paths 3 = [p] ∧
      ∀ ns es, FilteredPath (sampleQuery none) sampleGraph ns es 3 → p.edges.length ≤ es.length := by
  have hsome : (sampleRun ⟨4, 1000, 50, 1⟩ none).isSome := by decide +kernel
  have hlong : (sampleRun ⟨4, 1000, 50, 1⟩ none).all fun result =>
      !result.trace.budgetExhausted && result.visited.contains 3 &&
        (pathsTo result.paths 3).all fun p => p.edges.length == 2 := by decide +kernel
  obtain ⟨result, hresult⟩ := Option.isSome_iff_exists.mp hsome
  simp only [hresult, Option.all_some, Bool.and_eq_true, Bool.not_eq_true', List.all_eq_true,
    List.contains_iff_mem, beq_iff_eq] at hlong
  refine ⟨result, hresult, hlong.1.1, hlong.1.2, ?_⟩
  rintro ⟨p, hp, hshort⟩
  have htwo := hlong.2 p (hp ▸ List.mem_singleton_self p)
  have hone := hshort _ _ (sample_direct none)
  rw [htwo] at hone
  exact absurd hone (by decide)

end Knowledge.Traversal
