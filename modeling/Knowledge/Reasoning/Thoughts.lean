import Mathlib.Algebra.Order.Field.Rat
import Knowledge.Lib.Acyclic
import Knowledge.Memory.Policy

/-!
`crates/reasoning_engine/src/graph_of_thought.rs`: the graph of thoughts, its expansion under the
four strategies, and the listing of its paths.
-/

set_option autoImplicit false

namespace Knowledge.GraphOfThought
open Knowledge.Transition Knowledge.Digraph
open Knowledge.Sync (Uuid)
open Knowledge.Memory (ScopeId)

abbrev ThoughtId := Uuid

inductive ThoughtType where
  | hypothesis
  | evidence
  | conclusion
  | question
  | refinement
  deriving DecidableEq

inductive ThoughtEdge where
  | supports
  | contradicts
  | refines
  | derives
  | aggregates
  deriving DecidableEq

structure ThoughtNode (F : Type) where
  id : ThoughtId
  content : String
  thoughtType : ThoughtType
  confidence : F
  parentIds : List ThoughtId
  scopeId : ScopeId
  createdAt : Int

inductive GoTError where
  | danglingChild
  | parentNotFound
  | emptyGraph

structure Floats (F : Type) where
  zero : F
  negInfinity : F
  partialCmp : F → F → Option Ordering
  defaultScore : List (ThoughtNode F) → F

def Floats.gt {F : Type} (floats : Floats F) (a b : F) : Bool :=
  floats.partialCmp a b == some .gt

structure ThoughtGraph (F : Type) where
  nodes : Table ThoughtId (ThoughtNode F)
  /-- `parent -> [(child, edge)]` -/
  children : Table ThoughtId (List (ThoughtId × ThoughtEdge))
  order : List ThoughtId
  root : Option ThoughtId

open ThoughtGraph

inductive GoTStrategy where
  | breadthFirst
  | depthFirst
  | bestFirst
  | iterative

structure GoTQuery where
  strategy : GoTStrategy
  maxDepth : Nat
  maxBranches : Nat
  maxNodes : Nat

structure GoTPlan where
  root : ThoughtId
  subQuestions : List ThoughtId

structure ScoredPath (F : Type) where
  thoughts : List (ThoughtNode F)
  score : F
  endsAtConclusion : Bool

structure GoTResult (F : Type) where
  bestPath : List (ThoughtNode F)
  allPaths : List (ScoredPath F)
  confidence : F
  reasoningTrace : List (ThoughtNode F)
  budgetExhausted : Bool

section

variable {F : Type} (floats : Floats F)

namespace ThoughtGraph

def empty : ThoughtGraph F := ⟨∅, ∅, [], none⟩

def len (g : ThoughtGraph F) : Nat := g.nodes.keys.length

def isEmpty (g : ThoughtGraph F) : Bool := g.nodes.keys.isEmpty

section

variable (g : ThoughtGraph F)

def get (id : ThoughtId) : Option (ThoughtNode F) := g.nodes.lookup id

def iter : List (ThoughtNode F) := g.order.filterMap g.get

def childrenOf (id : ThoughtId) : List (ThoughtId × ThoughtEdge) :=
  (g.children.lookup id).getD []

def add (thought : ThoughtNode F) : ThoughtId × ThoughtGraph F :=
  match g.nodes.lookup thought.id with
  | some _ => (thought.id, g)
  | none =>
    (thought.id, { g with
      order := g.order ++ [thought.id]
      children := g.children.insert thought.id (g.childrenOf thought.id)
      nodes := g.nodes.insert thought.id thought })

def setRoot (id : ThoughtId) : ThoughtGraph F := { g with root := some id }

end

def pushChild (entry : ThoughtId × ThoughtEdge) (g : ThoughtGraph F) (parent : ThoughtId) :
    ThoughtGraph F :=
  { g with children := g.children.insert parent (g.childrenOf parent ++ [entry]) }

def connectChild (g : ThoughtGraph F) (child : ThoughtNode F) (edge : ThoughtEdge) :
    Except GoTError ThoughtId × ThoughtGraph F :=
  if child.parentIds.isEmpty then (.error .danglingChild, g)
  else if child.parentIds.all fun parent => (g.get parent).isSome then
    let (id, g) := g.add child
    (.ok id, child.parentIds.foldl (pushChild (id, edge)) g)
  else (.error .parentNotFound, g)

end ThoughtGraph

abbrev Frontier := List (ThoughtId × Nat)

namespace Frontier

def bestIdx (g : ThoughtGraph F) (frontier : Frontier) : Nat × F :=
  frontier.zipIdx.foldl (fun best entry =>
    match g.get entry.1.1 with
    | some node => if floats.gt node.confidence best.2 then (entry.2, node.confidence) else best
    | none => best) (0, floats.negInfinity)

def bestIdxAt (g : ThoughtGraph F) (frontier : Frontier) (depth : Nat) : Option Nat × F :=
  frontier.zipIdx.foldl (fun best entry =>
    if entry.1.2 ≠ depth then best
    else
      let conf := ((g.get entry.1.1).map (·.confidence)).getD floats.negInfinity
      if best.1.isNone || floats.gt conf best.2 then (some entry.2, conf) else best)
    (none, floats.negInfinity)

def removeAt (frontier : Frontier) (i : Nat) : Option ((ThoughtId × Nat) × Frontier) :=
  frontier[i]?.map fun entry => (entry, frontier.eraseIdx i)

end Frontier

def popNext (strategy : GoTStrategy) (frontier : Frontier) (g : ThoughtGraph F) :
    Option ((ThoughtId × Nat) × Frontier) :=
  match strategy with
  | .breadthFirst => frontier.removeAt 0
  | .depthFirst => frontier.removeAt (frontier.length-1)
  | .bestFirst =>
    if frontier.isEmpty then none else frontier.removeAt (frontier.bestIdx floats g).1
  | .iterative =>
    match (frontier.map Prod.snd).min? with
    | none => none
    | some minDepth => (frontier.bestIdxAt floats g minDepth).1.bind frontier.removeAt

structure ExpandCall (F : Type) where
  parent : ThoughtNode F
  depth : Nat
  limit : Nat

/-- The answer to the last of these calls; it may have kept in mind the ones before. -/
abbrev Expander (F : Type) := List (ExpandCall F) → List (ThoughtNode F × ThoughtEdge)

def ThoughtNode.orParent (child : ThoughtNode F) (nodeId : ThoughtId) : ThoughtNode F :=
  if child.parentIds.isEmpty then { child with parentIds := [nodeId] } else child

def expandChildren (query : GoTQuery) (nodeId : ThoughtId) (depth : Nat) :
    List (ThoughtNode F × ThoughtEdge) → Nat → ThoughtGraph F → Frontier →
      Bool × ThoughtGraph F × Frontier
  | [], _, g, frontier => (false, g, frontier)
  | (child, edge) :: rest, kept, g, frontier =>
    if query.maxBranches ≤ kept then (false, g, frontier)
    else if query.maxNodes ≤ g.len then (true, g, frontier)
    else
      match g.connectChild (child.orParent nodeId) edge with
      | (.error _, g) => expandChildren query nodeId depth rest kept g frontier
      | (.ok id, g) =>
        expandChildren query nodeId depth rest (kept+1) g (frontier ++ [(id, depth+1)])

def runExpansion (query : GoTQuery) (expander : Expander F) :
    Nat → List (ExpandCall F) → ThoughtGraph F → Frontier → Option (Bool × ThoughtGraph F)
  | 0, _, _, _ => none
  | fuel+1, calls, g, frontier =>
    match popNext floats query.strategy frontier g with
    | none => some (false, g)
    | some ((nodeId, depth), frontier) =>
      if query.maxDepth ≤ depth then runExpansion query expander fuel calls g frontier
      else if query.maxNodes ≤ g.len then some (true, g)
      else
        match g.get nodeId with
        | none => runExpansion query expander fuel calls g frontier
        | some parent =>
          let calls := calls ++ [⟨parent, depth, query.maxBranches⟩]
          match expandChildren query nodeId depth (expander calls) 0 g frontier with
          | (true, g, _) => some (true, g)
          | (false, g, frontier) => runExpansion query expander fuel calls g frontier

/-- `none` where it has not ended within so many rounds. -/
def expandAll (fuel : Nat) (g : ThoughtGraph F) (plan : GoTPlan) (query : GoTQuery)
    (expander : Expander F) : Option (Bool × ThoughtGraph F) :=
  runExpansion floats query expander fuel [] g
    ((plan.root, 0) :: plan.subQuestions.map fun sub => (sub, 1))

/-- `none` where it has not come back from so many calls within one another. -/
def collectPaths (g : ThoughtGraph F) : Nat → ThoughtId → List (ThoughtNode F) →
    List (ScoredPath F) → Option (List (ScoredPath F))
  | 0, _, _, _ => none
  | fuel+1, nodeId, current, out =>
    match g.get nodeId with
    | none => some out
    | some node =>
      let current := current ++ [node]
      let kids := g.childrenOf nodeId
      if kids.isEmpty then some (out ++ [⟨current, floats.zero, false⟩])
      else kids.foldlM (fun out kid => collectPaths g fuel kid.1 current out) out

def evaluateFrom (g : ThoughtGraph F) : Option ThoughtId := g.root <|> g.order.head?

def ScoredPath.scored (path : ScoredPath F) : ScoredPath F :=
  { path with
    score := floats.defaultScore path.thoughts
    endsAtConclusion := path.thoughts.getLast?.any fun t => t.thoughtType = .conclusion }

def sortPaths (paths : List (ScoredPath F)) : List (ScoredPath F) :=
  paths.mergeSort fun a b => (floats.partialCmp b.score a.score).getD .eq != .gt

def evaluate (fuel : Nat) (g : ThoughtGraph F) : Option (Except GoTError (GoTResult F)) :=
  if g.isEmpty then some (.error .emptyGraph)
  else
    match evaluateFrom g with
    | none => none
    | some root =>
      (collectPaths floats g fuel root [] []).map fun paths =>
        let paths := sortPaths floats (paths.map (ScoredPath.scored floats))
        let best := paths.head?.map fun path => (path.thoughts, path.score)
        .ok ⟨(best.getD ([], floats.zero)).1, paths, (best.getD ([], floats.zero)).2, g.iter, false⟩

def ThoughtGraph.Connects (g : ThoughtGraph F) (child : ThoughtNode F) : Prop :=
  child.parentIds ≠ [] ∧ ∀ parent ∈ child.parentIds, (g.get parent).isSome

def ThoughtGraph.Edge (g : ThoughtGraph F) (parent child : ThoughtId) : Prop :=
  ∃ edge, (child, edge) ∈ g.childrenOf parent

def ThoughtGraph.Forward (g : ThoughtGraph F) (child : ThoughtNode F) : Prop :=
  g.Connects child → ∀ parent ∈ child.parentIds, ¬Relation.ReflTransGen g.Edge child.id parent

/-- Each child that the loop connects is forward in the graph of that moment. -/
def ForwardChildren (query : GoTQuery) (nodeId : ThoughtId) :
    List (ThoughtNode F × ThoughtEdge) → Nat → ThoughtGraph F → Prop
  | [], _, _ => True
  | (child, edge) :: rest, kept, g =>
    if query.maxBranches ≤ kept ∨ query.maxNodes ≤ g.len then True
    else
      g.Forward (child.orParent nodeId) ∧
        match g.connectChild (child.orParent nodeId) edge with
        | (.error _, g) => ForwardChildren query nodeId rest kept g
        | (.ok _, g) => ForwardChildren query nodeId rest (kept+1) g

/-- What the expander hands out is forward whenever it is connected. -/
def ForwardExpansion (query : GoTQuery) (expander : Expander F) :
    Nat → List (ExpandCall F) → ThoughtGraph F → Frontier → Prop
  | 0, _, _, _ => True
  | fuel+1, calls, g, frontier =>
    match popNext floats query.strategy frontier g with
    | none => True
    | some ((nodeId, depth), frontier) =>
      if query.maxDepth ≤ depth then ForwardExpansion query expander fuel calls g frontier
      else if query.maxNodes ≤ g.len then True
      else
        match g.get nodeId with
        | none => ForwardExpansion query expander fuel calls g frontier
        | some parent =>
          let calls := calls ++ [⟨parent, depth, query.maxBranches⟩]
          ForwardChildren query nodeId (expander calls) 0 g ∧
            match expandChildren query nodeId depth (expander calls) 0 g frontier with
            | (true, _, _) => True
            | (false, g, frontier) => ForwardExpansion query expander fuel calls g frontier

/-- The calls a graph is built with. An expansion is taken with enough rounds to end. -/
inductive Build (F : Type) where
  | add (thought : ThoughtNode F)
  | setRoot (id : ThoughtId)
  | connectChild (child : ThoughtNode F) (edge : ThoughtEdge)
  | expandAll (fuel : Nat) (plan : GoTPlan) (query : GoTQuery) (expander : Expander F)

namespace Build

def guard (g : ThoughtGraph F) : Build F → Prop
  | .expandAll fuel plan query expander =>
    (GraphOfThought.expandAll floats fuel g plan query expander).isSome
  | .add _ | .setRoot _ | .connectChild _ _ => True

def next (g : ThoughtGraph F) : Build F → ThoughtGraph F
  | .add thought => (g.add thought).2
  | .setRoot id => g.setRoot id
  | .connectChild child edge => (g.connectChild child edge).2
  | .expandAll fuel plan query expander =>
    ((GraphOfThought.expandAll floats fuel g plan query expander).map Prod.snd).getD g

def Forward (g : ThoughtGraph F) : Build F → Prop
  | .add _ | .setRoot _ => True
  | .connectChild child _ => g.Forward child
  | .expandAll fuel plan query expander => ForwardExpansion floats query expander fuel [] g
      ((plan.root, 0) :: plan.subQuestions.map fun sub => (sub, 1))

end Build

def system : System (ThoughtGraph F) (Build F) :=
  .ofNext (· = .empty) (Build.guard floats) (Build.next floats)

end

namespace ThoughtGraph

variable {F : Type}

section

variable (g : ThoughtGraph F) (thought : ThoughtNode F)

theorem isSome_get_add (id : ThoughtId) :
    ((g.add thought).2.get id).isSome ↔ (g.get id).isSome ∨ id = thought.id := by
  cases h : g.nodes.lookup thought.id with
  | some old =>
    simp only [add, h, get]
    constructor
    · exact .inl
    · rintro (hid | rfl)
      · exact hid
      · rw [h]
        rfl
  | none =>
    simp only [add, h, get, Table.lookup_insert_ite]
    split <;> simp [*]

theorem childrenOf_add (id : ThoughtId) :
    (g.add thought).2.childrenOf id = g.childrenOf id := by
  cases h : g.nodes.lookup thought.id with
  | some old => simp only [add, h]
  | none =>
    simp only [add, h, childrenOf, Table.lookup_insert_ite]
    split
    · rename_i hid
      rw [hid]
      rfl
    · rfl

theorem add_id : (g.add thought).1 = thought.id := by
  unfold add
  split <;> rfl

theorem len_add :
    (g.add thought).2.len ≤ g.len+1 := by
  cases h : g.nodes.lookup thought.id with
  | some old => simp [add, h]
  | none =>
    have hnew : thought.id ∉ g.nodes := AList.lookup_eq_none.mp h
    simp [add, h, len, AList.keys_insert, List.erase_of_not_mem (AList.mem_keys.not.mpr hnew)]

end

theorem mem_childrenOf_pushChild (g : ThoughtGraph F) (entry kid : ThoughtId × ThoughtEdge)
    (parent id : ThoughtId) : kid ∈ (pushChild entry g parent).childrenOf id ↔
      kid ∈ g.childrenOf id ∨ (id = parent ∧ kid = entry) := by
  simp only [pushChild, childrenOf, Table.lookup_insert_ite]
  split
  · rename_i hid
    subst hid
    simp
  · simp [*]

theorem pushAll_spec (g : ThoughtGraph F) (entry : ThoughtId × ThoughtEdge)
    (parents : List ThoughtId) :
    (∀ id kid, kid ∈ (parents.foldl (pushChild entry) g).childrenOf id ↔
      kid ∈ g.childrenOf id ∨ (id ∈ parents ∧ kid = entry)) ∧
    (parents.foldl (pushChild entry) g).nodes = g.nodes ∧
    (parents.foldl (pushChild entry) g).order = g.order := by
  induction parents generalizing g with
  | nil => simp
  | cons parent parents ih =>
    obtain ⟨hkids, hnodes, horder⟩ := ih (pushChild entry g parent)
    refine ⟨fun id kid => ?_, hnodes, horder⟩
    rw [List.foldl_cons, hkids, mem_childrenOf_pushChild, List.mem_cons]
    tauto

theorem connectChild_cases (g : ThoughtGraph F) (child : ThoughtNode F) (edge : ThoughtEdge) :
    (¬g.Connects child ∧ ∃ err, g.connectChild child edge = (.error err, g)) ∨
    (g.Connects child ∧ ∃ g', g.connectChild child edge = (.ok child.id, g') ∧
      (∀ id kid, kid ∈ g'.childrenOf id ↔
        kid ∈ g.childrenOf id ∨ (id ∈ child.parentIds ∧ kid = (child.id, edge))) ∧
      g'.nodes = (g.add child).2.nodes ∧ g'.order = (g.add child).2.order) := by
  by_cases hempty : child.parentIds = []
  · exact .inl ⟨fun h => h.1 hempty, .danglingChild, by simp [connectChild, hempty]⟩
  by_cases hall : ∀ parent ∈ child.parentIds, (g.get parent).isSome
  · obtain ⟨hkids, hnodes, horder⟩ := pushAll_spec (g.add child).2 (child.id, edge) child.parentIds
    refine .inr ⟨⟨hempty, hall⟩, _, ?_, fun id kid => ?_, hnodes, horder⟩
    · have hall' : (child.parentIds.all fun parent => (g.get parent).isSome) = true := by
        simpa only [List.all_eq_true] using hall
      simp [connectChild, hempty, hall', add_id]
    · rw [hkids, childrenOf_add]
  · refine .inl ⟨fun h => hall h.2, .parentNotFound, ?_⟩
    have hall' : (child.parentIds.all fun parent => (g.get parent).isSome) = false := by
      simpa only [Bool.eq_false_iff, ne_eq, List.all_eq_true] using hall
    simp [connectChild, hempty, hall']

/-- Edges join thoughts of the graph, and the order has all of them. -/
structure Wf (g : ThoughtGraph F) : Prop where
  ends : ∀ parent child, g.Edge parent child → (g.get parent).isSome ∧ (g.get child).isSome
  order : ∀ id, (g.get id).isSome → id ∈ g.order

theorem edge_add (g : ThoughtGraph F) (thought : ThoughtNode F) (parent child : ThoughtId) :
    (g.add thought).2.Edge parent child ↔ g.Edge parent child := by
  simp only [Edge, childrenOf_add]

theorem Wf.add {g : ThoughtGraph F} (h : g.Wf) (thought : ThoughtNode F) :
    (g.add thought).2.Wf where
  ends parent child hedge := by
    obtain ⟨hparent, hchild⟩ := h.ends parent child ((g.edge_add thought parent child).mp hedge)
    simp only [isSome_get_add]
    exact ⟨.inl hparent, .inl hchild⟩
  order id hid := by
    cases hold : g.nodes.lookup thought.id with
    | some old =>
      have hsame : (g.add thought).2 = g := by simp only [ThoughtGraph.add, hold]
      rw [hsame] at hid ⊢
      exact h.order id hid
    | none =>
      have horder : (g.add thought).2.order = g.order ++ [thought.id] := by
        simp only [ThoughtGraph.add, hold]
      rw [horder, List.mem_append, List.mem_singleton]
      exact ((isSome_get_add g thought id).mp hid).imp_left (h.order id)

theorem edge_connectChild {g g' : ThoughtGraph F} {child : ThoughtNode F} {edge : ThoughtEdge}
    (hkids : ∀ id kid, kid ∈ g'.childrenOf id ↔
      kid ∈ g.childrenOf id ∨ (id ∈ child.parentIds ∧ kid = (child.id, edge)))
    (a b : ThoughtId) : g'.Edge a b ↔ WithEdgesTo g.Edge (· ∈ child.parentIds) child.id a b := by
  simp only [Edge, WithEdgesTo, hkids, Prod.mk.injEq]
  constructor
  · rintro ⟨e, he | ⟨ha, rfl, -⟩⟩
    · exact .inl ⟨e, he⟩
    · exact .inr ⟨ha, rfl⟩
  · rintro (⟨e, he⟩ | ⟨ha, rfl⟩)
    · exact ⟨e, .inl he⟩
    · exact ⟨edge, .inr ⟨ha, rfl, rfl⟩⟩

theorem acyclic_connectChild {g : ThoughtGraph F} (h : Acyclic g.Edge) (child : ThoughtNode F)
    (edge : ThoughtEdge) : Acyclic (g.connectChild child edge).2.Edge ↔ g.Forward child := by
  obtain ⟨hnot, err, heq⟩ | ⟨hconn, g', heq, hkids, -, -⟩ := g.connectChild_cases child edge
  · rw [heq]
    exact ⟨fun _ hconn => absurd hconn hnot, fun _ => h⟩
  · rw [heq, Acyclic.congr (edge_connectChild hkids), acyclic_withEdgesTo_iff h, Forward]
    exact ⟨fun hback _ => hback, fun hback => hback hconn⟩

theorem Wf.connectChild {g : ThoughtGraph F} (h : g.Wf) (child : ThoughtNode F)
    (edge : ThoughtEdge) : (g.connectChild child edge).2.Wf := by
  obtain ⟨-, err, heq⟩ | ⟨hconn, g', heq, hkids, hnodes, horder⟩ := g.connectChild_cases child edge
  · rw [heq]
    exact h
  · have hget : ∀ id, g'.get id = (g.add child).2.get id := fun id => by simp only [get, hnodes]
    rw [heq]
    refine ⟨fun parent kid hedge => ?_, fun id hid => ?_⟩
    · simp only [hget, isSome_get_add]
      obtain hedge | ⟨hparent, rfl⟩ := (edge_connectChild hkids parent kid).mp hedge
      · exact (h.ends parent kid hedge).imp .inl .inl
      · exact ⟨.inl (hconn.2 parent hparent), .inr rfl⟩
    · rw [horder]
      exact (h.add child).order id (hget id ▸ hid)

theorem edge_connectChild_of_edge {g : ThoughtGraph F} (child : ThoughtNode F) (edge : ThoughtEdge)
    {a b : ThoughtId} (h : g.Edge a b) : (g.connectChild child edge).2.Edge a b := by
  obtain ⟨-, err, heq⟩ | ⟨-, g', heq, hkids, -, -⟩ := g.connectChild_cases child edge
  · rw [heq]
    exact h
  · rw [heq]
    exact (edge_connectChild hkids a b).mpr (.inl h)

theorem len_connectChild (g : ThoughtGraph F) (child : ThoughtNode F) (edge : ThoughtEdge) :
    (g.connectChild child edge).2.len ≤ g.len+1 := by
  obtain ⟨-, err, heq⟩ | ⟨-, g', heq, -, hnodes, -⟩ := g.connectChild_cases child edge
  · rw [heq]
    exact Nat.le_succ _
  · have hlen := g.len_add child
    rw [len, ← hnodes] at hlen
    rw [heq]
    exact hlen

end ThoughtGraph

section Expansion

variable {F : Type} {query : GoTQuery}

theorem expandChildren_induction {P : ThoughtGraph F → Prop}
    (hstep : ∀ g child edge, g.len < query.maxNodes → P g → P (g.connectChild child edge).2)
    (nodeId : ThoughtId) (depth : Nat) (children : List (ThoughtNode F × ThoughtEdge)) (kept : Nat)
    {g : ThoughtGraph F} (frontier : Frontier) (h : P g) :
    P (expandChildren query nodeId depth children kept g frontier).2.1 := by
  induction children generalizing kept g frontier with
  | nil => exact h
  | cons entry rest ih =>
    obtain ⟨child, edge⟩ := entry
    rw [expandChildren]
    split
    · exact h
    split
    · exact h
    rename_i hroom
    have hnext := hstep g (child.orParent nodeId) edge (by omega) h
    split <;> rename_i heq <;> rw [heq] at hnext
    · exact ih kept frontier hnext
    · exact ih (kept+1) _ hnext

theorem runExpansion_induction {P : ThoughtGraph F → Prop} {floats : Floats F}
    (hstep : ∀ g child edge, g.len < query.maxNodes → P g → P (g.connectChild child edge).2)
    (expander : Expander F) (fuel : Nat) (calls : List (ExpandCall F)) {g g' : ThoughtGraph F}
    (frontier : Frontier) {tripped : Bool} (h : P g)
    (hrun : runExpansion floats query expander fuel calls g frontier = some (tripped, g')) :
    P g' := by
  induction fuel generalizing calls g frontier with
  | zero => cases hrun
  | succ fuel ih =>
    rw [runExpansion] at hrun
    split at hrun
    · cases hrun
      exact h
    · rename_i nodeId depth rest hpop
      split at hrun
      · exact ih calls rest h hrun
      split at hrun
      · cases hrun
        exact h
      split at hrun
      · exact ih calls rest h hrun
      · rename_i parent hparent
        have hkept := expandChildren_induction hstep nodeId depth
          (expander (calls ++ [⟨parent, depth, query.maxBranches⟩])) 0 rest h
        dsimp only at hrun
        split at hrun <;> rename_i heq <;> rw [heq] at hkept
        · cases hrun
          exact hkept
        · exact ih _ _ hkept hrun

theorem acyclic_expandChildren (query : GoTQuery) (nodeId : ThoughtId) (depth : Nat)
    (children : List (ThoughtNode F × ThoughtEdge)) (kept : Nat) {g : ThoughtGraph F}
    (frontier : Frontier) (h : Acyclic g.Edge) :
    Acyclic (expandChildren query nodeId depth children kept g frontier).2.1.Edge ↔
      ForwardChildren query nodeId children kept g := by
  induction children generalizing kept g frontier with
  | nil => exact iff_of_true h trivial
  | cons entry rest ih =>
    obtain ⟨child, edge⟩ := entry
    rw [expandChildren, ForwardChildren]
    by_cases hkept : query.maxBranches ≤ kept
    · simpa [hkept] using h
    by_cases hroom : query.maxNodes ≤ g.len
    · simpa [hkept, hroom] using h
    simp only [hkept, hroom, if_false, or_self]
    have hiff := acyclic_connectChild h (child.orParent nodeId) edge
    have hgrow : ∀ (kept : Nat) (frontier : Frontier),
        Acyclic (expandChildren query nodeId depth rest kept
          (g.connectChild (child.orParent nodeId) edge).2 frontier).2.1.Edge →
        Acyclic (g.connectChild (child.orParent nodeId) edge).2.Edge := by
      intro kept frontier hac a hcycle
      refine hac a (hcycle.lift id fun x y hxy => ?_)
      exact expandChildren_induction (P := fun g => g.Edge x y)
        (fun _ child edge _ => edge_connectChild_of_edge child edge) _ _ _ _ _ hxy
    split <;> rename_i heq <;> rw [heq] at hiff hgrow
    · exact ⟨fun hac => ⟨hiff.mp (hgrow _ _ hac), (ih _ _ (hgrow _ _ hac)).mp hac⟩,
        fun hf => (ih _ _ (hiff.mpr hf.1)).mpr hf.2⟩
    · exact ⟨fun hac => ⟨hiff.mp (hgrow _ _ hac), (ih _ _ (hgrow _ _ hac)).mp hac⟩,
        fun hf => (ih _ _ (hiff.mpr hf.1)).mpr hf.2⟩

theorem acyclic_runExpansion {floats : Floats F} (expander : Expander F) (fuel : Nat)
    (calls : List (ExpandCall F)) {g g' : ThoughtGraph F} (frontier : Frontier) {tripped : Bool}
    (h : Acyclic g.Edge)
    (hrun : runExpansion floats query expander fuel calls g frontier = some (tripped, g')) :
    Acyclic g'.Edge ↔ ForwardExpansion floats query expander fuel calls g frontier := by
  induction fuel generalizing calls g frontier with
  | zero => cases hrun
  | succ fuel ih =>
    rw [runExpansion] at hrun
    rw [ForwardExpansion]
    split at hrun
    · rename_i hpop
      cases hrun
      simpa [hpop] using h
    · rename_i nodeId depth rest hpop
      dsimp only
      by_cases hdeep : query.maxDepth ≤ depth
      · simp only [hdeep, if_true] at hrun ⊢
        exact ih calls rest h hrun
      by_cases hroom : query.maxNodes ≤ g.len
      · simp only [hdeep, hroom, if_false, if_true, Option.some.injEq, Prod.mk.injEq] at hrun ⊢
        exact iff_of_true (hrun.2 ▸ h) trivial
      simp only [hdeep, hroom, if_false] at hrun ⊢
      cases hget : g.get nodeId with
      | none =>
        simp only [hget] at hrun ⊢
        exact ih calls rest h hrun
      | some parent =>
        simp only [hget] at hrun ⊢
        have hiff := acyclic_expandChildren query nodeId depth
          (expander (calls ++ [⟨parent, depth, query.maxBranches⟩])) 0 rest h
        rcases hkids : expandChildren query nodeId depth
          (expander (calls ++ [⟨parent, depth, query.maxBranches⟩])) 0 g rest with ⟨full, g₁, rest₁⟩
        rw [hkids] at hrun hiff
        rw [hkids]
        cases full with
        | true =>
          simp only [Option.some.injEq, Prod.mk.injEq] at hrun
          simpa only [and_true, ← hrun.2] using hiff
        | false =>
          dsimp only at hrun hiff ⊢
          have hgrow : Acyclic g'.Edge → Acyclic g₁.Edge := by
            intro hac a hcycle
            refine hac a (hcycle.lift id fun x y hxy => ?_)
            exact runExpansion_induction (P := fun g => g.Edge x y)
              (fun _ child edge _ => edge_connectChild_of_edge child edge)
              expander fuel _ rest₁ hxy hrun
          exact ⟨fun hac => ⟨hiff.mp (hgrow hac), (ih _ _ (hgrow hac) hrun).mp hac⟩,
            fun hf => (ih _ _ (hiff.mpr hf.1) hrun).mpr hf.2⟩

def weight (query : GoTQuery) (depth : Nat) : Nat := (query.maxBranches+1) ^ (query.maxDepth-depth)

def totalWeight (query : GoTQuery) (frontier : Frontier) : Nat :=
  (frontier.map fun entry => weight query entry.2).sum

theorem weight_pos (query : GoTQuery) (depth : Nat) : 0 < weight query depth :=
  Nat.pow_pos (Nat.succ_pos _)

theorem weight_children (query : GoTQuery) {depth : Nat} (h : depth < query.maxDepth) :
    query.maxBranches*weight query (depth+1) < weight query depth := by
  have hpow : weight query depth = (query.maxBranches+1)*weight query (depth+1) := by
    rw [weight, weight, ← Nat.pow_succ']
    congr 1
    omega
  have hpos := weight_pos query (depth+1)
  rw [hpow, Nat.add_mul]
  omega

theorem totalWeight_removeAt {frontier rest : Frontier} {i : Nat} {entry : ThoughtId × Nat}
    (h : frontier.removeAt i = some (entry, rest)) :
    totalWeight query frontier = weight query entry.2 + totalWeight query rest := by
  simp only [Frontier.removeAt, Option.map_eq_some_iff, Prod.mk.injEq] at h
  obtain ⟨found, hfound, rfl, rfl⟩ := h
  obtain ⟨hlt, rfl⟩ := List.getElem?_eq_some_iff.mp hfound
  have hperm := (List.getElem_cons_eraseIdx_perm hlt).map fun entry => weight query entry.2
  rw [totalWeight, ← hperm.sum_nat]
  rfl

theorem totalWeight_popNext (query : GoTQuery) {floats : Floats F} {strategy : GoTStrategy} {frontier rest : Frontier}
    {g : ThoughtGraph F} {entry : ThoughtId × Nat}
    (h : popNext floats strategy frontier g = some (entry, rest)) :
    totalWeight query frontier = weight query entry.2 + totalWeight query rest := by
  cases strategy with
  | breadthFirst => exact totalWeight_removeAt h
  | depthFirst => exact totalWeight_removeAt h
  | bestFirst =>
    simp only [popNext] at h
    split at h
    · cases h
    · exact totalWeight_removeAt h
  | iterative =>
    simp only [popNext] at h
    split at h
    · cases h
    · obtain ⟨i, -, hi⟩ := Option.bind_eq_some_iff.mp h
      exact totalWeight_removeAt hi

theorem totalWeight_expandChildren (query : GoTQuery) (nodeId : ThoughtId) (depth : Nat)
    (children : List (ThoughtNode F × ThoughtEdge)) (kept : Nat) (g : ThoughtGraph F)
    (frontier : Frontier) :
    totalWeight query (expandChildren query nodeId depth children kept g frontier).2.2 ≤
      totalWeight query frontier + (query.maxBranches-kept)*weight query (depth+1) := by
  induction children generalizing kept g frontier with
  | nil => exact Nat.le_add_right _ _
  | cons entry rest ih =>
    obtain ⟨child, edge⟩ := entry
    rw [expandChildren]
    split
    · exact Nat.le_add_right _ _
    rename_i hkept
    split
    · exact Nat.le_add_right _ _
    split
    · exact ih kept _ frontier
    · rename_i id g' _
      refine (ih (kept+1) g' _).trans ?_
      have hpush : totalWeight query (frontier ++ [(id, depth+1)]) =
          totalWeight query frontier + weight query (depth+1) := by
        simp [totalWeight]
      have hroom : query.maxBranches-kept = (query.maxBranches-(kept+1))+1 := by omega
      rw [hpush, hroom, Nat.add_mul]
      omega

theorem runExpansion_ends (floats : Floats F) (expander : Expander F) (fuel : Nat)
    (calls : List (ExpandCall F)) (g : ThoughtGraph F) (frontier : Frontier)
    (h : totalWeight query frontier < fuel) :
    (runExpansion floats query expander fuel calls g frontier).isSome := by
  induction fuel generalizing calls g frontier with
  | zero => cases h
  | succ fuel ih =>
    rw [runExpansion]
    split
    · rfl
    · rename_i nodeId depth rest hpop
      have hweight := totalWeight_popNext query hpop
      have hpos := weight_pos query depth
      dsimp only at hweight
      split
      · exact ih _ _ _ (by omega)
      rename_i hdeep
      split
      · rfl
      split
      · exact ih _ _ _ (by omega)
      · rename_i parent _
        have hkids := totalWeight_expandChildren query nodeId depth
          (expander (calls ++ [⟨parent, depth, query.maxBranches⟩])) 0 g rest
        have hless := weight_children query (Nat.lt_of_not_le hdeep)
        rw [Nat.sub_zero] at hkids
        dsimp only
        split
        · rfl
        · rename_i g₁ rest₁ heq
          rw [heq] at hkids
          dsimp only at hkids
          exact ih _ _ _ (by omega)

theorem expandAll_ends (floats : Floats F) (g : ThoughtGraph F) (plan : GoTPlan) (query : GoTQuery)
    (expander : Expander F) : ∃ fuel, (expandAll floats fuel g plan query expander).isSome :=
  ⟨_, runExpansion_ends floats expander _ [] g _ (Nat.lt_succ_self _)⟩

theorem len_expandAll {floats : Floats F} {fuel : Nat} {g g' : ThoughtGraph F} {plan : GoTPlan}
    {expander : Expander F} {tripped : Bool}
    (h : expandAll floats fuel g plan query expander = some (tripped, g')) :
    g'.len ≤ max query.maxNodes g.len := by
  refine runExpansion_induction (P := fun g' => g'.len ≤ max query.maxNodes g.len) ?_ expander fuel
    [] _ (le_max_right _ _) h
  intro g₁ child edge hroom _
  have hlen := g₁.len_connectChild child edge
  omega

end Expansion

/-- The thoughts along a path of edges from a thought to one without children; the edges are
given by their places among the edges of the thought they start from. -/
inductive ThoughtGraph.LeafPath {F : Type} (g : ThoughtGraph F) :
    ThoughtId → List Nat → List (ThoughtNode F) → Prop where
  | leaf {id : ThoughtId} {node : ThoughtNode F} :
    g.get id = some node → g.childrenOf id = [] → g.LeafPath id [] [node]
  | step {id : ThoughtId} {node : ThoughtNode F} {i : Nat} {kid : ThoughtId × ThoughtEdge}
    {path : List Nat} {nodes : List (ThoughtNode F)} : g.get id = some node →
    (g.childrenOf id)[i]? = some kid → g.LeafPath kid.1 path nodes →
    g.LeafPath id (i :: path) (node :: nodes)

def Listing {F : Type} (keys : List (List Nat)) (paths : List (ScoredPath F))
    (IsPath : List Nat → List (ThoughtNode F) → Prop) (current : List (ThoughtNode F)) : Prop :=
  keys.Nodup ∧ (∀ key, key ∈ keys ↔ ∃ nodes, IsPath key nodes) ∧
    List.Forall₂ (fun key path => ∃ nodes, IsPath key nodes ∧ path.thoughts = current ++ nodes)
      keys paths

def ThoughtGraph.ListsPaths {F : Type} (g : ThoughtGraph F) (paths : List (ScoredPath F)) : Prop :=
  ∃ root keys, evaluateFrom g = some root ∧ Listing keys paths (g.LeafPath root) []

section Evaluation

variable {F : Type} {floats : Floats F} {g : ThoughtGraph F}

theorem foldlM_mono {A B : Type} {f f' : B → A → Option B} {l : List A} {b r : B}
    (h : ∀ b a r, f b a = some r → f' b a = some r) (hr : l.foldlM f b = some r) :
    l.foldlM f' b = some r := by
  induction l generalizing b with
  | nil => exact hr
  | cons a l ih =>
    rw [List.foldlM_cons] at hr ⊢
    obtain ⟨b', hb, hrest⟩ := Option.bind_eq_some_iff.mp hr
    exact Option.bind_eq_some_iff.mpr ⟨b', h b a b' hb, ih hrest⟩

theorem foldlM_isSome {A B : Type} {f : B → A → Option B} {l : List A} (b : B)
    (h : ∀ b, ∀ a ∈ l, (f b a).isSome) : (l.foldlM f b).isSome := by
  induction l generalizing b with
  | nil => rfl
  | cons a l ih =>
    obtain ⟨b', hb⟩ := Option.isSome_iff_exists.mp (h b a List.mem_cons_self)
    rw [List.foldlM_cons, hb]
    exact ih b' fun b a ha => h b a (List.mem_cons_of_mem _ ha)

theorem collectPaths_mono {fuel more : Nat} (hle : fuel ≤ more) {id : ThoughtId}
    {current : List (ThoughtNode F)} {out result : List (ScoredPath F)}
    (h : collectPaths floats g fuel id current out = some result) :
    collectPaths floats g more id current out = some result := by
  induction fuel generalizing more id current out result with
  | zero => cases h
  | succ fuel ih =>
    obtain ⟨more, rfl⟩ : ∃ n, more = n+1 := ⟨more-1, by omega⟩
    rw [collectPaths] at h ⊢
    cases hget : g.get id with
    | none => simpa only [hget] using h
    | some node =>
      simp only [hget] at h ⊢
      split at h
      · rename_i hleaf
        rw [if_pos hleaf]
        exact h
      · rename_i hkids
        rw [if_neg hkids]
        exact foldlM_mono (fun out kid result => ih (by omega)) h

theorem collectPaths_ends (floats : Floats F) {id : ThoughtId} (h : Acc (flip g.Edge) id) :
    ∃ fuel, ∀ current out, (collectPaths floats g fuel id current out).isSome := by
  induction h with
  | intro id _ ih =>
    have hkids : ∀ kids : List (ThoughtId × ThoughtEdge), kids ⊆ g.childrenOf id → ∃ fuel,
        ∀ kid ∈ kids, ∀ current out, (collectPaths floats g fuel kid.1 current out).isSome := by
      intro kids hsub
      induction kids with
      | nil => exact ⟨0, by simp⟩
      | cons kid kids ihk =>
        obtain ⟨hmem, hrest⟩ := List.cons_subset.mp hsub
        obtain ⟨fuel₁, h₁⟩ := ih kid.1 ⟨kid.2, hmem⟩
        obtain ⟨fuel₂, h₂⟩ := ihk hrest
        have hmore : ∀ (fuel : Nat), fuel ≤ max fuel₁ fuel₂ → ∀ (id : ThoughtId) current out,
            (collectPaths floats g fuel id current out).isSome →
              (collectPaths floats g (max fuel₁ fuel₂) id current out).isSome := by
          intro fuel hle id current out hsome
          obtain ⟨result, hresult⟩ := Option.isSome_iff_exists.mp hsome
          rw [collectPaths_mono hle hresult]
          rfl
        refine ⟨max fuel₁ fuel₂, fun kid' hkid' current out => ?_⟩
        obtain rfl | hkid' := List.mem_cons.mp hkid'
        · exact hmore fuel₁ (le_max_left _ _) _ _ _ (h₁ current out)
        · exact hmore fuel₂ (le_max_right _ _) _ _ _ (h₂ kid' hkid' current out)
    obtain ⟨fuel, hfuel⟩ := hkids _ (List.Subset.refl _)
    refine ⟨fuel+1, fun current out => ?_⟩
    rw [collectPaths]
    split
    · rfl
    · dsimp only
      split
      · rfl
      · exact foldlM_isSome out fun out kid hkid => hfuel kid hkid _ out

theorem listing_kids {fuel : Nat} {current : List (ThoughtNode F)}
    (ih : ∀ id out result, collectPaths floats g fuel id current out = some result →
      ∃ keys paths, result = out ++ paths ∧ Listing keys paths (g.LeafPath id) current)
    (kids : List (ThoughtId × ThoughtEdge)) (first : Nat) {out result : List (ScoredPath F)}
    (h : kids.foldlM (fun out kid => collectPaths floats g fuel kid.1 current out) out =
      some result) :
    ∃ keys paths, result = out ++ paths ∧ Listing keys paths (fun key nodes =>
      ∃ i kid path, kids[i]? = some kid ∧ key = (first+i) :: path ∧ g.LeafPath kid.1 path nodes)
        current := by
  induction kids generalizing first out with
  | nil =>
    cases h
    exact ⟨[], [], by simp, List.nodup_nil, by simp, .nil⟩
  | cons kid kids ihk =>
    rw [List.foldlM_cons] at h
    obtain ⟨mid, hmid, hrest⟩ := Option.bind_eq_some_iff.mp h
    obtain ⟨keys₁, paths₁, rfl, hnodup₁, hmem₁, hall₁⟩ := ih kid.1 out mid hmid
    obtain ⟨keys₂, paths₂, rfl, hnodup₂, hmem₂, hall₂⟩ := ihk (first+1) hrest
    refine ⟨keys₁.map (first :: ·) ++ keys₂, paths₁ ++ paths₂, by simp, ?_, fun key => ?_, ?_⟩
    · refine List.Nodup.append (hnodup₁.map fun a b hab => (List.cons.inj hab).2) hnodup₂ ?_
      intro key hkey₁ hkey₂
      obtain ⟨path, -, rfl⟩ := List.mem_map.mp hkey₁
      obtain ⟨nodes, i, kid', path', -, hkey, -⟩ := (hmem₂ _).mp hkey₂
      have hhead := (List.cons.inj hkey).1
      omega
    · simp only [List.mem_append, List.mem_map, hmem₁, hmem₂]
      constructor
      · rintro (⟨path, ⟨nodes, hpath⟩, rfl⟩ | ⟨nodes, i, kid', path, hi, rfl, hpath⟩)
        · exact ⟨nodes, 0, kid, path, rfl, rfl, hpath⟩
        · exact ⟨nodes, i+1, kid', path, hi, by rw [Nat.add_right_comm, Nat.add_assoc], hpath⟩
      · rintro ⟨nodes, i, kid', path, hi, rfl, hpath⟩
        cases i with
        | zero =>
          obtain rfl := Option.some.inj hi
          exact .inl ⟨path, ⟨nodes, hpath⟩, rfl⟩
        | succ i =>
          refine .inr ⟨nodes, i, kid', path, hi, ?_, hpath⟩
          rw [Nat.add_right_comm, Nat.add_assoc]
    · refine List.rel_append ?_ ?_
      · rw [List.forall₂_map_left_iff]
        refine hall₁.imp fun path scored hscored => ?_
        obtain ⟨nodes, hpath, heq⟩ := hscored
        exact ⟨nodes, ⟨0, kid, path, rfl, rfl, hpath⟩, heq⟩
      · refine hall₂.imp fun key scored hscored => ?_
        obtain ⟨nodes, ⟨i, kid', path, hi, rfl, hpath⟩, heq⟩ := hscored
        exact ⟨nodes, ⟨i+1, kid', path, hi, by rw [Nat.add_right_comm, Nat.add_assoc], hpath⟩, heq⟩

theorem listing_collectPaths {fuel : Nat} {id : ThoughtId} {current : List (ThoughtNode F)}
    {out result : List (ScoredPath F)}
    (h : collectPaths floats g fuel id current out = some result) :
    ∃ keys paths, result = out ++ paths ∧ Listing keys paths (g.LeafPath id) current := by
  induction fuel generalizing id current out result with
  | zero => cases h
  | succ fuel ih =>
    rw [collectPaths] at h
    cases hget : g.get id with
    | none =>
      simp only [hget, Option.some.injEq] at h
      refine ⟨[], [], by simp [h], List.nodup_nil, fun key => ?_, .nil⟩
      simp only [List.not_mem_nil, false_iff]
      rintro ⟨nodes, hpath⟩
      cases hpath <;> simp_all
    | some node =>
      simp only [hget] at h
      split at h
      · rename_i hleaf
        have hnone : g.childrenOf id = [] := List.isEmpty_iff.mp hleaf
        cases h
        refine ⟨[[]], [_], rfl, List.nodup_singleton _, fun key => ?_,
          .cons ⟨[node], .leaf hget hnone, rfl⟩ .nil⟩
        rw [List.mem_singleton]
        constructor
        · rintro rfl
          exact ⟨[node], .leaf hget hnone⟩
        · rintro ⟨nodes, hpath⟩
          cases hpath with
          | leaf => rfl
          | step _ hi _ =>
            rw [hnone] at hi
            cases hi
      · obtain ⟨keys, paths, hout, hnodup, hmem, hall⟩ :=
          listing_kids (fun id out result => ih) _ 0 h
        have hiff : ∀ key nodes, (∃ i kid path, (g.childrenOf id)[i]? = some kid ∧
            key = (0+i) :: path ∧ g.LeafPath kid.1 path nodes) ↔
              g.LeafPath id key (node :: nodes) := by
          intro key nodes
          constructor
          · rintro ⟨i, kid, path, hi, rfl, hpath⟩
            rw [Nat.zero_add]
            exact .step hget hi hpath
          · intro hpath
            cases hpath with
            | leaf hnode hnone => simp_all
            | step hnode hi hrest => exact ⟨_, _, _, hi, by rw [Nat.zero_add], hrest⟩
        refine ⟨keys, paths, hout, hnodup, fun key => ?_, hall.imp fun key path hpath => ?_⟩
        · rw [hmem]
          simp only [hiff]
          constructor
          · rintro ⟨nodes, hpath⟩
            exact ⟨_, hpath⟩
          · rintro ⟨nodes, hpath⟩
            cases hpath with
            | leaf hnode hnone => simp_all
            | step hnode hi hrest =>
              obtain rfl := Option.some.inj (hget.symm.trans hnode)
              exact ⟨_, .step hget hi hrest⟩
        · obtain ⟨nodes, hnodes, heq⟩ := hpath
          exact ⟨node :: nodes, (hiff key nodes).mp hnodes, by simp [heq]⟩

theorem Listing.sorted (floats : Floats F) {keys : List (List Nat)} {paths : List (ScoredPath F)}
    {IsPath : List Nat → List (ThoughtNode F) → Prop} {current : List (ThoughtNode F)}
    (h : Listing keys paths IsPath current) : ∃ keys',
      Listing keys' (sortPaths floats (paths.map (ScoredPath.scored floats))) IsPath current := by
  obtain ⟨hnodup, hmem, hall⟩ := h
  have hscored : List.Forall₂ (fun key (path : ScoredPath F) => ∃ nodes, IsPath key nodes ∧
      path.thoughts = current ++ nodes) keys (paths.map (ScoredPath.scored floats)) := by
    rw [List.forall₂_map_right_iff]
    exact hall
  have hcomp : Relation.Comp (List.Forall₂ fun key (path : ScoredPath F) => ∃ nodes,
      IsPath key nodes ∧ path.thoughts = current ++ nodes) List.Perm keys
        (sortPaths floats (paths.map (ScoredPath.scored floats))) :=
    ⟨_, hscored, (List.mergeSort_perm _ _).symm⟩
  rw [List.forall₂_comp_perm_eq_perm_comp_forall₂] at hcomp
  obtain ⟨keys', hperm, hsorted⟩ := hcomp
  refine ⟨keys', hperm.nodup_iff.mp hnodup, fun key => ?_, hsorted⟩
  rw [← hperm.mem_iff, hmem]

theorem evaluate_lists {fuel : Nat} {result : GoTResult F}
    (h : evaluate floats fuel g = some (.ok result)) : g.ListsPaths result.allPaths := by
  rw [evaluate] at h
  split at h
  · cases h
  split at h
  · cases h
  · rename_i root hroot
    obtain ⟨paths, hpaths, hresult⟩ := Option.map_eq_some_iff.mp h
    obtain ⟨keys, listed, rfl, hlisting⟩ := listing_collectPaths hpaths
    obtain ⟨keys', hsorted⟩ := hlisting.sorted floats
    refine ⟨root, keys', hroot, ?_⟩
    rw [← Except.ok.inj hresult]
    exact hsorted

theorem evaluate_ends (hwf : g.Wf) (hac : Acyclic g.Edge) (hne : g.isEmpty = false) :
    ∃ fuel result, evaluate floats fuel g = some (.ok result) := by
  have hroot : ∃ root, evaluateFrom g = some root := by
    cases hr : g.root with
    | some root => exact ⟨root, by simp [evaluateFrom, hr]⟩
    | none =>
      obtain ⟨id, hid⟩ : ∃ id, id ∈ g.nodes.keys := by
        rw [isEmpty, List.isEmpty_eq_false_iff_exists_mem] at hne
        exact hne
      have horder : id ∈ g.order := by
        refine hwf.order id ?_
        rw [ThoughtGraph.get, AList.lookup_isSome]
        exact AList.mem_keys.mpr hid
      cases ho : g.order with
      | nil =>
        rw [ho] at horder
        cases horder
      | cons first rest => exact ⟨first, by simp [evaluateFrom, hr, ho]⟩
  obtain ⟨root, hroot⟩ := hroot
  have hacc : Acc (flip g.Edge) root := by
    refine hac.acc g.nodes.keys (fun a b hab => ?_) root
    have hget := (hwf.ends a b hab).1
    rw [ThoughtGraph.get, AList.lookup_isSome] at hget
    exact AList.mem_keys.mp hget
  obtain ⟨fuel, hfuel⟩ := collectPaths_ends floats hacc
  obtain ⟨paths, hpaths⟩ := Option.isSome_iff_exists.mp (hfuel [] [])
  exact ⟨fuel, _, by simp only [evaluate, hne, hroot, hpaths]; rfl⟩

theorem collectPaths_diverges (floats : Floats F) {inside : ThoughtId → Prop}
    (h : ∀ id, inside id → (g.get id).isSome ∧
      ∃ kid rest, g.childrenOf id = kid :: rest ∧ inside kid.1)
    (fuel : Nat) {id : ThoughtId} (hid : inside id) (current : List (ThoughtNode F))
    (out : List (ScoredPath F)) : collectPaths floats g fuel id current out = none := by
  induction fuel generalizing id current out with
  | zero => rfl
  | succ fuel ih =>
    obtain ⟨hget, kid, rest, hkids, hkid⟩ := h id hid
    obtain ⟨node, hnode⟩ := Option.isSome_iff_exists.mp hget
    simp [collectPaths, hnode, hkids, List.foldlM_cons, ih hkid]

end Evaluation

variable {F : Type}

theorem wf_next {floats : Floats F} {g : ThoughtGraph F} (h : g.Wf) (build : Build F) :
    (build.next floats g).Wf := by
  cases build with
  | add thought => exact h.add thought
  | setRoot id => exact ⟨h.ends, h.order⟩
  | connectChild child edge => exact h.connectChild child edge
  | expandAll fuel plan query expander =>
    simp only [Build.next]
    cases hrun : expandAll floats fuel g plan query expander with
    | none => exact h
    | some result =>
      exact runExpansion_induction (fun g child edge _ hg => hg.connectChild child edge)
        expander fuel [] _ h hrun

theorem acyclic_next {floats : Floats F} {g : ThoughtGraph F} (h : Acyclic g.Edge) {build : Build F}
    (hg : build.guard floats g) : Acyclic (build.next floats g).Edge ↔ build.Forward floats g := by
  cases build with
  | add thought =>
    exact iff_of_true ((Acyclic.congr (g.edge_add thought)).mpr h) trivial
  | setRoot id => exact iff_of_true h trivial
  | connectChild child edge => exact acyclic_connectChild h child edge
  | expandAll fuel plan query expander =>
    obtain ⟨⟨tripped, g'⟩, hrun⟩ := Option.isSome_iff_exists.mp hg
    simp only [Build.next, hrun]
    exact acyclic_runExpansion expander fuel [] _ h hrun

theorem built_of_reachable {floats : Floats F} {g : ThoughtGraph F}
    (h : ((system floats).restrict (Build.Forward floats)).Reachable g) :
    g.Wf ∧ Acyclic g.Edge := by
  refine h.invariant (fun g : ThoughtGraph F => g.Wf ∧ Acyclic g.Edge) ?_ ?_
  · rintro g rfl
    have hnone : ∀ a b, ¬(empty : ThoughtGraph F).Edge a b := by
      rintro a b ⟨edge, hmem⟩
      cases hmem
    refine ⟨⟨fun a b hab => absurd hab (hnone a b), fun id hid => ?_⟩, fun a ha => ?_⟩
    · cases hid
    · obtain ⟨b, -, hb⟩ := Relation.TransGen.tail'_iff.mp ha
      exact hnone b a hb
  · rintro g build g' - ⟨hwf, hac⟩ ⟨⟨hguard, rfl⟩, hforward⟩
    exact ⟨wf_next hwf build, (acyclic_next hac hguard).mpr hforward⟩

def exactScore (path : List (ThoughtNode ℚ)) : ℚ :=
  if path.isEmpty then 0
  else
    let score := (path.map (·.confidence)).sum/path.length*(19/20) ^ (path.length-1)
    if path.getLast?.any fun t => t.thoughtType = .conclusion then min (score+1/10) 1 else score

def exact : Floats ℚ := ⟨0, -1, fun a b => some (compare a b), exactScore⟩

def sampleThought (id : ThoughtId) (confidence : ℚ) (parentIds : List ThoughtId) : ThoughtNode ℚ :=
  ⟨id, "", .hypothesis, confidence, parentIds, 0, 0⟩

def sampleBuild (builds : List (Build ℚ)) : ThoughtGraph ℚ :=
  builds.foldl (Build.next exact) .empty

def sampleBuilds : List (Build ℚ) :=
  [.add (sampleThought 1 1 []), .setRoot 1, .connectChild (sampleThought 2 (9/10) [1]) .derives]

def loopBuilds : List (Build ℚ) := sampleBuilds ++ [.connectChild (sampleThought 1 1 [2]) .refines]

end Knowledge.GraphOfThought
