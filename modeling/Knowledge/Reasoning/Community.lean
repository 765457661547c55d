import Knowledge.Lib.UnionFind
import Knowledge.Concept.Graph
import Knowledge.Evidence.Rotation
import Mathlib.Data.Finset.Sort

/-!
`crates/reasoning_engine/src/community.rs`, first half: the communities of a concept graph and the
hierarchy above them. A `BTreeSet` is a `Finset`, read in the order of its ids; an id that the code
draws is the next of a sequence.
-/

set_option autoImplicit false

namespace Knowledge.Reasoning
open Knowledge.Sync (Uuid uuidText)
open Knowledge.Memory (ScopeId)
open Knowledge.Concept (NodeId Adjacency ConceptNode ConceptEdge ConceptGraph RelationType)

abbrev CommunityId := Uuid

def uuidLe (a b : Uuid) : Prop := a.toNat ≤ b.toNat

instance : DecidableRel uuidLe := fun a b => inferInstanceAs (Decidable (a.toNat ≤ b.toNat))

instance : IsTrans Uuid uuidLe := ⟨fun _ _ _ => Nat.le_trans⟩

instance : Std.Antisymm uuidLe := ⟨fun _ _ h h' => BitVec.eq_of_toNat_eq (Nat.le_antisymm h h')⟩

instance : Std.Total uuidLe := ⟨fun a b => Nat.le_total a.toNat b.toNat⟩

structure Community where
  id : CommunityId
  level : Nat
  memberNodeIds : Finset NodeId
  scopeIds : Finset ScopeId
  label : String
  childIds : List CommunityId

namespace Community

def leaf (id : CommunityId) (memberNodeIds : Finset NodeId) (scopeIds : Finset ScopeId) :
    Community where
  id := id
  level := 0
  memberNodeIds := memberNodeIds
  scopeIds := scopeIds
  label := "community-" ++ (uuidText id).take 8
  childIds := []

def withLabel (c : Community) (label : String) : Community := { c with label }

end Community

structure CommunityDetector where
  scopes : List ScopeId
  relationTypes : List RelationType

structure Subgraph where
  included : Finset NodeId
  nodeLabel : Table NodeId String
  nodeScope : Table NodeId ScopeId
  adj : Table NodeId (List NodeId)

namespace CommunityDetector

def new : CommunityDetector := ⟨[], []⟩

def includeNode (det : CommunityDetector) (sg : Subgraph) (node : ConceptNode) : Subgraph :=
  if node.state ≠ .canonical then sg
  else if ¬det.scopes.isEmpty ∧ node.scopeId ∉ det.scopes then sg
  else
    { included := insert node.id sg.included
      nodeLabel := sg.nodeLabel.insert node.id node.label
      nodeScope := sg.nodeScope.insert node.id node.scopeId
      adj := Adjacency.orDefault sg.adj node.id }

def connect (det : CommunityDetector) (sg : Subgraph) (edge : ConceptEdge) : Subgraph :=
  if ¬det.relationTypes.isEmpty ∧ edge.relation ∉ det.relationTypes then sg
  else if edge.fromNode ∉ sg.included ∨ edge.toNode ∉ sg.included then sg
  else
    { sg with
      adj := Adjacency.push (Adjacency.push sg.adj edge.fromNode edge.toNode) edge.toNode
        edge.fromNode }

def subgraph (det : CommunityDetector) (g : ConceptGraph) : Subgraph :=
  (g.edges.rows.map Prod.snd).foldl det.connect
    ((g.nodes.rows.map Prod.snd).foldl det.includeNode ⟨∅, ∅, ∅, ∅⟩)

end CommunityDetector

/-- What one breadth-first sweep has seen; `visited` is shared by all of them. -/
structure Sweep where
  visited : Finset NodeId
  members : Finset NodeId
  scopes : Finset ScopeId

namespace Subgraph

def visit (sg : Subgraph) (s : Sweep) (n : NodeId) : Sweep where
  visited := insert n s.visited
  members := insert n s.members
  scopes := match sg.nodeScope.lookup n with
    | some scope => insert scope s.scopes
    | none => s.scopes

def unvisited (visited : Finset NodeId) : List (NodeId × List NodeId) → Nat
  | [] => 0
  | e :: adj => (if e.1 ∈ visited then 0 else e.2.length + 1) + unvisited visited adj

theorem unvisited_insert_le (visited : Finset NodeId) (n : NodeId)
    (adj : List (NodeId × List NodeId)) :
    unvisited (insert n visited) adj ≤ unvisited visited adj := by
  induction adj with
  | nil => simp [unvisited]
  | cons e adj ih =>
    simp only [unvisited, Finset.mem_insert]
    by_cases hseen : e.1 ∈ visited
    · simpa [hseen] using ih
    · by_cases hn : e.1 = n
      · simp only [hn, true_or, if_true]
        omega
      · simp only [hn, hseen, or_self, if_false]
        omega

theorem unvisited_insert_lt {visited : Finset NodeId} {n : NodeId} {l : List NodeId}
    {adj : List (NodeId × List NodeId)} (hmem : (n, l) ∈ adj) (hn : n ∉ visited) :
    unvisited (insert n visited) adj + l.length < unvisited visited adj := by
  induction adj with
  | nil => simp at hmem
  | cons e adj ih =>
    simp only [unvisited, Finset.mem_insert]
    rcases List.mem_cons.mp hmem with heq | hmem
    · have hle := unvisited_insert_le visited n adj
      subst heq
      simp only [true_or, if_true, hn, if_false]
      omega
    · have hlt := ih hmem
      by_cases he : e.1 = n
      · simp only [he, true_or, if_true]
        omega
      · by_cases hseen : e.1 ∈ visited
        · simp only [hseen, or_true, if_true]
          omega
        · simp only [he, hseen, or_self, if_false]
          omega

def explore (sg : Subgraph) (s : Sweep) : List NodeId → Sweep
  | [] => s
  | n :: frontier =>
    if n ∈ s.visited then explore sg s frontier
    else
      explore sg (sg.visit s n)
        (frontier ++ ((sg.adj.lookup n).getD []).filter fun m => m ∉ (sg.visit s n).visited)
termination_by frontier => frontier.length + unvisited s.visited sg.adj.rows
decreasing_by
  · simp
  · rename_i hn
    simp only [visit, List.length_append, List.length_cons]
    cases hadj : sg.adj.lookup n with
    | none =>
      have hle := unvisited_insert_le s.visited n sg.adj.rows
      simp only [Option.getD_none, List.filter_nil, List.length_nil]
      omega
    | some l =>
      have hlt := unvisited_insert_lt (Table.mem_rows_iff.mpr hadj) hn
      refine Nat.lt_of_le_of_lt (Nat.add_le_add_right (Nat.add_le_add_left
        (List.length_filter_le _ _) _) _) ?_
      simp only [Option.getD_some]
      omega

def components (sg : Subgraph) (draw : Nat → CommunityId) :
    List NodeId → Finset NodeId → Nat → List Community
  | [], _, _ => []
  | start :: rest, visited, drawn =>
    if start ∈ visited then components sg draw rest visited drawn
    else
      let s := sg.explore ⟨visited, ∅, ∅⟩ [start]
      if s.members = ∅ then components sg draw rest s.visited drawn
      else
        let community := Community.leaf (draw drawn) s.members s.scopes
        let label := (s.members.sort uuidLe).findSome? sg.nodeLabel.lookup
        community.withLabel (label.getD community.label) ::
          components sg draw rest s.visited (drawn+1)

end Subgraph

def firstLe (a b : Option NodeId) : Bool :=
  match a, b with
  | none, _ => true
  | some _, none => false
  | some a, some b => decide (uuidLe a b)

def CommunityDetector.detect (det : CommunityDetector) (draw : Nat → CommunityId)
    (g : ConceptGraph) : List Community :=
  let sg := det.subgraph g
  (sg.components draw (sg.included.sort uuidLe) ∅ 0).mergeSort fun a b =>
    firstLe (a.memberNodeIds.sort uuidLe).head? (b.memberNodeIds.sort uuidLe).head?

structure CommunityHierarchy where
  communities : Table CommunityId Community
  levels : List (List CommunityId)

namespace CommunityHierarchy

def overlap (a b : Community) : Bool := decide (∃ s ∈ a.scopeIds, s ∈ b.scopeIds)

def overlapForest (current : List Community) : Forest current.length :=
  ((List.finRange current.length).flatMap fun i =>
      ((List.finRange current.length).filter fun j => i < j).map fun j => (i, j)).foldl
    (fun F e => if overlap (current.get e.1) (current.get e.2) then F.union e.1 e.2 else F)
    (Forest.discrete current.length)

def rooted {n : Nat} (F : Forest n) : List (Fin n) → List (Fin n × Fin n)
  | [] => []
  | i :: rest => ((F.find i).2, i) :: rooted (F.find i).1 rest

def groups (current : List Community) : List (List Community) :=
  let roots := rooted (overlapForest current) (List.finRange current.length)
  ((roots.map Prod.fst).dedup.mergeSort fun a b => a ≤ b).map fun root =>
    (roots.filter fun e => e.1 = root).map fun e => current.get e.2

def merge (id : CommunityId) (level : Nat) (group : List Community) : Community :=
  let label := group.foldl (fun label c => if label.isEmpty then c.label else label) ""
  let members := group.foldl (fun members c => members ∪ c.memberNodeIds) ∅
  let scopes := group.foldl (fun scopes c => scopes ∪ c.scopeIds) ∅
  { Community.leaf id members scopes with
    label
    level
    childIds := group.map Community.id }

def insertAll (communities : Table CommunityId Community) (cs : List Community) :
    Table CommunityId Community :=
  cs.foldl (fun communities c => communities.insert c.id c) communities

theorem length_rooted {n : Nat} (F : Forest n) (l : List (Fin n)) :
    (rooted F l).length = l.length := by
  induction l generalizing F with
  | nil => rfl
  | cons i rest ih => simp [rooted, ih]

theorem length_groups_le (current : List Community) :
    (groups current).length ≤ current.length := by
  simp only [groups, List.length_map, List.length_mergeSort]
  refine (List.dedup_sublist _).length_le.trans ?_
  simp [length_rooted]

def present (communities : Table CommunityId Community) (ids : List CommunityId) :
    List Community :=
  ids.filterMap communities.lookup

def parents (draw : Nat → CommunityId) (drawn level : Nat) (current : List Community) :
    List Community :=
  (groups current).mapIdx fun k group => merge (draw (drawn + k)) level group

/-- The loop over the levels, `below` those under `last`. -/
def mergeLevels (draw : Nat → CommunityId) (drawn : Nat)
    (communities : Table CommunityId Community) (below : List (List CommunityId))
    (last : List CommunityId) : CommunityHierarchy :=
  let current := present communities last
  if current.length ≤ 1 then ⟨communities, below ++ [last]⟩
  else if (groups current).length = current.length then ⟨communities, below ++ [last]⟩
  else
    let next := parents draw drawn (below.length + 1) current
    mergeLevels draw (drawn + next.length) (insertAll communities next) (below ++ [last])
      (next.map Community.id)
termination_by last.length
decreasing_by
  rename_i hmerged
  have hle := length_groups_le (present communities last)
  have hcurrent : (present communities last).length ≤ last.length := List.length_filterMap_le _ _
  have hfewer : (groups (present communities last)).length ≠ (present communities last).length :=
    hmerged
  simp only [List.length_map, parents, List.length_mapIdx]
  omega

def build (draw : Nat → CommunityId) (leaves : List Community) : CommunityHierarchy :=
  mergeLevels draw 0 (insertAll ∅ leaves) [] (leaves.map Community.id)

theorem build_singleton (draw : Nat → CommunityId) (c : Community) :
    (build draw [c]).communities = (∅ : Table CommunityId Community).insert c.id c := by
  have hone : (present (insertAll ∅ [c]) ([c].map Community.id)).length ≤ 1 :=
    List.length_filterMap_le _ _
  rw [build, mergeLevels, if_pos hone]
  rfl

end CommunityHierarchy

section Soundness

def Keyed (g : ConceptGraph) : Prop := ∀ id node, g.nodes.lookup id = some node → node.id = id

/-- The scopes of a community are those of the nodes it names, which the graph has. -/
structure Sound (g : ConceptGraph) (c : Community) : Prop where
  members : ∀ m ∈ c.memberNodeIds, ∃ node, g.nodes.lookup m = some node ∧ node.scopeId ∈ c.scopeIds
  scopes : ∀ s ∈ c.scopeIds, ∃ m ∈ c.memberNodeIds, ∃ node, g.nodes.lookup m = some node ∧
    node.scopeId = s

structure Subgraph.Within (g : ConceptGraph) (sg : Subgraph) : Prop where
  included : ∀ m ∈ sg.included, ∃ node, g.nodes.lookup m = some node ∧
    sg.nodeScope.lookup m = some node.scopeId
  adj : ∀ k l, sg.adj.lookup k = some l → ∀ m ∈ l, m ∈ sg.included

variable {g : ConceptGraph} {det : CommunityDetector} {sg : Subgraph}

theorem Subgraph.Within.includeNode (h : sg.Within g) {node : ConceptNode}
    (hnode : g.nodes.lookup node.id = some node) : (det.includeNode sg node).Within g := by
  unfold CommunityDetector.includeNode
  split_ifs
  · exact h
  · exact h
  · refine ⟨fun m hm => ?_, fun k l hl m hm => ?_⟩
    · by_cases heq : m = node.id
      · exact ⟨node, heq ▸ hnode, by simp [heq, Table.lookup_insert_ite]⟩
      · obtain ⟨n, hn, hscope⟩ := h.included m (Finset.mem_of_mem_insert_of_ne hm heq)
        exact ⟨n, hn, by simp [heq, hscope]⟩
    · refine Finset.mem_insert_of_mem ?_
      simp only [Adjacency.lookup_orDefault] at hl
      split at hl
      · cases hadj : sg.adj.lookup node.id with
        | none => simp_all
        | some l' =>
          simp only [hadj, Option.getD_some, Option.some.injEq] at hl
          exact h.adj node.id l' hadj m (hl ▸ hm)
      · exact h.adj k l hl m hm

theorem push_within {adj : Table NodeId (List NodeId)} {included : Finset NodeId}
    (h : ∀ k l, adj.lookup k = some l → ∀ m ∈ l, m ∈ included) (n : NodeId) {m : NodeId}
    (hm : m ∈ included) (k : NodeId) (l : List NodeId)
    (hl : (Adjacency.push adj n m).lookup k = some l) : ∀ x ∈ l, x ∈ included := by
  rw [Adjacency.lookup_push] at hl
  split at hl
  · rw [← Option.some.inj hl]
    intro x hx
    rcases List.mem_append.mp hx with hx | hx
    · cases hadj : adj.lookup n with
      | none => simp [hadj] at hx
      | some l' => exact h n l' hadj x (by simpa [hadj] using hx)
    · rw [List.mem_singleton.mp hx]
      exact hm
  · exact h k l hl

theorem Subgraph.Within.connect (h : sg.Within g) (edge : ConceptEdge) :
    (det.connect sg edge).Within g := by
  unfold CommunityDetector.connect
  split_ifs with _ hends
  · exact h
  · exact h
  · obtain ⟨hfrom, hto⟩ : edge.fromNode ∈ sg.included ∧ edge.toNode ∈ sg.included := by
      simpa [not_or] using hends
    exact ⟨h.included, push_within (push_within h.adj _ hto) _ hfrom⟩

theorem subgraph_within (hg : Keyed g) (det : CommunityDetector) : (det.subgraph g).Within g := by
  have hnodes : ∀ node ∈ g.nodes.rows.map Prod.snd, g.nodes.lookup node.id = some node := by
    intro node hnode
    obtain ⟨⟨id, _⟩, hrow, rfl⟩ := List.mem_map.mp hnode
    have hlookup := Table.mem_rows_iff.mp hrow
    rw [hg id _ hlookup]
    exact hlookup
  have hinclude : ((g.nodes.rows.map Prod.snd).foldl det.includeNode ⟨∅, ∅, ∅, ∅⟩).Within g := by
    refine List.foldlRecOn _ _ ⟨?_, ?_⟩ fun sg h node hnode => h.includeNode (hnodes node hnode)
    · simp
    · simp
  exact List.foldlRecOn _ _ hinclude fun sg h edge _ => h.connect edge

structure Sweep.Described (sg : Subgraph) (s : Sweep) : Prop where
  members : ∀ m ∈ s.members, m ∈ sg.included ∧ ∃ scope ∈ s.scopes, sg.nodeScope.lookup m = some scope
  scopes : ∀ scope ∈ s.scopes, ∃ m ∈ s.members, sg.nodeScope.lookup m = some scope

theorem Sweep.Described.visit {s : Sweep} (h : s.Described sg) (hsg : sg.Within g) {n : NodeId}
    (hn : n ∈ sg.included) : (sg.visit s n).Described sg := by
  obtain ⟨node, -, hscope⟩ := hsg.included n hn
  simp only [Subgraph.visit, hscope]
  refine ⟨fun m hm => ?_, fun scope hs => ?_⟩
  · rcases Finset.mem_insert.mp hm with rfl | hm
    · exact ⟨hn, node.scopeId, Finset.mem_insert_self _ _, hscope⟩
    · obtain ⟨hin, scope, hs, hm⟩ := h.members m hm
      exact ⟨hin, scope, Finset.mem_insert_of_mem hs, hm⟩
  · rcases Finset.mem_insert.mp hs with rfl | hs
    · exact ⟨n, Finset.mem_insert_self _ _, hscope⟩
    · obtain ⟨m, hm, hs⟩ := h.scopes scope hs
      exact ⟨m, Finset.mem_insert_of_mem hm, hs⟩

theorem explore_described (hsg : sg.Within g) {s : Sweep} {frontier : List NodeId}
    (h : s.Described sg) (hfrontier : ∀ n ∈ frontier, n ∈ sg.included) :
    (sg.explore s frontier).Described sg := by
  fun_induction Subgraph.explore sg s frontier with
  | case1 s => exact h
  | case2 s n frontier hseen ih =>
    exact ih h fun m hm => hfrontier m (List.mem_cons_of_mem _ hm)
  | case3 s n frontier hseen ih =>
    refine ih (h.visit hsg (hfrontier n List.mem_cons_self)) fun m hm => ?_
    rcases List.mem_append.mp hm with hm | hm
    · exact hfrontier m (List.mem_cons_of_mem _ hm)
    · have hm := (List.mem_filter.mp hm).1
      cases hadj : sg.adj.lookup n with
      | none => simp [hadj] at hm
      | some l => exact hsg.adj n l hadj m (by simpa [hadj] using hm)

theorem Sweep.Described.sound {s : Sweep} (h : s.Described sg) (hsg : sg.Within g)
    {c : Community} (hmembers : c.memberNodeIds = s.members) (hscopes : c.scopeIds = s.scopes) :
    Sound g c := by
  refine ⟨fun m hm => ?_, fun scope hs => ?_⟩
  · obtain ⟨hin, scope, hs, hscope⟩ := h.members m (hmembers ▸ hm)
    obtain ⟨node, hnode, hnodeScope⟩ := hsg.included m hin
    have heq : scope = node.scopeId := Option.some.inj (hscope.symm.trans hnodeScope)
    exact ⟨node, hnode, hscopes ▸ heq ▸ hs⟩
  · obtain ⟨m, hm, hscope⟩ := h.scopes scope (hscopes ▸ hs)
    obtain ⟨node, hnode, hnodeScope⟩ := hsg.included m (h.members m hm).1
    have heq : scope = node.scopeId := Option.some.inj (hscope.symm.trans hnodeScope)
    exact ⟨m, hmembers ▸ hm, node, hnode, heq.symm⟩

theorem components_sound (hsg : sg.Within g) (draw : Nat → CommunityId) (l : List NodeId)
    (visited : Finset NodeId) (drawn : Nat) (hl : ∀ n ∈ l, n ∈ sg.included) :
    ∀ c ∈ sg.components draw l visited drawn, Sound g c := by
  induction l generalizing visited drawn with
  | nil => simp [Subgraph.components]
  | cons start rest ih =>
    have hrest : ∀ n ∈ rest, n ∈ sg.included := fun n hn => hl n (List.mem_cons_of_mem _ hn)
    have hempty : (⟨visited, ∅, ∅⟩ : Sweep).Described sg := ⟨by simp, by simp⟩
    have hswept : (sg.explore ⟨visited, ∅, ∅⟩ [start]).Described sg :=
      explore_described hsg hempty (by simpa using hl start List.mem_cons_self)
    unfold Subgraph.components
    simp only
    split_ifs
    · exact ih visited drawn hrest
    · exact ih _ drawn hrest
    · intro c hc
      rcases List.mem_cons.mp hc with rfl | hc
      · exact hswept.sound hsg rfl rfl
      · exact ih _ (drawn+1) hrest c hc

theorem detect_sound (hg : Keyed g) (det : CommunityDetector) (draw : Nat → CommunityId) :
    ∀ c ∈ det.detect draw g, Sound g c := by
  intro c hc
  refine components_sound (subgraph_within hg det) draw _ ∅ 0 (fun n hn => ?_) c
    (List.mem_mergeSort.mp hc)
  exact (Finset.mem_sort _).mp hn

theorem mem_foldl_union {α β : Type} [DecidableEq β] (f : α → Finset β) (l : List α)
    (acc : Finset β) (x : β) :
    x ∈ l.foldl (fun acc a => acc ∪ f a) acc ↔ x ∈ acc ∨ ∃ a ∈ l, x ∈ f a := by
  induction l generalizing acc with
  | nil => simp
  | cons a l ih => simp [ih, or_assoc]

namespace CommunityHierarchy

theorem merge_sound {group : List Community} (h : ∀ c ∈ group, Sound g c) (id : CommunityId)
    (level : Nat) : Sound g (merge id level group) := by
  refine ⟨fun m hm => ?_, fun s hs => ?_⟩
  · simp only [merge, Community.leaf, mem_foldl_union] at hm ⊢
    obtain hm | ⟨c, hc, hm⟩ := hm
    · simp at hm
    · obtain ⟨node, hnode, hscope⟩ := (h c hc).members m hm
      exact ⟨node, hnode, .inr ⟨c, hc, hscope⟩⟩
  · simp only [merge, Community.leaf, mem_foldl_union] at hs ⊢
    obtain hs | ⟨c, hc, hs⟩ := hs
    · simp at hs
    · obtain ⟨m, hm, node, hnode, heq⟩ := (h c hc).scopes s hs
      exact ⟨m, .inr ⟨c, hc, hm⟩, node, hnode, heq⟩

theorem mem_of_mem_groups {current group : List Community} (hgroup : group ∈ groups current)
    {c : Community} (hc : c ∈ group) : c ∈ current := by
  rw [groups, List.mem_map] at hgroup
  obtain ⟨root, -, rfl⟩ := hgroup
  obtain ⟨e, -, rfl⟩ := List.mem_map.mp hc
  exact List.get_mem _ _

theorem parents_sound {current : List Community} (h : ∀ c ∈ current, Sound g c)
    (draw : Nat → CommunityId) (drawn level : Nat) :
    ∀ c ∈ parents draw drawn level current, Sound g c := by
  intro c hc
  obtain ⟨k, hk, rfl⟩ := List.mem_mapIdx.mp hc
  exact merge_sound (fun c hc => h c (mem_of_mem_groups (List.getElem_mem hk) hc)) _ _

def AllSound (g : ConceptGraph) (communities : Table CommunityId Community) : Prop :=
  ∀ id c, communities.lookup id = some c → c.id = id ∧ Sound g c

theorem AllSound.insertAll {communities : Table CommunityId Community}
    (h : AllSound g communities) {cs : List Community} (hcs : ∀ c ∈ cs, Sound g c) :
    AllSound g (insertAll communities cs) := by
  refine List.foldlRecOn _ _ h fun communities h c hc id c' hlookup => ?_
  rw [Table.lookup_insert_ite] at hlookup
  split at hlookup
  · rename_i hid
    rw [← Option.some.inj hlookup]
    exact ⟨hid.symm, hcs c hc⟩
  · exact h id c' hlookup

theorem mergeLevels_sound (draw : Nat → CommunityId) (drawn : Nat)
    (communities : Table CommunityId Community) (below : List (List CommunityId))
    (last : List CommunityId) (h : AllSound g communities) :
    AllSound g (mergeLevels draw drawn communities below last).communities := by
  fun_induction mergeLevels draw drawn communities below last with
  | case1 => exact h
  | case2 => exact h
  | case3 drawn communities below last current hmany hmerged next ih =>
    refine ih (h.insertAll (parents_sound (fun c hc => ?_) draw drawn _))
    obtain ⟨id, -, hid⟩ := List.mem_filterMap.mp hc
    exact (h id c hid).2

theorem build_sound (hg : Keyed g) (det : CommunityDetector) (drawLeaf draw : Nat → CommunityId) :
    AllSound g (build draw (det.detect drawLeaf g)).communities := by
  have hnone : AllSound g ∅ := fun _ _ h => by simp at h
  exact mergeLevels_sound _ _ _ _ _ (hnone.insertAll (detect_sound hg det drawLeaf))

end CommunityHierarchy

end Soundness

end Knowledge.Reasoning
