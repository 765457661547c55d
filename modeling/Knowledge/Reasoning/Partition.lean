import Knowledge.Reasoning.Community

/-!
The communities of a concept graph are its connected components, and the hierarchy above them
merges those whose scopes meet, however long the chain of communities between them.
-/

set_option autoImplicit false

namespace Knowledge.Reasoning
open Relation (EqvGen ReflTransGen SymmGen)
open Knowledge.Sync (Uuid)
open Knowledge.Memory (ScopeId)
open Knowledge.Concept (NodeId Adjacency ConceptNode ConceptEdge ConceptGraph)

section Detection

namespace CommunityDetector

section

variable (det : CommunityDetector)

def Admits (node : ConceptNode) : Prop :=
  node.state = .canonical ∧ (det.scopes = [] ∨ node.scopeId ∈ det.scopes)

/-- The id of a canonical node within the scopes that the detector looks at. -/
def Includes (g : ConceptGraph) (n : NodeId) : Prop :=
  ∃ key node, g.nodes.lookup key = some node ∧ node.id = n ∧ det.Admits node

def Follows (edge : ConceptEdge) : Prop :=
  det.relationTypes = [] ∨ edge.relation ∈ det.relationTypes

def Linked (g : ConceptGraph) (m n : NodeId) : Prop :=
  det.Includes g m ∧ det.Includes g n ∧
    ∃ key edge, g.edges.lookup key = some edge ∧ det.Follows edge ∧
      edge.fromNode = m ∧ edge.toNode = n

def Connected (g : ConceptGraph) : NodeId → NodeId → Prop :=
  EqvGen (det.Linked g)

end

end CommunityDetector

namespace Subgraph

def neighbours (sg : Subgraph) (n : NodeId) : List NodeId := (sg.adj.lookup n).getD []

def Reach (sg : Subgraph) : NodeId → NodeId → Prop :=
  ReflTransGen fun m n => n ∈ sg.neighbours m

end Subgraph

theorem mem_getD_orDefault (adj : Adjacency) (n m k : NodeId) :
    k ∈ ((adj.orDefault n).lookup m).getD [] ↔ k ∈ (adj.lookup m).getD [] := by
  rw [Adjacency.lookup_orDefault]
  by_cases h : m = n
  · subst h
    simp
  · simp [h]

theorem mem_getD_push (adj : Adjacency) (n m k e : NodeId) :
    k ∈ ((adj.push n e).lookup m).getD [] ↔ k ∈ (adj.lookup m).getD [] ∨ m = n ∧ k = e := by
  rw [Adjacency.lookup_push]
  by_cases h : m = n
  · subst h
    simp
  · simp [h]

theorem foldl_iff {σ α : Type} {f : σ → α → σ} (P : σ → Prop) (Q : α → Prop) (I : σ → Prop)
    (hkeep : ∀ s a, I s → I (f s a)) (hstep : ∀ s a, I s → (P (f s a) ↔ P s ∨ Q a))
    (l : List α) (s : σ) (h : I s) : P (l.foldl f s) ↔ P s ∨ ∃ a ∈ l, Q a := by
  induction l generalizing s with
  | nil => simp
  | cons a l ih => simp [ih (f s a) (hkeep s a h), hstep s a h, or_assoc]

variable {det : CommunityDetector} {g : ConceptGraph} {sg : Subgraph}

theorem mem_includeNode (node : ConceptNode) (n : NodeId) :
    n ∈ (det.includeNode sg node).included ↔
      n ∈ sg.included ∨ det.Admits node ∧ node.id = n := by
  unfold CommunityDetector.includeNode CommunityDetector.Admits
  split_ifs with hstate hscope
  · simp [hstate]
  · simp_all
  · simp only [Finset.mem_insert]
    simp_all
    grind

theorem neighbours_includeNode (node : ConceptNode) (m n : NodeId) :
    n ∈ (det.includeNode sg node).neighbours m ↔ n ∈ sg.neighbours m := by
  unfold CommunityDetector.includeNode
  split_ifs
  · rfl
  · rfl
  · exact mem_getD_orDefault _ _ _ _

theorem included_connect (edge : ConceptEdge) : (det.connect sg edge).included = sg.included := by
  unfold CommunityDetector.connect
  split_ifs
  · rfl
  · rfl
  · rfl

theorem mem_neighbours_connect (edge : ConceptEdge) (m n : NodeId) :
    n ∈ (det.connect sg edge).neighbours m ↔ n ∈ sg.neighbours m ∨
      det.Follows edge ∧ edge.fromNode ∈ sg.included ∧ edge.toNode ∈ sg.included ∧
        (edge.fromNode = m ∧ edge.toNode = n ∨ edge.fromNode = n ∧ edge.toNode = m) := by
  unfold CommunityDetector.connect CommunityDetector.Follows
  split_ifs with hrel hends
  · simp_all
  · grind
  · simp only [Subgraph.neighbours, mem_getD_push]
    simp_all
    grind

theorem subgraph_spec (det : CommunityDetector) (g : ConceptGraph) :
    (∀ n, n ∈ (det.subgraph g).included ↔ det.Includes g n) ∧
      ∀ m n, n ∈ (det.subgraph g).neighbours m ↔ SymmGen (det.Linked g) m n := by
  have hnodes : ∀ n, n ∈ ((g.nodes.rows.map Prod.snd).foldl det.includeNode
      ⟨∅, ∅, ∅, ∅⟩).included ↔ det.Includes g n := by
    intro n
    refine (foldl_iff (fun sg : Subgraph => n ∈ sg.included)
      (fun node => det.Admits node ∧ node.id = n) (fun _ => True) (fun _ _ _ => trivial)
      (fun _ node _ => mem_includeNode node n) _ _ trivial).trans ?_
    simp only [Finset.notMem_empty, false_or, List.mem_map, CommunityDetector.Includes]
    constructor
    · rintro ⟨node, ⟨⟨key, _⟩, hrow, rfl⟩, hadmits, hid⟩
      exact ⟨key, _, Table.mem_rows_iff.mp hrow, hid, hadmits⟩
    · rintro ⟨key, node, hlookup, hid, hadmits⟩
      exact ⟨node, ⟨(key, node), Table.mem_rows_iff.mpr hlookup, rfl⟩, hadmits, hid⟩
  have hbare : ∀ m n, ¬n ∈ ((g.nodes.rows.map Prod.snd).foldl det.includeNode
      ⟨∅, ∅, ∅, ∅⟩).neighbours m := by
    intro m n
    refine (foldl_iff (fun sg : Subgraph => n ∈ sg.neighbours m) (fun _ => False) (fun _ => True)
      (fun _ _ _ => trivial) (fun _ node _ => by simpa using neighbours_includeNode node m n)
      _ _ trivial).not.mpr ?_
    simp [Subgraph.neighbours]
  have hincluded : ∀ n, n ∈ (det.subgraph g).included ↔ det.Includes g n := by
    intro n
    refine (foldl_iff (fun sg : Subgraph => n ∈ sg.included) (fun _ => False) (fun _ => True)
      (fun _ _ _ => trivial) (fun sg edge _ => by rw [included_connect, or_false])
      _ _ trivial).trans ?_
    simpa using hnodes n
  refine ⟨hincluded, fun m n => ?_⟩
  refine (foldl_iff (fun sg : Subgraph => n ∈ sg.neighbours m)
    (fun edge => det.Follows edge ∧ det.Includes g edge.fromNode ∧ det.Includes g edge.toNode ∧
      (edge.fromNode = m ∧ edge.toNode = n ∨ edge.fromNode = n ∧ edge.toNode = m))
    (fun sg => ∀ n, n ∈ sg.included ↔ det.Includes g n)
    (fun sg edge h => by simpa only [included_connect] using h)
    (fun sg edge h => by rw [mem_neighbours_connect, h, h]) _ _ hnodes).trans ?_
  change _ ↔ det.Linked g m n ∨ det.Linked g n m
  simp only [hbare, false_or, List.mem_map, CommunityDetector.Linked]
  constructor
  · rintro ⟨edge, ⟨⟨key, _⟩, hrow, rfl⟩, hfollows, hfrom, hto, ⟨rfl, rfl⟩ | ⟨rfl, rfl⟩⟩
    · exact .inl ⟨hfrom, hto, key, _, Table.mem_rows_iff.mp hrow, hfollows, rfl, rfl⟩
    · exact .inr ⟨hfrom, hto, key, _, Table.mem_rows_iff.mp hrow, hfollows, rfl, rfl⟩
  · rintro (⟨hm, hn, key, edge, hlookup, hfollows, rfl, rfl⟩ |
      ⟨hm, hn, key, edge, hlookup, hfollows, rfl, rfl⟩)
    · exact ⟨edge, ⟨(key, edge), Table.mem_rows_iff.mpr hlookup, rfl⟩, hfollows, hm, hn,
        .inl ⟨rfl, rfl⟩⟩
    · exact ⟨edge, ⟨(key, edge), Table.mem_rows_iff.mpr hlookup, rfl⟩, hfollows, hm, hn,
        .inr ⟨rfl, rfl⟩⟩

theorem reach_iff_connected (m n : NodeId) :
    (det.subgraph g).Reach m n ↔ det.Connected g m n := by
  have hsame : (fun m n => n ∈ (det.subgraph g).neighbours m) = SymmGen (det.Linked g) :=
    funext fun m => funext fun n => propext ((subgraph_spec det g).2 m n)
  rw [Subgraph.Reach, hsame, Relation.EqvGen.reflTransGen_symmGen, CommunityDetector.Connected]

/-- A sweep from one node, begun when some others had been visited. -/
structure Sweep.Swept (sg : Subgraph) (start : NodeId) (before : Finset NodeId) (s : Sweep)
    (frontier : List NodeId) : Prop where
  visited : ∀ n, n ∈ s.visited ↔ n ∈ before ∨ n ∈ s.members
  fresh : ∀ n ∈ s.members, n ∉ before
  begun : start ∈ s.visited ∨ start ∈ frontier
  pending : ∀ m ∈ s.members, ∀ n ∈ sg.neighbours m, n ∈ s.visited ∨ n ∈ frontier
  reached : ∀ n, n ∈ s.members ∨ n ∈ frontier → sg.Reach start n

theorem Sweep.Swept.explore {start : NodeId} {before : Finset NodeId} {s : Sweep}
    {frontier : List NodeId} (h : s.Swept sg start before frontier) :
    (sg.explore s frontier).Swept sg start before [] := by
  fun_induction Subgraph.explore sg s frontier with
  | case1 s => exact h
  | case2 s n frontier hseen ih =>
    refine ih ⟨h.visited, h.fresh, ?_, fun m hm k hk => ?_, fun m hm => h.reached m ?_⟩
    · grind [h.begun]
    · grind [h.pending m hm k hk]
    · grind
  | case3 s n frontier hseen ih =>
    refine ih ⟨fun m => ?_, fun m hm => ?_, ?_, fun m hm k hk => ?_, fun m hm => ?_⟩
    · simp only [Subgraph.visit, Finset.mem_insert, h.visited]
      grind
    · obtain rfl | hm := Finset.mem_insert.mp hm
      · exact fun hmem => hseen ((h.visited m).mpr (.inl hmem))
      · exact h.fresh m hm
    · simp only [Subgraph.visit, Finset.mem_insert, List.mem_append]
      grind [h.begun]
    · by_cases hk' : k ∈ (sg.visit s n).visited
      · exact .inl hk'
      · refine .inr (List.mem_append.mpr ?_)
        obtain rfl | hm := Finset.mem_insert.mp hm
        · exact .inr (List.mem_filter.mpr ⟨hk, by simpa using hk'⟩)
        · simp only [Subgraph.visit, Finset.mem_insert, not_or] at hk'
          grind [h.pending m hm k hk]
    · have hn : sg.Reach start n := h.reached n (.inr List.mem_cons_self)
      obtain hm | hm := hm
      · obtain rfl | hm := Finset.mem_insert.mp hm
        · exact hn
        · exact h.reached m (.inl hm)
      · obtain hm | hm := List.mem_append.mp hm
        · exact h.reached m (.inr (List.mem_cons_of_mem _ hm))
        · exact hn.tail (List.mem_filter.mp hm).1

theorem Sweep.Swept.mem_iff {start : NodeId} {before : Finset NodeId} {s : Sweep}
    (h : s.Swept sg start before []) (hsymm : ∀ m n, n ∈ sg.neighbours m → m ∈ sg.neighbours n)
    (hclosed : ∀ m ∈ before, ∀ n ∈ sg.neighbours m, n ∈ before) (hstart : start ∉ before)
    (n : NodeId) : n ∈ s.members ↔ sg.Reach start n := by
  constructor
  · exact fun hn => h.reached n (.inl hn)
  · intro hreach
    induction hreach with
    | refl =>
      obtain hbefore | hmem := (h.visited start).mp (by simpa using h.begun)
      · exact absurd hbefore hstart
      · exact hmem
    | @tail m n _ hstep ih =>
      have hseen : n ∈ s.visited := by simpa using h.pending m ih n hstep
      obtain hbefore | hmem := (h.visited n).mp hseen
      · exact absurd (hclosed n hbefore m (hsymm m n hstep)) (h.fresh m ih)
      · exact hmem

/-- The communities that are found among the nodes of a list, once some have been visited. -/
structure Components (sg : Subgraph) (draw : Nat → CommunityId) (l : List NodeId)
    (visited : Finset NodeId) (drawn : Nat) (cs : List Community) : Prop where
  whole : ∀ c ∈ cs, ∃ start ∈ l, ∀ n, n ∈ c.memberNodeIds ↔ sg.Reach start n
  fresh : ∀ c ∈ cs, Disjoint c.memberNodeIds visited
  apart : cs.Pairwise fun a b => Disjoint a.memberNodeIds b.memberNodeIds
  covers : ∀ n ∈ l, n ∈ visited ∨ ∃ c ∈ cs, n ∈ c.memberNodeIds
  ids : cs.map Community.id = (List.range' drawn cs.length).map draw

theorem components_spec (hsymm : ∀ m n, n ∈ sg.neighbours m → m ∈ sg.neighbours n)
    (draw : Nat → CommunityId) (l : List NodeId) (visited : Finset NodeId) (drawn : Nat)
    (hclosed : ∀ m ∈ visited, ∀ n ∈ sg.neighbours m, n ∈ visited) :
    Components sg draw l visited drawn (sg.components draw l visited drawn) := by
  induction l generalizing visited drawn with
  | nil => constructor <;> simp [Subgraph.components]
  | cons start rest ih =>
    by_cases hstart : start ∈ visited
    · obtain ⟨hwhole, hfresh, hapart, hcovers, hids⟩ := ih visited drawn hclosed
      rw [Subgraph.components, if_pos hstart]
      refine ⟨fun c hc => ?_, hfresh, hapart, fun n hn => ?_, hids⟩
      · obtain ⟨n, hn, hc⟩ := hwhole c hc
        exact ⟨n, List.mem_cons_of_mem _ hn, hc⟩
      · obtain rfl | hn := List.mem_cons.mp hn
        · exact .inl hstart
        · exact hcovers n hn
    · have hswept : (sg.explore ⟨visited, ∅, ∅⟩ [start]).Swept sg start visited [] := by
        refine Sweep.Swept.explore ⟨by simp, by simp, by simp, by simp, fun n hn => ?_⟩
        obtain rfl : n = start := by simpa using hn
        exact .refl
      have hmem := hswept.mem_iff hsymm hclosed hstart
      have hself : start ∈ (sg.explore ⟨visited, ∅, ∅⟩ [start]).members := (hmem start).mpr .refl
      obtain ⟨hwhole, hfresh, hapart, hcovers, hids⟩ :=
        ih (sg.explore ⟨visited, ∅, ∅⟩ [start]).visited (drawn + 1) (fun m hm n hn => by
          rw [hswept.visited] at hm ⊢
          exact hm.imp (hclosed m · n hn) fun hm => (hmem n).mpr (((hmem m).mp hm).tail hn))
      have hvisited : (sg.explore ⟨visited, ∅, ∅⟩ [start]).visited =
          visited ∪ (sg.explore ⟨visited, ∅, ∅⟩ [start]).members := by
        ext n
        rw [Finset.mem_union, hswept.visited]
      have hnew : ∀ c ∈ sg.components draw rest (sg.explore ⟨visited, ∅, ∅⟩ [start]).visited
          (drawn + 1), Disjoint c.memberNodeIds visited ∧
            Disjoint c.memberNodeIds (sg.explore ⟨visited, ∅, ∅⟩ [start]).members := by
        intro c hc
        have hc := hfresh c hc
        rwa [hvisited, Finset.disjoint_union_right] at hc
      rw [Subgraph.components, if_neg hstart, if_neg (Finset.ne_empty_of_mem hself)]
      refine ⟨?_, ?_, ?_, fun n hn => ?_, ?_⟩
      · intro c hc
        obtain rfl | hc := List.mem_cons.mp hc
        · exact ⟨start, List.mem_cons_self, hmem⟩
        · obtain ⟨n, hn, hc⟩ := hwhole c hc
          exact ⟨n, List.mem_cons_of_mem _ hn, hc⟩
      · intro c hc
        obtain rfl | hc := List.mem_cons.mp hc
        · exact Finset.disjoint_left.mpr hswept.fresh
        · exact (hnew c hc).1
      · refine List.pairwise_cons.mpr ⟨fun c hc => ?_, hapart⟩
        exact (hnew c hc).2.symm
      · obtain rfl | hn := List.mem_cons.mp hn
        · exact .inr ⟨_, List.mem_cons_self, hself⟩
        · obtain hn | ⟨c, hc, hn⟩ := hcovers n hn
          · obtain hn | hn := (hswept.visited n).mp hn
            · exact .inl hn
            · exact .inr ⟨_, List.mem_cons_self, hn⟩
          · exact .inr ⟨c, List.mem_cons_of_mem _ hc, hn⟩
      · simp only [List.map_cons, List.length_cons, List.range'_succ, hids]
        rfl

/-- The communities are the classes of the nodes that are connected. -/
structure Partitions (det : CommunityDetector) (g : ConceptGraph) (cs : List Community) :
    Prop where
  covers : ∀ n, det.Includes g n ↔ ∃ c ∈ cs, n ∈ c.memberNodeIds
  nonempty : ∀ c ∈ cs, c.memberNodeIds.Nonempty
  apart : cs.Pairwise fun a b => Disjoint a.memberNodeIds b.memberNodeIds
  together : ∀ m n, det.Includes g m → det.Includes g n →
    ((∃ c ∈ cs, m ∈ c.memberNodeIds ∧ n ∈ c.memberNodeIds) ↔ det.Connected g m n)

theorem Partitions.perm {cs cs' : List Community} (h : Partitions det g cs) (hperm : cs.Perm cs') :
    Partitions det g cs' where
  covers n := by simpa only [hperm.mem_iff] using h.covers n
  nonempty c hc := h.nonempty c (hperm.mem_iff.mpr hc)
  apart := (hperm.pairwise_iff fun h => h.symm).mp h.apart
  together m n hm hn := by simpa only [hperm.mem_iff] using h.together m n hm hn

theorem includes_of_reach {m n : NodeId} (h : (det.subgraph g).Reach m n)
    (hm : det.Includes g m) : det.Includes g n := by
  induction h with
  | refl => exact hm
  | @tail k n _ hstep _ =>
    obtain hlink | hlink := ((subgraph_spec det g).2 k n).mp hstep
    · exact hlink.2.1
    · exact hlink.1

section

variable (det : CommunityDetector) (draw : Nat → CommunityId) (g : ConceptGraph)

theorem components_of_detect :
    Components (det.subgraph g) draw ((det.subgraph g).included.sort uuidLe) ∅ 0
      ((det.subgraph g).components draw ((det.subgraph g).included.sort uuidLe) ∅ 0) := by
  refine components_spec (fun m n hn => ?_) draw _ ∅ 0 (by simp)
  rw [(subgraph_spec det g).2] at hn ⊢
  exact hn.symm

theorem detect_partitions : Partitions det g (det.detect draw g) := by
  obtain ⟨hwhole, -, hapart, hcovers, -⟩ := components_of_detect det draw g
  refine Partitions.perm ⟨fun n => ?_, fun c hc => ?_, hapart, fun m n hm hn => ?_⟩
    (List.mergeSort_perm _ _).symm
  · rw [← (subgraph_spec det g).1 n]
    constructor
    · exact fun hn => (hcovers n ((Finset.mem_sort _).mpr hn)).resolve_left (Finset.notMem_empty n)
    · rintro ⟨c, hc, hn⟩
      obtain ⟨start, hstart, hmem⟩ := hwhole c hc
      have hstart := ((subgraph_spec det g).1 start).mp ((Finset.mem_sort _).mp hstart)
      exact ((subgraph_spec det g).1 n).mpr (includes_of_reach ((hmem n).mp hn) hstart)
  · obtain ⟨start, -, hmem⟩ := hwhole c hc
    exact ⟨start, (hmem start).mpr .refl⟩
  · have hm := (Finset.mem_sort uuidLe).mpr (((subgraph_spec det g).1 m).mpr hm)
    constructor
    · rintro ⟨c, hc, hmc, hnc⟩
      obtain ⟨start, -, hmem⟩ := hwhole c hc
      have hfrom := (reach_iff_connected start m).mp ((hmem m).mp hmc)
      have hto := (reach_iff_connected start n).mp ((hmem n).mp hnc)
      exact (hfrom.symm _ _).trans _ _ _ hto
    · intro hconn
      obtain ⟨c, hc, hmc⟩ := (hcovers m hm).resolve_left (Finset.notMem_empty m)
      obtain ⟨start, -, hmem⟩ := hwhole c hc
      exact ⟨c, hc, hmc, (hmem n).mpr
        (((hmem m).mp hmc).trans ((reach_iff_connected m n).mpr hconn))⟩

theorem detect_ids :
    ((det.detect draw g).map Community.id).Perm
      ((List.range (det.detect draw g).length).map draw) := by
  have hids := (components_of_detect det draw g).ids
  rw [CommunityDetector.detect, List.length_mergeSort, List.range_eq_range', ← hids]
  exact (List.mergeSort_perm _ _).map _

end

end Detection

open CommunityDetector

namespace CommunityHierarchy

section Groups

variable {current : List Community}

theorem overlap_iff {a b : Community} : overlap a b = true ↔ ¬Disjoint a.scopeIds b.scopeIds := by
  simp [overlap, Finset.not_disjoint_iff]

theorem overlap_symm {a b : Community} (h : overlap a b = true) : overlap b a = true := by
  rw [overlap_iff] at h ⊢
  exact fun hba => h hba.symm

theorem same_overlapForest (i j : Fin current.length) : (overlapForest current).Same i j ↔
    EqvGen (fun a b => overlap (current.get a) (current.get b) = true) i j := by
  unfold overlapForest
  rw [Forest.same_foldl _ (fun a b => overlap (current.get a) (current.get b) = true)]
  simp only [List.mem_flatMap, List.mem_map, List.mem_filter, List.mem_finRange, true_and,
    decide_eq_true_eq, Prod.mk.injEq, Forest.same_discrete]
  constructor
  · refine fun h => EqvGen.eqvGen_le (fun a b hab => ?_) i j h
    obtain rfl | ⟨-, hab⟩ := hab
    · exact .refl _
    · exact .rel _ _ hab
  · refine fun h => EqvGen.eqvGen_le (fun a b hab => ?_) i j h
    obtain hlt | rfl | hlt := lt_trichotomy a b
    · exact .rel _ _ (.inr ⟨⟨a, b, hlt, rfl, rfl⟩, hab⟩)
    · exact .refl _
    · exact (EqvGen.rel b a (.inr ⟨⟨b, a, hlt, rfl, rfl⟩, overlap_symm hab⟩)).symm _ _

theorem rooted_eq {n : Nat} (F : Forest n) (l : List (Fin n)) :
    rooted F l = l.map fun i => (F.root i, i) := by
  induction l generalizing F with
  | nil => rfl
  | cons i rest ih =>
    obtain ⟨hroot, hsame⟩ := F.find_spec i
    rw [rooted, ih, List.map_cons, hroot]
    simp only [hsame]

def groupRoots (current : List Community) : List (Fin current.length) :=
  ((List.finRange current.length).map (overlapForest current).root).dedup.mergeSort fun a b => a ≤ b

def groupOf (current : List Community) (root : Fin current.length) : List Community :=
  ((List.finRange current.length).filter fun i => (overlapForest current).root i = root).map
    current.get

theorem groups_eq (current : List Community) :
    groups current = (groupRoots current).map (groupOf current) := by
  simp only [groups, groupRoots, rooted_eq, List.map_map, List.filter_map]
  rfl

theorem nodup_groupRoots (current : List Community) : (groupRoots current).Nodup :=
  (List.mergeSort_perm _ _).nodup_iff.mpr (List.nodup_dedup _)

theorem root_mem_groupRoots (i : Fin current.length) :
    (overlapForest current).root i ∈ groupRoots current := by
  rw [groupRoots, List.mem_mergeSort, List.mem_dedup]
  exact List.mem_map_of_mem (List.mem_finRange i)

theorem groupOf_sublist (root : Fin current.length) : (groupOf current root).Sublist current := by
  have hall := (List.filter_sublist (l := List.finRange current.length)
    (p := fun i => (overlapForest current).root i = root)).map current.get
  rwa [List.map_get_finRange] at hall

theorem sublist_of_mem_groups {group : List Community} (h : group ∈ groups current) :
    group.Sublist current := by
  rw [groups_eq, List.mem_map] at h
  obtain ⟨root, -, rfl⟩ := h
  exact groupOf_sublist root

theorem ne_nil_of_mem_groups {group : List Community} (h : group ∈ groups current) :
    group ≠ [] := by
  rw [groups_eq, List.mem_map] at h
  obtain ⟨root, hroot, rfl⟩ := h
  rw [groupRoots, List.mem_mergeSort, List.mem_dedup, List.mem_map] at hroot
  obtain ⟨i, hi, hroot⟩ := hroot
  have hmem : current.get i ∈ groupOf current root :=
    List.mem_map_of_mem (List.mem_filter.mpr ⟨hi, by simpa using hroot⟩)
  exact List.ne_nil_of_mem hmem

theorem flatten_groups (current : List Community) : (groups current).flatten.Perm current := by
  have hindices : ((groupRoots current).flatMap fun root => (List.finRange current.length).filter
      fun i => (overlapForest current).root i = root).Perm (List.finRange current.length) := by
    refine (List.perm_ext_iff_of_nodup ?_ (List.nodup_finRange _)).mpr fun i => ?_
    · refine List.nodup_flatMap.mpr ⟨fun _ _ => (List.nodup_finRange _).filter _, ?_⟩
      refine (nodup_groupRoots current).imp fun {a b} hne i hi hj => hne ?_
      simp only [List.mem_filter, decide_eq_true_eq] at hi hj
      exact hi.2.symm.trans hj.2
    · simp [root_mem_groupRoots]
  have hflatten := hindices.map current.get
  rw [List.map_get_finRange, List.map_flatMap, List.flatMap_def] at hflatten
  rw [groups_eq]
  exact hflatten

theorem groups_apart (current : List Community) : (groups current).Pairwise fun a b =>
    ∀ c ∈ a, ∀ d ∈ b, Disjoint c.scopeIds d.scopeIds := by
  rw [groups_eq, List.pairwise_map]
  refine (nodup_groupRoots current).imp fun {a b} hne c hc d hd => ?_
  simp only [groupOf, List.mem_map, List.mem_filter, decide_eq_true_eq] at hc hd
  obtain ⟨i, ⟨-, rfl⟩, rfl⟩ := hc
  obtain ⟨j, ⟨-, rfl⟩, rfl⟩ := hd
  by_contra hmeet
  exact hne ((same_overlapForest i j).mpr (.rel _ _ (overlap_iff.mpr hmeet)))

theorem length_groups_iff_injective :
    (groups current).length = current.length ↔ Function.Injective (overlapForest current).root := by
  have hlength : (groups current).length =
      ((List.finRange current.length).map (overlapForest current).root).dedup.length := by
    rw [groups_eq, List.length_map, groupRoots, List.length_mergeSort]
  have hnodup : ((List.finRange current.length).map (overlapForest current).root).Nodup ↔
      Function.Injective (overlapForest current).root := by
    rw [List.nodup_map_iff_inj_on (List.nodup_finRange _)]
    exact ⟨fun h i j => h i (List.mem_finRange i) j (List.mem_finRange j),
      fun h i _ j _ heq => h heq⟩
  rw [← hnodup, hlength]
  constructor
  · intro h
    refine List.dedup_eq_self.mp ((List.dedup_sublist _).eq_of_length ?_)
    simpa using h
  · intro h
    rw [h.dedup]
    simp

theorem length_groups_iff_disjoint : (groups current).length = current.length ↔
    current.Pairwise fun a b => Disjoint a.scopeIds b.scopeIds := by
  rw [length_groups_iff_injective, List.pairwise_iff_get]
  constructor
  · intro hinj i j hlt
    by_contra hmeet
    have hsame := (same_overlapForest i j).mpr (.rel _ _ (overlap_iff.mpr hmeet))
    exact hlt.ne (hinj hsame)
  · intro hapart i j hroot
    have hchain := (same_overlapForest i j).mp hroot
    refine eq_equivalence.eqvGen_iff.mp (hchain.mono fun a b hab => ?_)
    rw [overlap_iff] at hab
    obtain hlt | heq | hlt := lt_trichotomy a b
    · exact absurd (hapart a b hlt) hab
    · exact heq
    · exact absurd (hapart b a hlt).symm hab

end Groups

section Levels

variable {communities : Table CommunityId Community} {cs : List Community}

theorem present_ids (h : ∀ c ∈ cs, communities.lookup c.id = some c) :
    present communities (cs.map Community.id) = cs := by
  induction cs with
  | nil => rfl
  | cons c cs ih =>
    have htail := ih fun d hd => h d (List.mem_cons_of_mem _ hd)
    rw [present, List.map_cons, List.filterMap_cons, h c List.mem_cons_self]
    exact congrArg (c :: ·) htail

theorem merge_spec (id : CommunityId) (level : Nat) (group : List Community) :
    (merge id level group).id = id ∧ (merge id level group).childIds = group.map Community.id ∧
      (∀ n, n ∈ (merge id level group).memberNodeIds ↔ ∃ c ∈ group, n ∈ c.memberNodeIds) ∧
      ∀ s, s ∈ (merge id level group).scopeIds ↔ ∃ c ∈ group, s ∈ c.scopeIds := by
  refine ⟨rfl, rfl, fun n => ?_, fun s => ?_⟩
  · simp [merge, Community.leaf, mem_foldl_union]
  · simp [merge, Community.leaf, mem_foldl_union]

/-- One level over another: the communities of the lower one are shared out among those of the
upper one, each of which unites its own. -/
structure Stacked (communities : Table CommunityId Community) (lower upper : List CommunityId) :
    Prop where
  shared : ((present communities upper).flatMap Community.childIds).Perm lower
  nonempty : ∀ c ∈ present communities upper, c.childIds ≠ []
  members : ∀ c ∈ present communities upper, ∀ n,
    n ∈ c.memberNodeIds ↔ ∃ child ∈ present communities c.childIds, n ∈ child.memberNodeIds
  apart : ∀ c ∈ present communities upper, (present communities c.childIds).Pairwise fun a b =>
    Disjoint a.memberNodeIds b.memberNodeIds
  scopes : ∀ c ∈ present communities upper, ∀ s,
    s ∈ c.scopeIds ↔ ∃ child ∈ present communities c.childIds, s ∈ child.scopeIds

/-- What a hierarchy over some leaves is: levels of distinct communities, each over the one
below, until no two communities of a level share a scope. -/
structure Layers (h : CommunityHierarchy) (leaves : List Community) : Prop where
  bottom : h.levels.head?.map (present h.communities) = some leaves
  known : ∀ ids ∈ h.levels, ids.Nodup ∧ (present h.communities ids).map Community.id = ids
  stacked : h.levels.IsChain (Stacked h.communities)
  top : ∀ ids ∈ h.levels.getLast?, (present h.communities ids).Pairwise fun a b =>
    Disjoint a.scopeIds b.scopeIds
  height : h.levels.length ≤ 2

theorem mergeLevels_stop (draw : Nat → CommunityId) (drawn : Nat) (below : List (List CommunityId))
    {last : List CommunityId} (h : (present communities last).Pairwise fun a b =>
      Disjoint a.scopeIds b.scopeIds) :
    mergeLevels draw drawn communities below last = ⟨communities, below ++ [last]⟩ := by
  rw [mergeLevels]
  simp only [length_groups_iff_disjoint.mpr h, if_true, ite_self]

theorem mergeLevels_merge (draw : Nat → CommunityId) (drawn : Nat)
    (below : List (List CommunityId)) {last : List CommunityId}
    (h : ¬(present communities last).Pairwise fun a b => Disjoint a.scopeIds b.scopeIds) :
    mergeLevels draw drawn communities below last =
      let next := parents draw drawn (below.length + 1) (present communities last)
      mergeLevels draw (drawn + next.length) (insertAll communities next) (below ++ [last])
        (next.map Community.id) := by
  have hmany : ¬(present communities last).length ≤ 1 := by
    intro hfew
    rcases hlast : present communities last with _ | ⟨c, _ | ⟨d, rest⟩⟩
    · simp [hlast] at h
    · simp [hlast] at h
    · simp [hlast] at hfew
  rw [mergeLevels]
  simp only [hmany, if_false, length_groups_iff_disjoint, h]

theorem mem_parents {draw : Nat → CommunityId} {drawn level : Nat} {c : Community}
    (h : c ∈ parents draw drawn level cs) :
    ∃ group ∈ groups cs, ∃ k < (groups cs).length, c = merge (draw (drawn + k)) level group := by
  obtain ⟨k, hk, rfl⟩ := List.mem_mapIdx.mp h
  exact ⟨_, List.getElem_mem hk, k, hk, rfl⟩

section

variable (draw : Nat → CommunityId) (drawn level : Nat) (cs : List Community)

theorem ids_parents :
    (parents draw drawn level cs).map Community.id =
      (List.range' drawn (groups cs).length).map draw := by
  refine List.ext_getElem (by simp [parents]) fun k _ _ => ?_
  simp [parents, merge, Community.leaf]

theorem childIds_parents :
    ((parents draw drawn level cs).flatMap Community.childIds).Perm (cs.map Community.id) := by
  have hchildren : (parents draw drawn level cs).map Community.childIds =
      (groups cs).map (List.map Community.id) := by
    refine List.ext_getElem (by simp [parents]) fun k _ _ => ?_
    simp [parents, merge]
  rw [List.flatMap_def, hchildren, ← List.map_flatten]
  exact (flatten_groups cs).map _

theorem scopes_parents :
    (parents draw drawn level cs).Pairwise fun a b => Disjoint a.scopeIds b.scopeIds := by
  rw [List.pairwise_iff_getElem]
  intro i j hi hj hlt
  simp only [parents, List.length_mapIdx] at hi hj
  have hapart := List.pairwise_iff_getElem.mp (groups_apart cs) i j hi hj hlt
  simp only [parents, List.getElem_mapIdx]
  rw [Finset.disjoint_left]
  intro s hs hs'
  obtain ⟨c, hc, hs⟩ := ((merge_spec _ _ _).2.2.2 s).mp hs
  obtain ⟨d, hd, hs'⟩ := ((merge_spec _ _ _).2.2.2 s).mp hs'
  exact Finset.disjoint_left.mp (hapart c hc d hd) hs hs'

end

theorem stacked_parents {draw : Nat → CommunityId} {drawn level : Nat}
    (hlower : ∀ c ∈ cs, communities.lookup c.id = some c)
    (hupper : ∀ c ∈ parents draw drawn level cs, communities.lookup c.id = some c)
    (hmembers : cs.Pairwise fun a b => Disjoint a.memberNodeIds b.memberNodeIds) :
    Stacked communities (cs.map Community.id)
      ((parents draw drawn level cs).map Community.id) := by
  have hchildren : ∀ group ∈ groups cs, present communities (group.map Community.id) = group :=
    fun group hgroup => present_ids fun c hc =>
      hlower c ((sublist_of_mem_groups hgroup).subset hc)
  constructor
  all_goals rw [present_ids hupper]
  · exact childIds_parents draw drawn level cs
  all_goals
    intro c hc
    obtain ⟨group, hgroup, k, -, rfl⟩ := mem_parents hc
    obtain ⟨-, hids, hnodes, hscopes⟩ := merge_spec (draw (drawn + k)) level group
    rw [hids]
  · simpa using ne_nil_of_mem_groups hgroup
  · rw [hchildren group hgroup]
    exact hnodes
  · rw [hchildren group hgroup]
    exact hmembers.sublist (sublist_of_mem_groups hgroup)
  · rw [hchildren group hgroup]
    exact hscopes

theorem build_layers {leaves : List Community} {draw : Nat → CommunityId}
    (hids : (leaves.map Community.id).Nodup)
    (hdraw : ∀ i < leaves.length, ∀ j < leaves.length, draw i = draw j → i = j)
    (hnew : ∀ i < leaves.length, draw i ∉ leaves.map Community.id)
    (hmembers : leaves.Pairwise fun a b => Disjoint a.memberNodeIds b.memberNodeIds) :
    Layers (build draw leaves) leaves := by
  have hstored : ∀ c ∈ leaves, (insertAll ∅ leaves).lookup c.id = some c :=
    (Table.lookup_foldl_insert Community.id leaves hids ∅).1
  have hpresent := present_ids hstored
  by_cases hapart : leaves.Pairwise fun a b => Disjoint a.scopeIds b.scopeIds
  · rw [build, mergeLevels_stop _ _ _ (by rwa [hpresent])]
    refine ⟨by simpa using hpresent, fun ids hmem => ?_, by simp, fun ids hmem => ?_, by simp⟩
    · obtain rfl : ids = leaves.map Community.id := by simpa using hmem
      exact ⟨hids, by rw [hpresent]⟩
    · obtain rfl : leaves.map Community.id = ids := by simpa using hmem
      rwa [hpresent]
  · have hparents := ids_parents draw 0 1 leaves
    have hdrawn : ∀ id ∈ (parents draw 0 1 leaves).map Community.id,
        ∃ k < leaves.length, draw k = id := by
      intro id hid
      rw [hparents] at hid
      obtain ⟨k, hk, rfl⟩ := List.mem_map.mp hid
      have hle := length_groups_le leaves
      exact ⟨k, by simp at hk; omega, rfl⟩
    have hnodup : ((parents draw 0 1 leaves).map Community.id).Nodup := by
      rw [hparents, List.nodup_map_iff_inj_on (List.nodup_range' ..)]
      intro i hi j hj
      have hle := length_groups_le leaves
      exact hdraw i (by simp at hi; omega) j (by simp at hj; omega)
    have hupper : ∀ c ∈ parents draw 0 1 leaves,
        (insertAll (insertAll ∅ leaves) (parents draw 0 1 leaves)).lookup c.id = some c :=
      (Table.lookup_foldl_insert Community.id _ hnodup _).1
    have hlower : ∀ c ∈ leaves,
        (insertAll (insertAll ∅ leaves) (parents draw 0 1 leaves)).lookup c.id = some c := by
      intro c hc
      refine ((Table.lookup_foldl_insert Community.id _ hnodup _).2 _ fun hmem => ?_).trans
        (hstored c hc)
      obtain ⟨k, hk, heq⟩ := hdrawn _ hmem
      exact hnew k hk (heq ▸ List.mem_map_of_mem hc)
    have hlast : build draw leaves =
        ⟨insertAll (insertAll ∅ leaves) (parents draw 0 1 leaves),
          [leaves.map Community.id, (parents draw 0 1 leaves).map Community.id]⟩ := by
      rw [build, mergeLevels_merge _ _ _ (by rwa [hpresent])]
      simp only [hpresent, List.length_nil, Nat.zero_add, List.nil_append]
      rw [mergeLevels_stop _ _ _ (by rw [present_ids hupper]; exact scopes_parents draw 0 1 leaves)]
      rfl
    rw [hlast]
    refine ⟨by simpa using present_ids hlower, fun ids hmem => ?_, ?_, fun ids hmem => ?_, by simp⟩
    · obtain rfl | rfl : ids = leaves.map Community.id ∨
          ids = (parents draw 0 1 leaves).map Community.id := by simpa using hmem
      · exact ⟨hids, by rw [present_ids hlower]⟩
      · exact ⟨hnodup, by rw [present_ids hupper]⟩
    · simpa using stacked_parents hlower hupper hmembers
    · obtain rfl : (parents draw 0 1 leaves).map Community.id = ids := by simpa using hmem
      rw [present_ids hupper]
      exact scopes_parents draw 0 1 leaves

end Levels

/-- The ids that are drawn are new ones: those of the leaves, and those of the communities above
them. -/
structure FreshIds (drawLeaf draw : Nat → CommunityId) (n : Nat) : Prop where
  leaf : ∀ i < n, ∀ j < n, drawLeaf i = drawLeaf j → i = j
  parent : ∀ i < n, ∀ j < n, draw i = draw j → i = j
  apart : ∀ i < n, ∀ j < n, drawLeaf i ≠ draw j

end CommunityHierarchy

open CommunityHierarchy in
/-- The communities of a graph are its components, and the hierarchy over them is sound. -/
theorem communities_partition (det : CommunityDetector) (g : ConceptGraph)
    (drawLeaf draw : Nat → CommunityId)
    (hfresh : FreshIds drawLeaf draw (det.detect drawLeaf g).length) :
    Partitions det g (det.detect drawLeaf g) ∧
      Layers (build draw (det.detect drawLeaf g)) (det.detect drawLeaf g) := by
  have hparts := detect_partitions det drawLeaf g
  have hids := detect_ids det drawLeaf g
  refine ⟨hparts, build_layers ?_ hfresh.parent (fun j hj hmem => ?_) hparts.apart⟩
  · rw [hids.nodup_iff, List.nodup_map_iff_inj_on List.nodup_range]
    exact fun i hi j hj =>
      hfresh.leaf i (List.mem_range.mp hi) j (List.mem_range.mp hj)
  · obtain ⟨i, hi, heq⟩ := List.mem_map.mp (hids.mem_iff.mp hmem)
    exact hfresh.apart i (List.mem_range.mp hi) j hj heq

def threeNodes : ConceptGraph :=
  let node : NodeId → ScopeId → ConceptNode := fun id scope =>
    ⟨id, "", "", scope, .canonical, none, 0, 0⟩
  let g := [node 1 7, node 2 7, node 3 8].foldl (fun g node => (g.addNode node).1) ConceptGraph.new
  (g.addEdge ⟨11, 2, 3, .isA, 7, 0⟩).1

def counted (n : Nat) (k : Nat) : CommunityId := BitVec.ofNat 128 (n + k)

theorem length_detect_threeNodes :
    (new.detect (counted 0) threeNodes).length = 2 := by
  have hincluded : (new.subgraph threeNodes).included =
      Finset.cons 1 (Finset.cons 2 {3} (by decide)) (by decide) := by decide +kernel
  have hsort : (new.subgraph threeNodes).included.sort uuidLe = [1, 2, 3] := by
    rw [hincluded, Finset.sort_cons, Finset.sort_cons, Finset.sort_singleton]
    · simp [uuidLe]
    · simp [uuidLe]
  rw [detect, List.length_mergeSort, hsort]
  decide +kernel

theorem communities_partition_sample :
    Partitions .new threeNodes (new.detect (counted 0) threeNodes) ∧
      (CommunityHierarchy.build (counted 9)
        (new.detect (counted 0) threeNodes)).Layers
          (new.detect (counted 0) threeNodes) := by
  refine communities_partition .new threeNodes (counted 0) (counted 9) ?_
  rw [length_detect_threeNodes]
  exact ⟨by decide, by decide, by decide⟩

end Knowledge.Reasoning
