import Knowledge.Reasoning.Community
import Knowledge.Permission.Check
import Mathlib.Data.Prod.Lex
import Mathlib.Data.String.Basic

/-!
`crates/reasoning_engine/src/community.rs`, second half: the summaries of communities and the
router that hands them out. Who may see a summary is decided from the scopes of the nodes; what
it shows also comes from edges, which have a scope of their own.
-/

set_option autoImplicit false

namespace Knowledge.Reasoning
open Knowledge.Sync (Uuid uuidText)
open Knowledge.Memory (ScopeId)
open Knowledge.Permission (TupleStore NamespaceRegistry SubjectRef checkPermission)
open Knowledge.Concept (NodeId EdgeId Adjacency ConceptNode ConceptEdge ConceptGraph RelationType)
open CommunityHierarchy CommunityDetector

structure CommunitySummary where
  communityId : CommunityId
  level : Nat
  summaryText : String
  keyConcepts : List String
  /-- A relation without pairs has no entry. -/
  keyRelations : RelationType → List (String × String)
  generatedAt : Int
  scopeIds : Finset ScopeId

namespace CommunitySummaryGenerator

def keyConcepts (g : ConceptGraph) (c : Community) : List String :=
  ((c.memberNodeIds.sort uuidLe).filterMap fun id => (g.getNode id).map (·.label)).eraseDups

def labelOf (g : ConceptGraph) (id : NodeId) : String :=
  match g.getNode id with
  | some node => node.label
  | none => uuidText id

def relationPairs (g : ConceptGraph) (c : Community) (relation : RelationType) :
    List (String × String) :=
  ((g.edges.rows.map Prod.snd).filter fun edge =>
      edge.fromNode ∈ c.memberNodeIds && edge.toNode ∈ c.memberNodeIds
        && edge.relation = relation).map
    fun edge => (labelOf g edge.fromNode, labelOf g edge.toNode)

def keyRelations (g : ConceptGraph) (c : Community) (relation : RelationType) :
    List (String × String) :=
  (((relationPairs g c relation).map toLex).toFinset.sort (· ≤ ·)).map ofLex

def relationTypes : List RelationType :=
  [.isA, .partOf, .decidedBy, .supersedes, .contradicts, .derivedFrom, .assignedTo]

def renderRelation (relation : RelationType) : List (String × String) → String
  | [] => ""
  | pairs =>
    "\n" ++ relation.asStr ++ ":" ++ String.join (pairs.map fun p => " " ++ p.1 ++ " → " ++ p.2 ++ ";")

def summaryText (c : Community) (concepts : List String)
    (relations : RelationType → List (String × String)) : String :=
  "Community " ++ (c.label ++ " (level " ++ toString c.level ++ ")\n" ++
    "Concepts (" ++ toString concepts.length ++ "): " ++ ", ".intercalate concepts ++
    String.join (relationTypes.map fun relation => renderRelation relation (relations relation)))

def summarise (g : ConceptGraph) (c : Community) (now : Int) : CommunitySummary where
  communityId := c.id
  level := c.level
  summaryText := summaryText c (keyConcepts g c) (keyRelations g c)
  keyConcepts := keyConcepts g c
  keyRelations := keyRelations g c
  generatedAt := now
  scopeIds := c.scopeIds

/-- `clock` is the reading for the summary of each community. -/
def summariseAll (g : ConceptGraph) (h : CommunityHierarchy) (clock : CommunityId → Int) :
    List CommunitySummary :=
  ((h.communities.rows.map Prod.fst).mergeSort fun a b => decide (uuidLe a b)).filterMap fun id =>
    (h.communities.lookup id).map fun c => summarise g c (clock id)

end CommunitySummaryGenerator

/-- Lower case and letters as the standard library has them, and what is used of them: on ASCII
they are the ASCII ones, and a blank ends the context that decides on a final sigma. -/
structure Unicode where
  toLowercase : List Char → List Char
  isAlphanumeric : Char → Bool
  lower_ascii : ∀ s : List Char, (∀ c ∈ s, c.toNat < 128) → toLowercase s = s.map Char.toLower
  lower_blank : ∀ s t : List Char,
    toLowercase (s ++ ' ' :: t) = toLowercase s ++ ' ' :: toLowercase t
  alphanumeric_ascii : ∀ c : Char, c.isAlphanum = true → isAlphanumeric c = true

namespace CommunityQueryRouter

variable (u : Unicode) (store : TupleStore) (registry : NamespaceRegistry) (subject : SubjectRef)

def viewable (scope : ScopeId) : Bool :=
  (checkPermission (store.tuples.card+1) store registry ⟨.channel, scope⟩ .viewer subject).getD
    false

def isVisible (scopes : Finset ScopeId) : Bool :=
  decide (scopes ≠ ∅) && decide (∀ scope ∈ scopes, viewable store registry subject scope = true)

def tokenise (text : String) : List (List Char) :=
  ((u.toLowercase text.toList).splitOnP fun c => !u.isAlphanumeric c).filter fun t =>
    2 < (t.map Char.utf8Size).sum

def relevanceScore (terms : List (List Char)) (s : CommunitySummary) : Nat :=
  (terms.map fun t =>
    2 * (s.keyConcepts.countP fun c => t <:+: u.toLowercase c.toList) +
      if t <:+: u.toLowercase s.summaryText.toList then 1 else 0).sum

def scored (terms : List (List Char)) (summaries : List CommunitySummary) :
    List (Nat × CommunitySummary) :=
  summaries.filterMap fun s =>
    if !isVisible store registry subject s.scopeIds then none
    else if 0 < relevanceScore u terms s then some (relevanceScore u terms s, s) else none

def route (query : String) (summaries : List CommunitySummary) (limit : Nat) :
    List CommunitySummary :=
  let terms := tokenise u query
  if terms.isEmpty then []
  else
    (((scored u store registry subject terms summaries).mergeSort fun a b =>
      decide (b.1 ≤ a.1)).take limit).map Prod.snd

end CommunityQueryRouter

section Spec
open CommunitySummaryGenerator CommunityQueryRouter

variable {g : ConceptGraph} {c : Community} {u : Unicode} {store : TupleStore}
  {registry : NamespaceRegistry} {subject : SubjectRef}

def Among (c : Community) (e : ConceptEdge) : Prop :=
  e.fromNode ∈ c.memberNodeIds ∧ e.toNode ∈ c.memberNodeIds

def edgeLabels (g : ConceptGraph) (e : ConceptEdge) : String × String :=
  (labelOf g e.fromNode, labelOf g e.toNode)

theorem mem_keyConcepts {l : String} :
    l ∈ keyConcepts g c ↔
      ∃ m ∈ c.memberNodeIds, ∃ node, g.nodes.lookup m = some node ∧ node.label = l := by
  simp [keyConcepts, ConceptGraph.getNode]

theorem mem_relationPairs {relation : RelationType} {p : String × String} :
    p ∈ relationPairs g c relation ↔ ∃ id e, g.edges.lookup id = some e ∧ Among c e ∧
      e.relation = relation ∧ edgeLabels g e = p := by
  simp only [relationPairs, List.mem_map, List.mem_filter, Prod.exists, Table.mem_rows_iff,
    Bool.and_eq_true, decide_eq_true_eq, Among, edgeLabels]
  constructor
  · rintro ⟨e, ⟨⟨id, e', hlookup, rfl⟩, hends, hrel⟩, hp⟩
    exact ⟨id, e', hlookup, hends, hrel, hp⟩
  · rintro ⟨id, e, hlookup, hends, hrel, hp⟩
    exact ⟨e, ⟨⟨id, e, hlookup, rfl⟩, hends, hrel⟩, hp⟩

theorem mem_keyRelations {relation : RelationType} {p : String × String} :
    p ∈ keyRelations g c relation ↔ p ∈ relationPairs g c relation := by
  simp only [keyRelations, List.mem_map, Finset.mem_sort, List.mem_toFinset]
  constructor
  · rintro ⟨q, ⟨r, hr, rfl⟩, rfl⟩
    exact hr
  · exact fun hp => ⟨toLex p, ⟨p, hp, rfl⟩, rfl⟩

theorem keyRelations_congr {g' : ConceptGraph} {relation : RelationType}
    (h : ∀ p, p ∈ relationPairs g c relation ↔ p ∈ relationPairs g' c relation) :
    keyRelations g c relation = keyRelations g' c relation := by
  have hset : ((relationPairs g c relation).map toLex).toFinset =
      ((relationPairs g' c relation).map toLex).toFinset := by
    ext p
    simp only [List.mem_toFinset, List.mem_map, h]
  rw [keyRelations, hset, keyRelations]

theorem mem_summariseAll {h : CommunityHierarchy} {clock : CommunityId → Int}
    {s : CommunitySummary} :
    s ∈ summariseAll g h clock ↔
      ∃ id c, h.communities.lookup id = some c ∧ summarise g c (clock id) = s := by
  simp only [summariseAll, List.mem_filterMap, List.mem_mergeSort, Option.map_eq_some_iff]
  constructor
  · rintro ⟨id, -, c, hc, hs⟩
    exact ⟨id, c, hc, hs⟩
  · rintro ⟨id, c, hc, hs⟩
    exact ⟨id, List.mem_map.mpr ⟨(id, c), Table.mem_rows_iff.mpr hc, rfl⟩, c, hc, hs⟩

theorem mem_scored {terms : List (List Char)} {summaries : List CommunitySummary}
    {score : Nat} {s : CommunitySummary} :
    (score, s) ∈ scored u store registry subject terms summaries ↔
      s ∈ summaries ∧ isVisible store registry subject s.scopeIds = true ∧
        0 < relevanceScore u terms s ∧ relevanceScore u terms s = score := by
  simp only [scored, List.mem_filterMap]
  constructor
  · rintro ⟨s', hmem, h⟩
    split_ifs at h with hvis hscore
    obtain ⟨rfl, rfl⟩ := Prod.mk.inj (Option.some.inj h)
    exact ⟨hmem, by simpa using hvis, hscore, rfl⟩
  · rintro ⟨hmem, hvis, hscore, rfl⟩
    exact ⟨s, hmem, by simp [hvis, hscore]⟩

theorem visible_of_route {query : String} {summaries : List CommunitySummary} {limit : Nat}
    {s : CommunitySummary} (h : s ∈ route u store registry subject query summaries limit) :
    s ∈ summaries ∧ isVisible store registry subject s.scopeIds = true := by
  unfold route at h
  simp only at h
  split_ifs at h
  · simp at h
  · obtain ⟨⟨score, s'⟩, hmem, rfl⟩ := List.mem_map.mp h
    have hscored := mem_scored.mp (List.mem_mergeSort.mp (List.mem_of_mem_take hmem))
    exact ⟨hscored.1, hscored.2.1⟩

theorem Unicode.lower_of_all (u : Unicode) {s : List Char}
    (h : s.all (fun c => c.toNat < 128) = true) : u.toLowercase s = s.map Char.toLower :=
  u.lower_ascii s fun c hc => by simpa using List.all_eq_true.mp h c hc

theorem tokenise_community (u : Unicode) :
    tokenise u "community" = ["community".toList] := by
  have hlower : u.toLowercase "community".toList = "community".toList := by
    rw [u.lower_of_all (by decide)]
    decide
  have hall : "community".toList.all Char.isAlphanum = true := by decide
  have hletters : ∀ c ∈ "community".toList, (!u.isAlphanumeric c) = false := by
    intro c hc
    simp [u.alphanumeric_ascii c (List.all_eq_true.mp hall c hc)]
  rw [tokenise, hlower, List.splitOnP_eq_singleton hletters]
  decide

theorem community_in_text (u : Unicode) (concepts : List String)
    (relations : RelationType → List (String × String)) :
    "community".toList <:+: u.toLowercase (summaryText c concepts relations).toList := by
  obtain ⟨rest, hrest⟩ : ∃ rest : List Char, (summaryText c concepts relations).toList =
      "Community".toList ++ ' ' :: rest := by
    rw [summaryText, String.toList_append]
    exact ⟨_, rfl⟩
  have hlower : u.toLowercase "Community".toList = "community".toList := by
    rw [u.lower_of_all (by decide)]
    decide
  rw [hrest, u.lower_blank, hlower]
  exact (List.prefix_append _ _).isInfix

theorem route_community {summaries : List CommunitySummary} {s : CommunitySummary}
    (hmem : s ∈ summaries) (hvis : isVisible store registry subject s.scopeIds = true)
    (htext : "community".toList <:+: u.toLowercase s.summaryText.toList) :
    s ∈ route u store registry subject "community" summaries summaries.length := by
  have hscore : 0 < relevanceScore u ["community".toList] s := by
    simp only [relevanceScore, List.map_cons, List.map_nil, List.sum_cons, List.sum_nil,
      if_pos htext]
    omega
  have hscored := mem_scored.mpr ⟨hmem, hvis, hscore, rfl⟩
  rw [route, tokenise_community]
  simp only [List.isEmpty_cons, Bool.false_eq_true, ↓reduceIte]
  refine List.mem_map.mpr ⟨(relevanceScore u ["community".toList] s, s), ?_, rfl⟩
  rw [List.take_of_length_le]
  · exact List.mem_mergeSort.mpr hscored
  · rw [List.length_mergeSort]
    exact List.length_filterMap_le _ _

end Spec

section Visibility
open CommunitySummaryGenerator CommunityQueryRouter

/-- What a summary of the community shows stands on nodes and edges of scopes in view. -/
structure ShowsViewable (view : ScopeId → Bool) (g : ConceptGraph) (c : Community)
    (s : CommunitySummary) : Prop where
  concepts : ∀ l ∈ s.keyConcepts, ∃ m ∈ c.memberNodeIds, ∃ node, g.nodes.lookup m = some node ∧
    node.label = l ∧ view node.scopeId = true
  relations : ∀ relation, ∀ p ∈ s.keyRelations relation, ∃ id e, g.edges.lookup id = some e ∧
    Among c e ∧ e.relation = relation ∧ edgeLabels g e = p ∧ view e.scopeId = true

/-- Every hidden edge among the members says what an edge in view says too. -/
def Covered (view : ScopeId → Bool) (g : ConceptGraph) (c : Community) : Prop :=
  ∀ id e, g.edges.lookup id = some e → Among c e → view e.scopeId = false →
    ∃ id' e', g.edges.lookup id' = some e' ∧ Among c e' ∧ e'.relation = e.relation ∧
      edgeLabels g e' = edgeLabels g e ∧ view e'.scopeId = true

def NodesViewable (view : ScopeId → Bool) (g : ConceptGraph) (c : Community) : Prop :=
  ∀ m ∈ c.memberNodeIds, ∀ node, g.nodes.lookup m = some node → view node.scopeId = true

/-- The second graph differs only in hidden edges among the members. -/
structure HiddenEdit (view : ScopeId → Bool) (c : Community) (g g' : ConceptGraph) : Prop where
  nodes : ∀ id, g'.nodes.lookup id = g.nodes.lookup id
  edges : ∀ id e, view e.scopeId = true ∨ ¬Among c e →
    (g'.edges.lookup id = some e ↔ g.edges.lookup id = some e)

/-- Every hidden edge among the members of the first graph is said by some edge of the second. -/
def Repeats (view : ScopeId → Bool) (c : Community) (g g' : ConceptGraph) : Prop :=
  ∀ id e, g.edges.lookup id = some e → Among c e → view e.scopeId = false →
    ∃ id' e', g'.edges.lookup id' = some e' ∧ Among c e' ∧ e'.relation = e.relation ∧
      edgeLabels g' e' = edgeLabels g e

variable {view : ScopeId → Bool} {g g' : ConceptGraph} {c : Community}

theorem summarise_shows_iff (hnodes : NodesViewable view g c) (now : Int) :
    ShowsViewable view g c (summarise g c now) ↔ Covered view g c := by
  constructor
  · intro h id e hlookup hamong hhidden
    have hshown : edgeLabels g e ∈ (summarise g c now).keyRelations e.relation :=
      mem_keyRelations.mpr (mem_relationPairs.mpr ⟨id, e, hlookup, hamong, rfl, rfl⟩)
    exact h.relations e.relation _ hshown
  · intro h
    refine ⟨fun l hl => ?_, fun relation p hp => ?_⟩
    · obtain ⟨m, hm, node, hnode, hlabel⟩ := mem_keyConcepts.mp hl
      exact ⟨m, hm, node, hnode, hlabel, hnodes m hm node hnode⟩
    · obtain ⟨id, e, hlookup, hamong, rfl, rfl⟩ := mem_relationPairs.mp (mem_keyRelations.mp hp)
      by_cases hview : view e.scopeId = true
      · exact ⟨id, e, hlookup, hamong, rfl, rfl, hview⟩
      · exact h id e hlookup hamong (by simpa using hview)

theorem HiddenEdit.labels (h : HiddenEdit view c g g') (e : ConceptEdge) :
    edgeLabels g' e = edgeLabels g e := by
  simp only [edgeLabels, labelOf, ConceptGraph.getNode, h.nodes]

theorem HiddenEdit.symm (h : HiddenEdit view c g g') : HiddenEdit view c g' g :=
  ⟨fun id => (h.nodes id).symm, fun id e he => (h.edges id e he).symm⟩

theorem HiddenEdit.keyConcepts (h : HiddenEdit view c g g') :
    keyConcepts g' c = keyConcepts g c := by
  simp only [CommunitySummaryGenerator.keyConcepts, ConceptGraph.getNode, h.nodes]

theorem HiddenEdit.pairs_subset (h : HiddenEdit view c g g') (hrepeats : Repeats view c g g')
    {relation : RelationType} {p : String × String} (hp : p ∈ relationPairs g c relation) :
    p ∈ relationPairs g' c relation := by
  obtain ⟨id, e, hlookup, hamong, rfl, rfl⟩ := mem_relationPairs.mp hp
  by_cases hview : view e.scopeId = true
  · exact mem_relationPairs.mpr
      ⟨id, e, (h.edges id e (.inl hview)).mpr hlookup, hamong, rfl, h.labels e⟩
  · obtain ⟨id', e', hlookup', hamong', hrel, hlabels⟩ :=
      hrepeats id e hlookup hamong (by simpa using hview)
    exact mem_relationPairs.mpr ⟨id', e', hlookup', hamong', hrel, hlabels⟩

theorem repeats_of_keyRelations
    (h : CommunitySummaryGenerator.keyRelations g c = CommunitySummaryGenerator.keyRelations g' c) :
    Repeats view c g g' := by
  intro id e hlookup hamong _
  have hshown : edgeLabels g e ∈ CommunitySummaryGenerator.keyRelations g c e.relation :=
    mem_keyRelations.mpr (mem_relationPairs.mpr ⟨id, e, hlookup, hamong, rfl, rfl⟩)
  rw [h] at hshown
  exact mem_relationPairs.mp (mem_keyRelations.mp hshown)

theorem HiddenEdit.keyRelations_iff (h : HiddenEdit view c g g') :
    CommunitySummaryGenerator.keyRelations g' c = CommunitySummaryGenerator.keyRelations g c ↔
      Repeats view c g g' ∧ Repeats view c g' g := by
  constructor
  · exact fun heq => ⟨repeats_of_keyRelations heq.symm, repeats_of_keyRelations heq⟩
  · rintro ⟨hto, hback⟩
    funext relation
    exact keyRelations_congr fun p => ⟨h.symm.pairs_subset hback, h.pairs_subset hto⟩

theorem Sound.nodesViewable_iff (h : Sound g c) :
    (∀ scope ∈ c.scopeIds, view scope = true) ↔ NodesViewable view g c := by
  constructor
  · intro hview m hm node hnode
    obtain ⟨node', hnode', hscope⟩ := h.members m hm
    rw [hnode, Option.some.injEq] at hnode'
    exact hview _ (hnode' ▸ hscope)
  · intro hview scope hs
    obtain ⟨m, hm, node, hnode, rfl⟩ := h.scopes scope hs
    exact hview m hm node hnode

def hierarchyOf (det : CommunityDetector) (drawLeaf draw : Nat → CommunityId) (g : ConceptGraph) :
    CommunityHierarchy :=
  CommunityHierarchy.build draw (det.detect drawLeaf g)

variable (u : Unicode) (store : TupleStore) (registry : NamespaceRegistry) (subject : SubjectRef)
  (det : CommunityDetector) (drawLeaf draw : Nat → CommunityId) (clock : CommunityId → Int)

theorem routed_community (hg : Keyed g) {query : String} {limit : Nat} {s : CommunitySummary}
    (hs : s ∈ route u store registry subject query
      (summariseAll g (hierarchyOf det drawLeaf draw g) clock) limit) :
    ∃ c, (hierarchyOf det drawLeaf draw g).communities.lookup s.communityId = some c ∧
      summarise g c (clock s.communityId) = s ∧
      NodesViewable (viewable store registry subject) g c := by
  obtain ⟨hmem, hvis⟩ := visible_of_route hs
  obtain ⟨id, c, hlookup, rfl⟩ := mem_summariseAll.mp hmem
  obtain ⟨rfl, hsound⟩ := build_sound hg det drawLeaf draw id c hlookup
  refine ⟨c, hlookup, rfl, hsound.nodesViewable_iff.mp ?_⟩
  simp only [isVisible, Bool.and_eq_true, decide_eq_true_eq] at hvis
  exact hvis.2

theorem community_routed (hg : Keyed g) {id : CommunityId}
    (hlookup : (hierarchyOf det drawLeaf draw g).communities.lookup id = some c)
    (hview : NodesViewable (viewable store registry subject) g c) (hne : c.memberNodeIds ≠ ∅) :
    ∃ query limit, summarise g c (clock id) ∈ route u store registry subject query
      (summariseAll g (hierarchyOf det drawLeaf draw g) clock) limit := by
  obtain ⟨-, hsound⟩ := build_sound hg det drawLeaf draw id c hlookup
  refine ⟨"community", _, route_community (mem_summariseAll.mpr ⟨id, c, hlookup, rfl⟩) ?_
    (community_in_text u _ _)⟩
  obtain ⟨m, hm⟩ := Finset.nonempty_iff_ne_empty.mpr hne
  obtain ⟨node, -, hscope⟩ := hsound.members m hm
  simp only [isVisible, Bool.and_eq_true, decide_eq_true_eq]
  exact ⟨Finset.ne_empty_of_mem hscope, hsound.nodesViewable_iff.mpr hview⟩

/-- Summaries show only what is in view exactly when, in every community whose nodes are all in
view, each hidden edge repeats one in view; and an edit of hidden edges leaves a summary alone
exactly when each of the two graphs repeats the hidden edges of the other. -/
theorem routed_viewable_iff (hg : Keyed g) :
    ((∀ query limit, ∀ s ∈ route u store registry subject query
          (summariseAll g (hierarchyOf det drawLeaf draw g) clock) limit,
        ∃ c, (hierarchyOf det drawLeaf draw g).communities.lookup s.communityId = some c ∧
          ShowsViewable (viewable store registry subject) g c s) ↔
      ∀ id c, (hierarchyOf det drawLeaf draw g).communities.lookup id = some c →
        NodesViewable (viewable store registry subject) g c →
        Covered (viewable store registry subject) g c) ∧
    ∀ query limit, ∀ s ∈ route u store registry subject query
        (summariseAll g (hierarchyOf det drawLeaf draw g) clock) limit,
      ∀ c, (hierarchyOf det drawLeaf draw g).communities.lookup s.communityId = some c →
      ∀ g' now, HiddenEdit (viewable store registry subject) c g g' →
        (summarise g' c now).keyConcepts = s.keyConcepts ∧
        ((summarise g' c now).keyRelations = s.keyRelations ↔
          Repeats (viewable store registry subject) c g g' ∧
            Repeats (viewable store registry subject) c g' g) := by
  refine ⟨⟨fun h id c hlookup hview => ?_, fun h query limit s hs => ?_⟩,
    fun query limit s hs c hlookup g' now hedit => ?_⟩
  · by_cases hne : c.memberNodeIds = ∅
    · intro _ e _ hamong
      simp [Among, hne] at hamong
    · obtain ⟨query, limit, hs⟩ := community_routed u store registry subject det drawLeaf draw clock
        hg hlookup hview hne
      obtain ⟨c', hlookup', hshows⟩ := h query limit _ hs
      have hid : c.id = id := (build_sound hg det drawLeaf draw id c hlookup).1
      have heq : c' = c := by
        rw [← hid] at hlookup
        exact Option.some.inj (hlookup'.symm.trans hlookup)
      exact (summarise_shows_iff hview _).mp (heq ▸ hshows)
  · obtain ⟨c, hlookup, hsummary, hview⟩ :=
      routed_community u store registry subject det drawLeaf draw clock hg hs
    exact ⟨c, hlookup, hsummary ▸ (summarise_shows_iff hview _).mpr (h _ c hlookup hview)⟩
  · obtain ⟨c', hlookup', hsummary, -⟩ :=
      routed_community u store registry subject det drawLeaf draw clock hg hs
    have heq : c' = c := Option.some.inj (hlookup'.symm.trans hlookup)
    subst heq
    rw [← hsummary]
    exact ⟨hedit.keyConcepts, hedit.keyRelations_iff⟩

end Visibility

section Example
open CommunitySummaryGenerator CommunityQueryRouter

def ascii : Unicode where
  toLowercase s := s.map Char.toLower
  isAlphanumeric c := c.isAlphanum
  lower_ascii _ _ := rfl
  lower_blank s t := by simp
  alphanumeric_ascii _ h := h

def reader : SubjectRef := .direct .user 3

def readerStore : TupleStore := (TupleStore.new.upsert ⟨⟨.channel, 10⟩, .viewer, reader⟩).2

def linked (scope : ScopeId) : ConceptGraph where
  nodes := ((∅ : Table NodeId ConceptNode).insert 1
    ⟨1, "Atlas", "a project", 10, .canonical, none, 0, 0⟩).insert 2
    ⟨2, "Launch", "a milestone", 10, .canonical, none, 0, 0⟩
  edges := (∅ : Table EdgeId ConceptEdge).insert 5 ⟨5, 1, 2, .partOf, scope, 0⟩
  outgoing := Adjacency.push (Adjacency.orDefault (Adjacency.orDefault ∅ 1) 2) 1 5
  incoming := Adjacency.push (Adjacency.orDefault (Adjacency.orDefault ∅ 1) 2) 2 5

theorem node_linked {scope : ScopeId} {id : NodeId} {node : ConceptNode}
    (h : (linked scope).nodes.lookup id = some node) : node.id = id ∧ node.scopeId = 10 := by
  simp only [linked, Table.lookup_insert_ite] at h
  split_ifs at h with h2 h1
  · rw [← Option.some.inj h, h2]
    exact ⟨rfl, rfl⟩
  · rw [← Option.some.inj h, h1]
    exact ⟨rfl, rfl⟩
  · simp at h

theorem keyed_linked (scope : ScopeId) : Keyed (linked scope) := fun _ _ h => (node_linked h).1

theorem edge_linked {scope : ScopeId} {id : EdgeId} {e : ConceptEdge}
    (h : (linked scope).edges.lookup id = some e) : e.scopeId = scope := by
  simp only [linked, Table.lookup_insert_ite] at h
  split_ifs at h
  · rw [← Option.some.inj h]
  · simp at h

/-- An edge of the channel itself: nothing is hidden. -/
theorem routed_viewable_one_channel :
    Keyed (linked 10) ∧
    ∀ query limit, ∀ s ∈ route ascii readerStore .withDefaults reader query
        (summariseAll (linked 10) (hierarchyOf .new (fun _ => 100) (fun _ => 200) (linked 10))
          fun _ => 0) limit,
      ∃ c, (hierarchyOf .new (fun _ => 100) (fun _ => 200) (linked 10)).communities.lookup
          s.communityId = some c ∧
        ShowsViewable (viewable readerStore .withDefaults reader) (linked 10) c s := by
  refine ⟨keyed_linked 10, ?_⟩
  refine (routed_viewable_iff ascii readerStore .withDefaults reader .new (fun _ => 100)
    (fun _ => 200) (fun _ => 0) (keyed_linked 10)).1.mpr ?_
  intro _ c _ _ id e hlookup _ hhidden
  have hview : viewable readerStore .withDefaults reader 10 = true := by decide +kernel
  rw [edge_linked hlookup, hview] at hhidden
  cases hhidden

theorem detect_linked : ∃ c, new.detect (fun _ => 100) (linked 20) = [c] ∧
    c.memberNodeIds = {1, 2} := by
  have hincluded : (new.subgraph (linked 20)).included =
      Finset.cons 1 {2} (by decide) := by decide +kernel
  have hsort : (new.subgraph (linked 20)).included.sort uuidLe = [1, 2] := by
    rw [hincluded, Finset.sort_cons, Finset.sort_singleton]
    simp [uuidLe]
  have hcomponents : ((new.subgraph (linked 20)).components (fun _ => 100) [1, 2]
      ∅ 0).map Community.memberNodeIds = [{1, 2}] := by decide +kernel
  obtain ⟨c, hc, hmembers⟩ := List.map_eq_singleton_iff.mp hcomponents
  refine ⟨c, ?_, hmembers⟩
  rw [detect, hsort, hc, List.mergeSort_singleton]

/-- An edge of the channel 20, which the reader may not view, is shown all the same. -/
theorem hidden_edge_routed :
    Keyed (linked 20) ∧ viewable readerStore .withDefaults reader 20 = false ∧
    ¬∀ query limit, ∀ s ∈ route ascii readerStore .withDefaults reader query
        (summariseAll (linked 20) (hierarchyOf .new (fun _ => 100) (fun _ => 200) (linked 20))
          fun _ => 0) limit,
      ∃ c, (hierarchyOf .new (fun _ => 100) (fun _ => 200) (linked 20)).communities.lookup
          s.communityId = some c ∧
        ShowsViewable (viewable readerStore .withDefaults reader) (linked 20) c s := by
  have hhidden : viewable readerStore .withDefaults reader 20 = false := by decide +kernel
  have hview : viewable readerStore .withDefaults reader 10 = true := by decide +kernel
  refine ⟨keyed_linked 20, hhidden, fun h => ?_⟩
  obtain ⟨c, hdetect, hmembers⟩ := detect_linked
  have hlookup : (hierarchyOf .new (fun _ => 100) (fun _ => 200) (linked 20)).communities.lookup
      c.id = some c := by
    rw [hierarchyOf, hdetect, build_singleton, Table.lookup_insert_ite, if_pos rfl]
  have hnodes : NodesViewable (viewable readerStore .withDefaults reader) (linked 20) c := by
    intro m _ node hnode
    rw [(node_linked hnode).2, hview]
  obtain ⟨query, limit, hs⟩ := community_routed ascii readerStore .withDefaults reader .new
    (fun _ => 100) (fun _ => 200) (fun _ => 0) (keyed_linked 20) hlookup hnodes (by simp [hmembers])
  obtain ⟨c', hlookup', hshows⟩ := h query limit _ hs
  have heq : c' = c := Option.some.inj (hlookup'.symm.trans hlookup)
  have hcovered := (summarise_shows_iff hnodes 0).mp (heq ▸ hshows)
  obtain ⟨id, e, he, -, -, -, hscope⟩ := hcovered 5 ⟨5, 1, 2, .partOf, 20, 0⟩ (by decide +kernel)
    (by simp [Among, hmembers]) hhidden
  rw [edge_linked he, hhidden] at hscope
  cases hscope

end Example

end Knowledge.Reasoning
