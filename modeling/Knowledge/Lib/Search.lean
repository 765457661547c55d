import Mathlib.Algebra.BigOperators.Group.Finset.Basic
import Mathlib.Data.Fintype.Basic

/-!
Graph search. A worklist that gathers everything reachable from a start, and a depth-first
search for a hit that shares one set of visited nodes between all the questions it asks.
-/

set_option autoImplicit false

namespace Knowledge.Search

section Gather

/-- A worklist: pop a value, keep it if it is new, and push what follows from it. -/
def gather {R : Type} [DecidableEq R] [Fintype R] (next : R → List R) (out : List R) :
    List R → List R
  | [] => out
  | r :: stack =>
    if r ∈ out then gather next out stack
    else gather next (out ++ [r]) ((next r).reverse ++ stack)
termination_by stack => stack.length+(Finset.univ.filter (· ∉ out)).sum fun r => (next r).length
decreasing_by
  · simp
  · rename_i hr
    have hmem : r ∈ Finset.univ.filter (· ∉ out) := by simp [hr]
    have herase : Finset.univ.filter (· ∉ out ++ [r]) = (Finset.univ.filter (· ∉ out)).erase r := by
      ext x
      simp [and_comm]
    have hsum := Finset.add_sum_erase _ (fun r => (next r).length) hmem
    simp only [herase, List.length_append, List.length_reverse, List.length_cons]
    omega

variable {R : Type} [DecidableEq R] [Fintype R] {next : R → List R}

/-- What holds of everything on the stack and is passed on holds of everything gathered. -/
theorem gather_induction {P : R → Prop} (hnext : ∀ r, P r → ∀ c ∈ next r, P c) (out stack : List R)
    (hout : ∀ r ∈ out, P r) (hstack : ∀ r ∈ stack, P r) : ∀ r ∈ gather next out stack, P r := by
  fun_induction gather next out stack with
  | case1 out => exact hout
  | case2 out r stack hr ih => exact ih hout (fun s hs => hstack s (List.mem_cons_of_mem _ hs))
  | case3 out r stack hr ih =>
    have hP : P r := hstack r List.mem_cons_self
    refine ih (fun s hs => ?_) (fun s hs => ?_)
    · obtain hs | hs := List.mem_append.mp hs
      · exact hout s hs
      · obtain rfl := List.mem_singleton.mp hs
        exact hP
    · obtain hs | hs := List.mem_append.mp hs
      · exact hnext r hP s (List.mem_reverse.mp hs)
      · exact hstack s (List.mem_cons_of_mem _ hs)

theorem gather_contains (out stack : List R) :
    ∀ r, r ∈ out ∨ r ∈ stack → r ∈ gather next out stack := by
  fun_induction gather next out stack with
  | case1 out => simp
  | case2 out r stack hr ih =>
    intro s hs
    refine ih s ?_
    obtain hs | hs := hs
    · exact .inl hs
    · obtain rfl | hs := List.mem_cons.mp hs
      · exact .inl hr
      · exact .inr hs
  | case3 out r stack hr ih =>
    intro s hs
    refine ih s ?_
    simp only [List.mem_append, List.mem_cons] at hs ⊢
    tauto

/-- Everything gathered has what follows from it gathered too. -/
theorem gather_closed (out stack : List R) (h : ∀ r ∈ out, ∀ c ∈ next r, c ∈ out ∨ c ∈ stack) :
    ∀ r ∈ gather next out stack, ∀ c ∈ next r, c ∈ gather next out stack := by
  fun_induction gather next out stack with
  | case1 out => simpa using h
  | case2 out r stack hr ih =>
    refine ih (fun s hs c hc => ?_)
    obtain hc | hc := h s hs c hc
    · exact .inl hc
    · obtain rfl | hc := List.mem_cons.mp hc
      · exact .inl hr
      · exact .inr hc
  | case3 out r stack hr ih =>
    refine ih (fun s hs c hc => ?_)
    obtain hs | hs := List.mem_append.mp hs
    · have := h s hs c hc
      simp only [List.mem_append, List.mem_cons] at this ⊢
      tauto
    · obtain rfl := List.mem_singleton.mp hs
      exact .inr (List.mem_append_left _ (List.mem_reverse.mpr hc))

/-- A worklist that starts with one value gathers what is reachable from it. -/
theorem mem_gather_iff (start r : R) :
    r ∈ gather next [] [start] ↔ Relation.ReflTransGen (fun a b => b ∈ next a) start r := by
  constructor
  · intro h
    refine gather_induction (fun a ha c hc => ha.tail hc) [] [start] (by simp) ?_ r h
    simp [Relation.ReflTransGen.refl]
  · intro h
    induction h with
    | refl => exact gather_contains [] [start] start (by simp)
    | tail _ hb ih => exact gather_closed [] [start] (by simp) _ ih _ hb

end Gather

/-- What an edge out of a node leads to: the goal, another question, or nothing. -/
inductive Edge (Q : Type) where
  | hit
  | ask (q : Q)
  | miss

section Search

variable {Q N : Type} (nodes : Q → List N) (edges : N → List (Edge Q))

/-- A question has a finite derivation: one of its nodes has a hit, or asks a question
that has one. -/
inductive Derives : Q → Prop where
  | hit {q : Q} {n : N} : n ∈ nodes q → .hit ∈ edges n → Derives q
  | ask {q q' : Q} {n : N} : n ∈ nodes q → .ask q' ∈ edges n → Derives q' → Derives q

variable [DecidableEq N]

def scan (ask : Q → Finset N → Option (Bool × Finset N)) :
    List (Edge Q) → Finset N → Option (Bool × Finset N)
  | [], visited => some (false, visited)
  | .hit :: _, visited => some (true, visited)
  | .miss :: rest, visited => scan ask rest visited
  | .ask q :: rest, visited => do
    let (found, visited) ← ask q visited
    if found then some (true, visited) else scan ask rest visited

def visit (ask : Q → Finset N → Option (Bool × Finset N)) :
    List N → Finset N → Option (Bool × Finset N)
  | [], visited => some (false, visited)
  | n :: rest, visited =>
    if n ∈ visited then visit ask rest visited
    else do
      let (found, visited) ← scan ask (edges n) (insert n visited)
      if found then some (true, visited) else visit ask rest visited

/-- The search, to a bounded depth of questions. -/
def search : Nat → Q → Finset N → Option (Bool × Finset N)
  | 0, _, _ => none
  | fuel+1, q, visited => visit edges (search fuel) (nodes q) visited

/-- A node that is done with: it has no hit, and all it asks about has been visited. -/
structure Settled (visited : Finset N) (n : N) : Prop where
  hit : .hit ∉ edges n
  ask : ∀ q, .ask q ∈ edges n → ∀ m ∈ nodes q, m ∈ visited

/-- What a result says about a question that was asked with these nodes visited. The nodes
visited before may still be under way. -/
structure Answers (q : Q) (visited : Finset N) (result : Bool × Finset N) : Prop where
  grows : visited ⊆ result.2
  sound : result.1 = true → Derives nodes edges q
  asked : result.1 = false → ∀ n ∈ nodes q, n ∈ result.2
  settled : result.1 = false → ∀ n ∈ result.2, n ∉ visited → Settled nodes edges result.2 n

/-- The same for the edges of one node. -/
structure Scanned (es : List (Edge Q)) (visited : Finset N) (result : Bool × Finset N) :
    Prop where
  grows : visited ⊆ result.2
  sound : result.1 = true → .hit ∈ es ∨ ∃ q, .ask q ∈ es ∧ Derives nodes edges q
  noHit : result.1 = false → .hit ∉ es
  asked : result.1 = false → ∀ q, .ask q ∈ es → ∀ n ∈ nodes q, n ∈ result.2
  settled : result.1 = false → ∀ n ∈ result.2, n ∉ visited → Settled nodes edges result.2 n

variable {nodes edges}

omit [DecidableEq N] in
theorem Settled.mono {visited visited' : Finset N} {n : N} (h : Settled nodes edges visited n)
    (hs : visited ⊆ visited') : Settled nodes edges visited' n :=
  ⟨h.hit, fun q hq m hm => hs (h.ask q hq m hm)⟩

/-- Two stages, one after the other, settle what each of them adds. -/
theorem settled_trans {visited visited' visited'' : Finset N} (hs : visited' ⊆ visited'')
    (h : ∀ n ∈ visited', n ∉ visited → Settled nodes edges visited' n)
    (h' : ∀ n ∈ visited'', n ∉ visited' → Settled nodes edges visited'' n) :
    ∀ n ∈ visited'', n ∉ visited → Settled nodes edges visited'' n := by
  intro n hn hv
  by_cases hn' : n ∈ visited'
  · exact (h n hn' hv).mono hs
  · exact h' n hn hn'

theorem scan_spec {ask : Q → Finset N → Option (Bool × Finset N)}
    (hask : ∀ q visited result, ask q visited = some result →
      Answers nodes edges q visited result)
    (es : List (Edge Q)) (visited : Finset N) {result : Bool × Finset N}
    (h : scan ask es visited = some result) : Scanned nodes edges es visited result := by
  induction es generalizing visited with
  | nil =>
    obtain rfl := Option.some.inj h
    exact ⟨subset_rfl, by simp, by simp, by simp, fun _ n hn hv => absurd hn hv⟩
  | cons e es ih =>
    cases e with
    | hit =>
      obtain rfl := Option.some.inj h
      exact ⟨subset_rfl, fun _ => .inl List.mem_cons_self, by simp, by simp, by simp⟩
    | miss =>
      have hr := ih visited h
      refine ⟨hr.grows, fun ht => ?_, fun hf => ?_, fun hf q hq => ?_, hr.settled⟩
      · obtain hhit | ⟨q, hq, hd⟩ := hr.sound ht
        · exact .inl (List.mem_cons_of_mem _ hhit)
        · exact .inr ⟨q, List.mem_cons_of_mem _ hq, hd⟩
      · simpa using hr.noHit hf
      · exact hr.asked hf q (by simpa using hq)
    | ask q =>
      obtain ⟨⟨found, visited'⟩, ha, h⟩ := Option.bind_eq_some_iff.mp h
      have hq := hask q visited _ ha
      cases found with
      | true =>
        obtain rfl := Option.some.inj h
        exact ⟨hq.grows, fun _ => .inr ⟨q, List.mem_cons_self, hq.sound rfl⟩, by simp, by simp,
          by simp⟩
      | false =>
        have hr := ih visited' h
        refine ⟨hq.grows.trans hr.grows, fun ht => ?_, fun hf => ?_, fun hf q' hq' => ?_,
          fun hf => settled_trans hr.grows (hq.settled rfl) (hr.settled hf)⟩
        · obtain hhit | ⟨q', hq', hd⟩ := hr.sound ht
          · exact .inl (List.mem_cons_of_mem _ hhit)
          · exact .inr ⟨q', List.mem_cons_of_mem _ hq', hd⟩
        · simpa using hr.noHit hf
        · obtain heq | hq' := List.mem_cons.mp hq'
          · obtain rfl := Edge.ask.inj heq
            exact fun n hn => hr.grows (hq.asked rfl n hn)
          · exact hr.asked hf q' hq'

theorem visit_spec {ask : Q → Finset N → Option (Bool × Finset N)}
    (hask : ∀ q visited result, ask q visited = some result →
      Answers nodes edges q visited result)
    {q : Q} (ns : List N) (hns : ∀ n ∈ ns, n ∈ nodes q) (visited : Finset N)
    {result : Bool × Finset N} (h : visit edges ask ns visited = some result) :
    visited ⊆ result.2 ∧ (result.1 = true → Derives nodes edges q) ∧
      (result.1 = false → (∀ n ∈ ns, n ∈ result.2) ∧
        ∀ n ∈ result.2, n ∉ visited → Settled nodes edges result.2 n) := by
  induction ns generalizing visited with
  | nil =>
    obtain rfl := Option.some.inj h
    exact ⟨subset_rfl, by simp, fun _ => ⟨by simp, fun n hn hv => absurd hn hv⟩⟩
  | cons n ns ih =>
    have hrest : ∀ m ∈ ns, m ∈ nodes q := fun m hm => hns m (List.mem_cons_of_mem _ hm)
    rw [visit] at h
    by_cases hn : n ∈ visited
    · rw [if_pos hn] at h
      obtain ⟨hg, ht, hf⟩ := ih hrest visited h
      refine ⟨hg, ht, fun hr => ⟨fun m hm => ?_, (hf hr).2⟩⟩
      obtain rfl | hm := List.mem_cons.mp hm
      · exact hg hn
      · exact (hf hr).1 m hm
    · rw [if_neg hn] at h
      obtain ⟨⟨found, visited'⟩, ha, h⟩ := Option.bind_eq_some_iff.mp h
      have hs := scan_spec hask (edges n) (insert n visited) ha
      have hgrow : visited ⊆ visited' := (Finset.subset_insert n visited).trans hs.grows
      cases found with
      | true =>
        obtain rfl := Option.some.inj h
        refine ⟨hgrow, fun _ => ?_, by simp⟩
        obtain hhit | ⟨q', hq', hd⟩ := hs.sound rfl
        · exact .hit (hns n List.mem_cons_self) hhit
        · exact .ask (hns n List.mem_cons_self) hq' hd
      | false =>
        obtain ⟨hg, ht, hf⟩ := ih hrest visited' h
        have hnew : ∀ m ∈ visited', m ∉ visited → Settled nodes edges visited' m := by
          intro m hm hv
          by_cases heq : m = n
          · subst heq
            exact ⟨hs.noHit rfl, hs.asked rfl⟩
          · exact hs.settled rfl m hm (by simp [heq, hv])
        refine ⟨hgrow.trans hg, ht, fun hr => ⟨fun m hm => ?_,
          settled_trans hg hnew (hf hr).2⟩⟩
        obtain rfl | hm := List.mem_cons.mp hm
        · exact hg (hs.grows (Finset.mem_insert_self _ _))
        · exact (hf hr).1 m hm

theorem search_spec (fuel : Nat) (q : Q) (visited : Finset N) (result : Bool × Finset N)
    (h : search nodes edges fuel q visited = some result) :
    Answers nodes edges q visited result := by
  induction fuel generalizing q visited result with
  | zero => cases h
  | succ fuel ih =>
    obtain ⟨hg, ht, hf⟩ := visit_spec ih (nodes q) (fun _ hn => hn) visited h
    exact ⟨hg, ht, fun hr => (hf hr).1, fun hr => (hf hr).2⟩

omit [DecidableEq N] in
/-- Nothing can be derived from nodes that are all done with. -/
theorem not_derives_of_settled {visited : Finset N}
    (h : ∀ n ∈ visited, Settled nodes edges visited n) {q : Q} (hd : Derives nodes edges q) :
    ¬∀ n ∈ nodes q, n ∈ visited := by
  induction hd with
  | hit hn hhit => exact fun hq => (h _ (hq _ hn)).hit hhit
  | ask hn hask _ ih => exact fun hq => ih ((h _ (hq _ hn)).ask _ hask)

theorem card_unseen_mono {live visited visited' : Finset N} (h : visited ⊆ visited') :
    (live \ visited').card ≤ (live \ visited).card :=
  Finset.card_le_card (Finset.sdiff_subset_sdiff subset_rfl h)

theorem card_unseen_insert {live visited : Finset N} {n : N} (hl : n ∈ live) (hv : n ∉ visited) :
    (live \ insert n visited).card < (live \ visited).card := by
  refine Finset.card_lt_card (Finset.ssubset_iff_subset_ne.mpr ⟨?_, fun heq => ?_⟩)
  · exact Finset.sdiff_subset_sdiff subset_rfl (Finset.subset_insert _ _)
  · have hmem : n ∈ live \ visited := Finset.mem_sdiff.mpr ⟨hl, hv⟩
    rw [← heq] at hmem
    simp at hmem

theorem scan_isSome {live : Finset N} {fuel : Nat}
    (ih : ∀ q visited, (live \ visited).card < fuel → (search nodes edges fuel q visited).isSome)
    (es : List (Edge Q)) (visited : Finset N) (h : es = [] ∨ (live \ visited).card < fuel) :
    (scan (search nodes edges fuel) es visited).isSome := by
  induction es generalizing visited with
  | nil => rfl
  | cons e es ihes =>
    have hcard : (live \ visited).card < fuel := by simpa using h
    cases e with
    | hit => rfl
    | miss => exact ihes visited (.inr hcard)
    | ask q =>
      obtain ⟨⟨found, visited'⟩, hq⟩ := Option.isSome_iff_exists.mp (ih q visited hcard)
      have hgrow := (search_spec fuel q visited _ hq).grows
      rw [scan, hq]
      cases found with
      | true => rfl
      | false => exact ihes visited' (.inr ((card_unseen_mono hgrow).trans_lt hcard))

theorem visit_isSome {live : Finset N} (hlive : ∀ n, edges n ≠ [] → n ∈ live) {fuel : Nat}
    (ih : ∀ q visited, (live \ visited).card < fuel → (search nodes edges fuel q visited).isSome)
    (ns : List N) (visited : Finset N) (h : (live \ visited).card < fuel+1) :
    (visit edges (search nodes edges fuel) ns visited).isSome := by
  induction ns generalizing visited with
  | nil => rfl
  | cons n ns ihns =>
    rw [visit]
    by_cases hn : n ∈ visited
    · rw [if_pos hn]
      exact ihns visited h
    · -- a node with edges leaves one node less to visit
      have hless : edges n = [] ∨ (live \ insert n visited).card < fuel := by
        by_cases he : edges n = []
        · exact .inl he
        · have := card_unseen_insert (hlive n he) hn
          exact .inr (by omega)
      obtain ⟨⟨found, visited'⟩, hs⟩ := Option.isSome_iff_exists.mp
        (scan_isSome ih (edges n) (insert n visited) hless)
      have hgrow := (scan_spec (search_spec fuel) _ _ hs).grows
      rw [if_neg hn, hs]
      cases found with
      | true => rfl
      | false =>
        have hsub := (Finset.subset_insert n visited).trans hgrow
        exact ihns visited' ((card_unseen_mono hsub).trans_lt h)

/-- Where the nodes that have edges are finitely many, the search comes to an end. -/
theorem search_isSome {live : Finset N} (hlive : ∀ n, edges n ≠ [] → n ∈ live) (fuel : Nat)
    (q : Q) (visited : Finset N) (hfuel : (live \ visited).card < fuel) :
    (search nodes edges fuel q visited).isSome := by
  induction fuel generalizing q visited with
  | zero => omega
  | succ fuel ih => exact visit_isSome hlive ih (nodes q) visited hfuel

/-- With enough fuel the search decides whether there is a derivation. -/
theorem search_decides {live : Finset N} (hlive : ∀ n, edges n ≠ [] → n ∈ live) {fuel : Nat}
    (hfuel : live.card < fuel) (q : Q) :
    ∃ found visited, search nodes edges fuel q ∅ = some (found, visited) ∧
      (found = true ↔ Derives nodes edges q) := by
  obtain ⟨⟨found, visited⟩, h⟩ := Option.isSome_iff_exists.mp
    (search_isSome hlive fuel q ∅ (by simpa using hfuel))
  have hspec := search_spec fuel q ∅ _ h
  refine ⟨found, visited, h, hspec.sound, fun hd => ?_⟩
  cases found with
  | true => rfl
  | false =>
    have hsettled := fun n hn => hspec.settled rfl n hn (by simp)
    exact absurd (hspec.asked rfl) (not_derives_of_settled hsettled hd)

end Search

end Knowledge.Search
