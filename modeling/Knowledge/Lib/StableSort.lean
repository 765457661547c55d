import Mathlib.Data.List.Sort

/-!
Lists sorted by a score, the greatest first. The sort is stable, so the order of the list decides
between equal scores: the first few elements do not depend on it just in case every tie lies
behind them.
-/

set_option autoImplicit false

namespace Knowledge.StableSort

variable {α R : Type} [LinearOrder R] (score : α → R)

def byScore (l : List α) : List α := l.insertionSort fun a b => score b ≤ score a

def better (l : List α) (a : α) : Nat := l.countP fun b => score a < score b

/-- Equal scores are only found behind the first `n` elements. -/
def TiesBehind (n : Nat) (l : List α) : Prop :=
  ∀ a ∈ l, ∀ b ∈ l, a ≠ b → score a = score b → n ≤ better score l a

variable {score} {n : Nat} {l s : List α}

theorem perm_byScore (l : List α) : (byScore score l).Perm l := List.perm_insertionSort _ l

theorem sorted_byScore (l : List α) :
    (byScore score l).Pairwise fun a b => score b ≤ score a := by
  have : Std.Total fun a b : α => score b ≤ score a := ⟨fun a b => le_total _ _⟩
  have : IsTrans α fun a b => score b ≤ score a := ⟨fun a b c hab hbc => hbc.trans hab⟩
  exact List.pairwise_insertionSort _ l

theorem better_perm {l' : List α} (h : l.Perm l') (a : α) : better score l a = better score l' a :=
  h.countP_eq _

theorem better_lt_of_mem_take (hs : s.Pairwise fun a b => score b ≤ score a) {a : α}
    (ha : a ∈ s.take n) : better score s a < n := by
  obtain ⟨first, rest, htake⟩ := List.append_of_mem ha
  have hsplit : s = first ++ a :: (rest ++ s.drop n) := by
    calc s = s.take n ++ s.drop n := (List.take_append_drop n s).symm
      _ = first ++ a :: (rest ++ s.drop n) := by rw [htake, List.append_assoc, List.cons_append]
  have hlater : ∀ b ∈ a :: (rest ++ s.drop n), ¬score a < score b := by
    intro b hb
    rw [hsplit] at hs
    obtain rfl | hb := List.mem_cons.mp hb
    · exact lt_irrefl _
    · exact ((List.pairwise_cons.mp (List.pairwise_append.mp hs).2.1).1 b hb).not_gt
  have hnone : (a :: (rest ++ s.drop n)).countP (fun b => score a < score b) = 0 :=
    List.countP_eq_zero.mpr fun b hb => by simpa using hlater b hb
  have hfew := List.countP_le_length (p := fun b => decide (score a < score b)) (l := first)
  have hcount := congrArg List.length htake
  simp only [List.length_take, List.length_append, List.length_cons] at hcount
  rw [better, hsplit, List.countP_append, hnone]
  omega

theorem le_of_notMem_take (hs : s.Pairwise fun a b => score b ≤ score a) {a : α} (ha : a ∈ s)
    (hout : a ∉ s.take n) : (s.take n).length = n ∧ ∀ b ∈ s.take n, score a ≤ score b := by
  have hdrop : a ∈ s.drop n := by
    rw [← List.take_append_drop n s] at ha
    exact (List.mem_append.mp ha).resolve_left hout
  refine ⟨?_, fun b hb => ?_⟩
  · have hpos := List.length_pos_of_mem hdrop
    simp only [List.length_drop] at hpos
    simp only [List.length_take]
    omega
  · rw [← List.take_append_drop n s] at hs
    exact (List.pairwise_append.mp hs).2.2 b hb a hdrop

theorem mem_take_of_perm (hties : TiesBehind score n s) {s' : List α}
    (hs : s.Pairwise fun a b => score b ≤ score a)
    (hs' : s'.Pairwise fun a b => score b ≤ score a) (hperm : s.Perm s') {a : α}
    (ha : a ∈ s.take n) : a ∈ s'.take n := by
  have hfew := better_lt_of_mem_take hs ha
  have hmem := List.mem_of_mem_take ha
  by_contra hout
  obtain ⟨hlength, hle⟩ := le_of_notMem_take hs' (hperm.mem_iff.mp hmem) hout
  have hstrict : ∀ b ∈ s'.take n, score a < score b := by
    intro b hb
    refine (hle b hb).lt_of_ne fun heq => ?_
    have hne : a ≠ b := fun h => hout (h ▸ hb)
    have hmany := hties a hmem b (hperm.mem_iff.mpr (List.mem_of_mem_take hb)) hne heq
    omega
  have hall : (s'.take n).countP (fun b => score a < score b) = n := by
    rw [List.countP_eq_length.mpr fun b hb => by simpa using hstrict b hb, hlength]
  have hle := (List.take_sublist n s').countP_le (p := fun b => decide (score a < score b))
  rw [better_perm hperm] at hfew
  unfold better at hfew
  omega

theorem take_eq_of_perm (hnodup : s.Nodup) (hties : TiesBehind score n s) {s' : List α}
    (hs : s.Pairwise fun a b => score b ≤ score a)
    (hs' : s'.Pairwise fun a b => score b ≤ score a) (hperm : s.Perm s') :
    s.take n = s'.take n := by
  have hties' : TiesBehind score n s' := by
    intro a ha b hb hne heq
    rw [← better_perm hperm]
    exact hties a (hperm.mem_iff.mpr ha) b (hperm.mem_iff.mpr hb) hne heq
  have hstrict : ∀ {t : List α}, t.Nodup → TiesBehind score n t →
      t.Pairwise (fun a b => score b ≤ score a) →
        (t.take n).Pairwise fun a b => score b < score a := by
    intro t hnodup hties ht
    refine ((ht.and hnodup).sublist (List.take_sublist n t)).imp_of_mem fun {a b} ha hb hab => ?_
    refine hab.1.lt_of_ne fun heq => ?_
    have hmany := hties a (List.mem_of_mem_take ha) b (List.mem_of_mem_take hb) hab.2 heq.symm
    have hfew := better_lt_of_mem_take ht ha
    omega
  have : Std.Antisymm fun a b : α => score b < score a := ⟨fun a b h h' => absurd h' h.asymm⟩
  have : Std.Irrefl fun a b : α => score b < score a := ⟨fun a => lt_irrefl _⟩
  refine (hstrict hnodup hties hs).eq_of_mem_iff
    (hstrict (hperm.nodup_iff.mp hnodup) hties' hs') fun a => ?_
  exact ⟨mem_take_of_perm hties hs hs' hperm, mem_take_of_perm hties' hs' hs hperm.symm⟩

/-- The first of equal scores comes right after those that score better. -/
theorem getElem?_byScore_cons (a : α) (l : List α) :
    (byScore score (a :: l))[better score (a :: l) a]? = some a := by
  have hlength : ∀ t : List α, t.Pairwise (fun a b => score b ≤ score a) →
      (t.takeWhile fun b => ¬score b ≤ score a).length = better score t a := by
    intro t ht
    induction t with
    | nil => rfl
    | cons b t ih =>
      obtain ⟨hfirst, hrest⟩ := List.pairwise_cons.mp ht
      have ih := ih hrest
      by_cases hb : score a < score b
      · simpa [better, hb] using ih
      · have hnone : t.countP (fun c => score a < score c) = 0 :=
          List.countP_eq_zero.mpr fun c hc => by
            simpa using (hfirst c hc).trans (not_lt.mp hb)
        simp [better, hb, hnone]
  have hself : better score (a :: l) a = better score (byScore score l) a := by
    rw [better_perm (perm_byScore l)]
    simp [better]
  rw [byScore, List.insertionSort_cons_eq_take_drop, hself, ← hlength _ (sorted_byScore l)]
  simp [byScore]

/-- Whatever the order of a list, its best few are the same ones: just in case all ties lie behind
them. -/
theorem take_byScore_iff (score : α → R) (n : Nat) (hnodup : l.Nodup) :
    (∀ l₁ l₂ : List α, l₁.Perm l → l₂.Perm l →
      (byScore score l₁).take n = (byScore score l₂).take n) ↔ TiesBehind score n l := by
  classical
  constructor
  · intro h a ha b hb hne heq
    by_contra hfew
    have hboth : better score l b = better score l a := by
      simp only [better, heq]
    have hfirst : ∀ c ∈ l, better score l c < n →
        ((byScore score (c :: l.erase c)).take n)[better score l c]? = some c := by
      intro c hc hlt
      rw [List.getElem?_take_of_lt hlt, better_perm (List.perm_cons_erase hc)]
      exact getElem?_byScore_cons c _
    have hsame := h (a :: l.erase a) (b :: l.erase b) (List.perm_cons_erase ha).symm
      (List.perm_cons_erase hb).symm
    have hfa := hfirst a ha (by omega)
    have hfb := hfirst b hb (by omega)
    rw [hboth, ← hsame, hfa] at hfb
    exact hne (Option.some.inj hfb)
  · intro hties l₁ l₂ h₁ h₂
    have hperm : (byScore score l₁).Perm l := (perm_byScore l₁).trans h₁
    have hties₁ : TiesBehind score n (byScore score l₁) := by
      intro a ha b hb hne heq
      rw [better_perm hperm]
      exact hties a (hperm.mem_iff.mp ha) b (hperm.mem_iff.mp hb) hne heq
    exact take_eq_of_perm (hperm.nodup_iff.mpr hnodup) hties₁ (sorted_byScore l₁)
      (sorted_byScore l₂) (hperm.trans ((perm_byScore l₂).trans h₂).symm)

end Knowledge.StableSort
