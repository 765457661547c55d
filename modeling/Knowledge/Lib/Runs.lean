import Mathlib.Data.List.SplitBy

/-!
A list cut between neighbours that a test does not join: the cut as more elements are read, and that
no part of the list whose neighbours are all joined reaches across it.
-/

set_option autoImplicit false

namespace Knowledge.Runs

variable {α : Type} {r : α → α → Bool} {l : List α}

theorem splitBy_snoc_joined {gs : List (List α)} {g : List α} (h : l.splitBy r = gs ++ [g])
    (hne : g ≠ []) {a : α} (hjoin : r (g.getLast hne) a = true) :
    (l ++ [a]).splitBy r = gs ++ [g ++ [a]] := by
  rw [List.splitBy_eq_iff] at h ⊢
  obtain ⟨hwhole, hnil, hchain, hcuts⟩ := h
  obtain ⟨hbefore, -, hlast⟩ := List.isChain_append.mp hcuts
  have hnone : [] ∉ gs ++ [g ++ [a]] := by
    rw [List.mem_append, not_or] at hnil
    simp [hnil.1]
  refine ⟨by simp [hwhole], hnone, ?_, ?_⟩
  · intro m hm
    rcases List.mem_append.mp hm with hm | hm
    · exact hchain m (List.mem_append_left [g] hm)
    · obtain rfl := List.mem_singleton.mp hm
      refine List.isChain_append.mpr ⟨hchain g (by simp), .singleton a, ?_⟩
      intro x hx y hy
      rw [List.getLast?_eq_some_getLast hne] at hx
      obtain rfl := Option.some.inj hx
      obtain rfl := Option.some.inj hy
      exact hjoin
  · refine List.isChain_append.mpr ⟨hbefore, .singleton _, ?_⟩
    intro x hx y hy
    obtain rfl := Option.some.inj hy
    obtain ⟨hx', hg, hcut⟩ := hlast x hx g rfl
    refine ⟨hx', by simp, ?_⟩
    rw [List.head_append_of_ne_nil hg]
    exact hcut

theorem splitBy_snoc_cut {a : α} (hcut : ∀ x ∈ l.getLast?, r x a = false) :
    (l ++ [a]).splitBy r = l.splitBy r ++ [[a]] := List.splitBy_append_cons [] hcut

/-- A part whose neighbours are all joined lies on one side of each cut. -/
theorem splitBy_maximal (r : α → α → Bool) (l : List α) :
    (l.splitBy r).IsChain fun s t => ∀ xs ys, xs ≠ [] → ys ≠ [] → xs <:+ s → ys <+: t →
      ¬ (xs ++ ys).IsChain fun a b => r a b := by
  refine (List.isChain_getLast_head_splitBy r l).imp ?_
  intro s t hcut xs ys hxs hys hsuffix hprefix hchain
  obtain ⟨hs, ht, hcut⟩ := hcut
  obtain ⟨before, rfl⟩ := hsuffix
  obtain ⟨after, rfl⟩ := hprefix
  rw [List.getLast_append_of_ne_nil _ hxs, List.head_append_of_ne_nil hys] at hcut
  obtain ⟨-, -, hjoin⟩ := List.isChain_append.mp hchain
  have htrue := hjoin _ (List.getLast?_eq_some_getLast hxs) _ (List.head?_eq_some_head hys)
  rw [hcut] at htrue
  cases htrue

end Knowledge.Runs
