import Mathlib.Data.List.Basic

/-!
The occurrences of a pattern in a text, from the left and apart from each other, give way to
another text. A mark that only begins patterns of one length cuts a text into tokens.
-/

set_option autoImplicit false

namespace Knowledge.Replace

variable {α : Type} [DecidableEq α]

/-- The number counts what is left of the occurrence that is being passed. -/
def replaceFrom (pattern new : List α) : Nat → List α → List α
  | _, [] => []
  | skip+1, _ :: s => replaceFrom pattern new skip s
  | 0, c :: s =>
    if pattern.isPrefixOf (c :: s) then new ++ replaceFrom pattern new (pattern.length-1) s
    else c :: replaceFrom pattern new 0 s

def replace (pattern new s : List α) : List α := replaceFrom pattern new 0 s

theorem replaceFrom_skip (pattern new s t : List α) :
    replaceFrom pattern new s.length (s ++ t) = replace pattern new t := by
  induction s with
  | nil => rfl
  | cons c s ih => exact ih

theorem replace_cons_of_not {pattern new : List α} {c : α} {s : List α}
    (h : ¬ pattern.isPrefixOf (c :: s)) :
    replace pattern new (c :: s) = c :: replace pattern new s := by
  rw [replace, replaceFrom, if_neg h]
  rfl

theorem replace_append {pattern : List α} (new s : List α) (h : pattern ≠ []) :
    replace pattern new (pattern ++ s) = new ++ replace pattern new s := by
  cases pattern with
  | nil => exact absurd rfl h
  | cons c pattern =>
    have hprefix : (c :: pattern).isPrefixOf (c :: (pattern ++ s)) :=
      List.isPrefixOf_iff_prefix.mpr (List.prefix_append _ s)
    rw [replace, List.cons_append, replaceFrom, if_pos hprefix, List.length_cons,
      Nat.add_sub_cancel, replaceFrom_skip]

theorem replace_singleton (c : α) (new s : List α) :
    replace [c] new s = s.flatMap fun x => if x = c then new else [x] := by
  induction s with
  | nil => rfl
  | cons x s ih =>
    by_cases hx : x = c
    · subst hx
      rw [List.flatMap_cons, if_pos rfl, ← ih]
      exact replace_append new s (List.cons_ne_nil x [])
    · have hnot : ¬ [c].isPrefixOf (x :: s) := by
        simpa [List.isPrefixOf] using fun h : c = x => hx h.symm
      rw [List.flatMap_cons, if_neg hx, replace_cons_of_not hnot, ih]
      rfl

/-- One letter that is not the mark, or the mark with a number of others behind it. -/
def Token (mark : α) (n : Nat) (t : List α) : Prop :=
  (∃ c, c ≠ mark ∧ t = [c]) ∨ ∃ rest, t = mark :: rest ∧ mark ∉ rest ∧ rest.length = n

theorem replace_unmarked {mark : α} {pattern new : List α} (s t : List α) (h : mark ∉ s) :
    replace (mark :: pattern) new (s ++ t) = s ++ replace (mark :: pattern) new t := by
  induction s with
  | nil => rfl
  | cons c s ih =>
    obtain ⟨hc, hs⟩ := List.ne_and_not_mem_of_not_mem_cons h
    have hnot : ¬ (mark :: pattern).isPrefixOf (c :: (s ++ t)) := by
      intro hprefix
      exact hc (List.cons_prefix_cons.mp (List.isPrefixOf_iff_prefix.mp hprefix)).1
    rw [List.cons_append, replace_cons_of_not hnot, ih hs, List.cons_append]

/-- A marked pattern is found where a token is the pattern, and nowhere else. -/
theorem replace_flatten {mark : α} {pattern : List α} (new : List α) {ts : List (List α)}
    (h : ∀ t ∈ ts, Token mark pattern.length t) :
    replace (mark :: pattern) new ts.flatten =
      (ts.map fun t => if t = mark :: pattern then new else t).flatten := by
  induction ts with
  | nil => rfl
  | cons t ts ih =>
    have ih := ih fun t' ht => h t' (List.mem_cons_of_mem _ ht)
    rw [List.flatten_cons, List.map_cons, List.flatten_cons, ← ih]
    rcases h t List.mem_cons_self with ⟨c, hc, rfl⟩ | ⟨rest, rfl, hrest, hlength⟩
    · have hne : [c] ≠ mark :: pattern := fun heq => hc (List.cons.inj heq).1
      rw [if_neg hne]
      exact replace_unmarked [c] ts.flatten (by simpa using hc.symm)
    · by_cases heq : rest = pattern
      · subst heq
        rw [if_pos rfl]
        exact replace_append new ts.flatten (List.cons_ne_nil mark rest)
      · have hne : mark :: rest ≠ mark :: pattern := fun h => heq (List.cons.inj h).2
        have hnot : ¬ (mark :: pattern).isPrefixOf (mark :: (rest ++ ts.flatten)) := by
          intro hprefix
          have hprefix := (List.cons_prefix_cons.mp (List.isPrefixOf_iff_prefix.mp hprefix)).2
          have hsame := List.prefix_of_prefix_length_le hprefix (List.prefix_append rest ts.flatten)
            (Nat.le_of_eq hlength.symm)
          exact heq (hsame.eq_of_length hlength.symm).symm
        rw [if_neg hne, List.cons_append, replace_cons_of_not hnot,
          replace_unmarked rest ts.flatten hrest, List.cons_append]

theorem replace_flatMap {β : Type} {mark : α} {pattern : List α} (new : List α) {f g : β → List α}
    (hf : ∀ b, Token mark pattern.length (f b))
    (hg : ∀ b, g b = if f b = mark :: pattern then new else f b) (l : List β) :
    replace (mark :: pattern) new (l.flatMap f) = l.flatMap g := by
  rw [List.flatMap_def, replace_flatten new fun t ht => by
    obtain ⟨b, _, rfl⟩ := List.mem_map.mp ht
    exact hf b, List.map_map, List.flatMap_def]
  exact congrArg List.flatten (List.map_congr_left fun b _ => (hg b).symm)

end Knowledge.Replace
