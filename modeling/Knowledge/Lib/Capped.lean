import Mathlib.Data.List.Basic

/-!
Capped selections: the first so many elements of a list that pass a check. A stricter check under
a lower cap selects from the same elements, but it need not select fewer of them: an element that
it drops leaves room for a later one.
-/

set_option autoImplicit false

namespace Knowledge.Capped

section

variable {α : Type} {passes stricter : α → Bool} {cap lower : Nat} {l : List α} {c : α}

def firstPassing (passes : α → Bool) (cap : Nat) (l : List α) : List α := (l.filter passes).take cap

/-- Some occurrence of `c` passes and finds fewer than `cap` passing elements before it. -/
def Within (passes : α → Bool) (cap : Nat) (l : List α) (c : α) : Prop :=
  ∃ before after, l = before ++ c :: after ∧ passes c = true ∧ before.countP passes < cap

theorem within_cons_iff {x : α} :
    Within passes cap (x :: l) c ↔ (x = c ∧ passes c = true ∧ 0 < cap) ∨
      Within passes (if passes x = true then cap - 1 else cap) l c := by
  constructor
  · rintro ⟨before, after, hl, hc, hcount⟩
    cases before with
    | nil =>
      injection hl with hx _
      exact .inl ⟨hx, hc, by omega⟩
    | cons y ys =>
      injection hl with hx hl
      subst hx
      refine .inr ⟨ys, after, hl, hc, ?_⟩
      rw [List.countP_cons] at hcount
      by_cases hx : passes x = true
      · simp only [hx, if_true] at hcount ⊢
        omega
      · simpa [hx] using hcount
  · rintro (⟨rfl, hc, hcap⟩ | ⟨before, after, rfl, hc, hcount⟩)
    · exact ⟨[], l, by simp, hc, by simpa using hcap⟩
    · refine ⟨x :: before, after, by simp, hc, ?_⟩
      rw [List.countP_cons]
      by_cases hx : passes x = true
      · simp only [hx, if_true] at hcount ⊢
        omega
      · simpa [hx] using hcount

theorem mem_firstPassing_iff : c ∈ firstPassing passes cap l ↔ Within passes cap l c := by
  induction l generalizing cap with
  | nil => simp [firstPassing, Within]
  | cons x xs ih =>
    rw [within_cons_iff, ← ih]
    by_cases hx : passes x = true
    · cases cap with
      | zero => simp [firstPassing]
      | succ cap =>
        simp only [firstPassing, List.filter_cons_of_pos hx, List.take_succ_cons, List.mem_cons,
          hx, if_true, Nat.add_sub_cancel]
        constructor
        · rintro (rfl | h)
          · exact .inl ⟨rfl, hx, by omega⟩
          · exact .inr h
        · rintro (⟨rfl, -, -⟩ | h)
          · exact .inl rfl
          · exact .inr h
    · simp only [firstPassing, List.filter_cons_of_neg hx, if_neg hx]
      constructor
      · exact .inr
      · rintro (⟨rfl, hc, -⟩ | h)
        · exact absurd hc hx
        · exact h

/-- What stands before a first occurrence stands before every occurrence. -/
theorem isPrefix_of_notMem {before after before' after' : List α} (hc : c ∉ before)
    (h : before ++ c :: after = before' ++ c :: after') : ∃ rest, before' = before ++ rest := by
  rcases List.append_eq_append_iff.mp h with ⟨rest, hrest, -⟩ | ⟨rest, hrest, htail⟩
  · exact ⟨rest, hrest⟩
  · cases rest with
    | nil => exact ⟨[], by simpa using hrest.symm⟩
    | cons y ys =>
      injection htail with hy _
      subst hy
      exact absurd (by simp [hrest]) hc

theorem Within.first (h : Within passes cap l c) :
    ∃ before after, l = before ++ c :: after ∧ c ∉ before ∧ passes c = true ∧
      before.countP passes < cap := by
  obtain ⟨before, after, rfl, hc, hcount⟩ := h
  obtain ⟨front, back, hl, hfront⟩ :=
    List.eq_append_cons_of_mem (show c ∈ before ++ c :: after by simp)
  obtain ⟨rest, rfl⟩ := isPrefix_of_notMem hfront hl.symm
  refine ⟨front, back, hl, hfront, hc, ?_⟩
  rw [List.countP_append] at hcount
  omega

/-- A new element finds the wider cap full and the lower one open: the stricter check has dropped
one of those that filled the wider cap. -/
def Freed (passes stricter : α → Bool) (cap lower : Nat) (l : List α) : Prop :=
  ∃ before c after, l = before ++ c :: after ∧ c ∉ before ∧ stricter c = true ∧
    cap ≤ before.countP passes ∧ before.countP stricter < lower

/-- A stricter selection is part of the wider one exactly when no slot is freed. -/
theorem firstPassing_subset_iff (hstrict : ∀ x, stricter x = true → passes x = true) :
    (∀ x ∈ firstPassing stricter lower l, x ∈ firstPassing passes cap l) ↔
      ¬Freed passes stricter cap lower l := by
  simp only [mem_firstPassing_iff]
  constructor
  · rintro h ⟨before, x, after, hl, hx, hpass, hfull, hroom⟩
    obtain ⟨before', after', hl', -, hcount⟩ := h x ⟨before, after, hl, hpass, hroom⟩
    obtain ⟨rest, rfl⟩ := isPrefix_of_notMem hx (hl ▸ hl')
    rw [List.countP_append] at hcount
    omega
  · intro h x hx
    obtain ⟨before, after, hl, hnew, hpass, hroom⟩ := hx.first
    refine ⟨before, after, hl, hstrict x hpass, ?_⟩
    by_contra hfull
    exact h ⟨before, x, after, hl, hnew, hpass, by omega, hroom⟩

/-- Dropping beforehand what is never selected changes nothing. -/
theorem firstPassing_filter {keep : α → Bool} (h : ∀ x, Within passes cap l x → keep x = true) :
    firstPassing passes cap (l.filter keep) = firstPassing passes cap l := by
  induction l generalizing cap with
  | nil => rfl
  | cons x xs ih =>
    have htail := ih fun y hy => h y (within_cons_iff.mpr (.inr hy))
    by_cases hx : passes x = true
    · cases cap with
      | zero => simp [firstPassing]
      | succ cap =>
        have hkeep : keep x = true := h x (within_cons_iff.mpr (.inl ⟨rfl, hx, by omega⟩))
        simp only [hx, if_true, Nat.add_sub_cancel] at htail
        rw [List.filter_cons_of_pos hkeep]
        simpa [firstPassing, hx] using htail
    · simp only [hx] at htail
      by_cases hkeep : keep x = true
      · rw [List.filter_cons_of_pos hkeep]
        simpa [firstPassing, hx] using htail
      · rw [List.filter_cons_of_neg hkeep]
        simpa [firstPassing, hx] using htail

end

end Knowledge.Capped
