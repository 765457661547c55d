import Mathlib.Data.List.Basic

/-!
Counting the members of a list that satisfy a test, as one of them changes or a new one comes:
the arithmetic of conserved tokens.
-/

set_option autoImplicit false

namespace Knowledge.Tally

theorem countP_set_add {T : Type} {l : List T} {i : Nat} {a : T} (p : T → Bool)
    (h : l[i]? = some a) (b : T) :
    (l.set i b).countP p + (p a).toNat = l.countP p + (p b).toNat := by
  induction l generalizing i with
  | nil => simp at h
  | cons x rest ih =>
    cases i with
    | zero =>
      simp only [List.getElem?_cons_zero, Option.some.injEq] at h
      subst h
      simp only [List.set_cons_zero, List.countP_cons]
      cases p x <;> cases p b <;> simp
    | succ i =>
      rw [List.getElem?_cons_succ] at h
      have := ih h
      simp only [List.set_cons_succ, List.countP_cons]
      omega

theorem countP_concat {T : Type} (l : List T) (p : T → Bool) (b : T) :
    (l ++ [b]).countP p = l.countP p + (p b).toNat := by
  cases h : p b <;> simp [h]

theorem countP_pos_of_getElem? {T : Type} {l : List T} {i : Nat} {a : T} {p : T → Bool}
    (h : l[i]? = some a) (hp : p a = true) : 0 < l.countP p :=
  List.countP_pos_iff.mpr ⟨a, List.mem_of_getElem? h, hp⟩

/-- Two places with members that satisfy the test. -/
theorem two_le_countP {T : Type} {l : List T} {i j : Nat} {a b : T} {p : T → Bool}
    (hi : l[i]? = some a) (hj : l[j]? = some b) (hij : i ≠ j) (ha : p a = true)
    (hb : p b = true) : 2 ≤ l.countP p := by
  induction l generalizing i j with
  | nil => simp at hi
  | cons x rest ih =>
    rw [List.countP_cons]
    cases i with
    | zero =>
      cases j with
      | zero => exact absurd rfl hij
      | succ j =>
        obtain rfl : x = a := by simpa using hi
        have := countP_pos_of_getElem? (by simpa using hj) hb
        rw [if_pos ha]
        omega
    | succ i =>
      cases j with
      | zero =>
        obtain rfl : x = b := by simpa using hj
        have := countP_pos_of_getElem? (by simpa using hi) ha
        rw [if_pos hb]
        omega
      | succ j =>
        have := ih (by simpa using hi) (by simpa using hj) (by omega)
        omega

theorem getElem?_set_cases {T : Type} {l : List T} {i j : Nat} {a b : T}
    (h : (l.set i a)[j]? = some b) : i = j ∧ b = a ∨ i ≠ j ∧ l[j]? = some b := by
  by_cases hij : i = j
  · subst hij
    obtain ⟨hlt, hb⟩ := List.getElem?_eq_some_iff.mp h
    rw [List.getElem_set_self] at hb
    exact .inl ⟨rfl, hb.symm⟩
  · rw [List.getElem?_set_ne hij] at h
    exact .inr ⟨hij, h⟩

/-- What holds of every member holds after one of them changes, if it holds of the change. -/
theorem forall_mem_set {T : Type} {l : List T} {i : Nat} {b : T} {P : T → Prop}
    (h : ∀ a ∈ l, P a) (hb : P b) : ∀ a ∈ l.set i b, P a := by
  intro a ha
  obtain ha | rfl := List.mem_or_eq_of_mem_set ha
  · exact h a ha
  · exact hb

end Knowledge.Tally
