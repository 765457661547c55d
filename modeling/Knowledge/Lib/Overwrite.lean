import Mathlib.Data.Finset.Card

/-!
A set of values that words are said about, one after the other. A value takes the place of the
whole set, unless it is already in it; no value empties the set.
-/

set_option autoImplicit false

namespace Knowledge.Overwrite

variable {α : Type} [DecidableEq α]

def only : Option α → Finset α
  | none => ∅
  | some a => {a}

def turn (s : Finset α) : Option α → Finset α
  | none => ∅
  | some a => if a ∈ s then s else {a}

/-- A word that changes the set, whatever stands in it beside. -/
def Strikes (s : Finset α) (w : Option α) : Prop := ∀ a, w = some a → a ∉ s

instance (s : Finset α) : (w : Option α) → Decidable (Strikes s w)
  | none => isTrue fun _ h => nomatch h
  | some a => decidable_of_iff (a ∉ s) ⟨fun h _ heq => Option.some.inj heq ▸ h, fun h => h a rfl⟩

omit [DecidableEq α] in
theorem only_card (w : Option α) : (only w).card ≤ 1 := by
  cases w <;> simp [only]

section

variable {s : Finset α}

theorem turn_of_strikes {w : Option α} (h : Strikes s w) : turn s w = only w := by
  cases w with
  | none => rfl
  | some a => exact if_neg (h a rfl)

theorem turn_of_not_strikes {w : Option α} (h : ¬ Strikes s w) : turn s w = s := by
  cases w with
  | none => exact absurd (fun _ heq => nomatch heq) h
  | some a =>
    by_cases ha : a ∈ s
    · exact if_pos ha
    · exact absurd (fun _ heq => Option.some.inj heq ▸ ha) h

/-- A set of one value at most is left with what the word says. -/
theorem turn_of_card (h : s.card ≤ 1) (w : Option α) : turn s w = only w := by
  cases w with
  | none => rfl
  | some a =>
    by_cases ha : a ∈ s
    · have hsub : {a} ⊆ s := Finset.singleton_subset_iff.mpr ha
      rw [turn, if_pos ha, only]
      exact (Finset.eq_of_subset_of_card_le hsub (by simpa using h)).symm
    · exact if_neg ha

theorem foldl_turn_of_card (h : s.card ≤ 1) (ws : List (Option α)) (w : Option α) :
    (ws ++ [w]).foldl turn s = only w := by
  induction ws generalizing s with
  | nil => exact turn_of_card h w
  | cons v ws ih =>
    have hcard : (turn s v).card ≤ 1 := (turn_of_card h v).symm ▸ only_card v
    exact ih hcard

theorem foldl_turn_of_none {ws : List (Option α)} (h : ∀ w ∈ ws, ¬ Strikes s w) :
    ws.foldl turn s = s := by
  induction ws with
  | nil => rfl
  | cons w ws ih =>
    rw [List.foldl_cons, turn_of_not_strikes (h w List.mem_cons_self)]
    exact ih fun v hv => h v (List.mem_cons_of_mem _ hv)

/-- The first word that changes the set leaves one value at most for those after it. -/
theorem foldl_turn_of_some {ws : List (Option α)} {w : Option α}
    (h : ∃ v ∈ ws ++ [w], Strikes s v) : (ws ++ [w]).foldl turn s = only w := by
  induction ws with
  | nil =>
    obtain ⟨v, hv, hstrikes⟩ := h
    obtain rfl := List.mem_singleton.mp hv
    exact turn_of_strikes hstrikes
  | cons v ws ih =>
    by_cases hv : Strikes s v
    · have hcard : (turn s v).card ≤ 1 := (turn_of_strikes hv).symm ▸ only_card v
      exact foldl_turn_of_card hcard ws w
    · rw [List.cons_append, List.foldl_cons, turn_of_not_strikes hv]
      obtain ⟨x, hx, hstrikes⟩ := h
      rcases List.mem_cons.mp hx with rfl | hx
      · exact absurd hstrikes hv
      · exact ih ⟨x, hx, hstrikes⟩

/-- The last word stands alone in the end just when the set had one value at most or some word
changed it. -/
theorem foldl_turn_eq_only_iff {ws : List (Option α)} {w : Option α} :
    (ws ++ [w]).foldl turn s = only w ↔ s.card ≤ 1 ∨ ∃ v ∈ ws ++ [w], Strikes s v := by
  constructor
  · intro h
    by_cases hsome : ∃ v ∈ ws ++ [w], Strikes s v
    · exact .inr hsome
    · have hs : (ws ++ [w]).foldl turn s = s :=
        foldl_turn_of_none fun v hv hstrikes => hsome ⟨v, hv, hstrikes⟩
      rw [h] at hs
      exact .inl (hs ▸ only_card w)
  · rintro (hcard | hsome)
    · exact foldl_turn_of_card hcard ws w
    · exact foldl_turn_of_some hsome

end

/-- The same words a second time change nothing. -/
theorem foldl_turn_twice (s : Finset α) (ws : List (Option α)) :
    ws.foldl turn (ws.foldl turn s) = ws.foldl turn s := by
  rcases ws.eq_nil_or_concat' with rfl | ⟨ws, w, rfl⟩
  · rfl
  · by_cases hsome : ∃ v ∈ ws ++ [w], Strikes s v
    · rw [foldl_turn_of_some hsome]
      exact foldl_turn_of_card (only_card w) ws w
    · have hs : (ws ++ [w]).foldl turn s = s :=
        foldl_turn_of_none fun v hv hstrikes => hsome ⟨v, hv, hstrikes⟩
      rw [hs, hs]

end Knowledge.Overwrite
