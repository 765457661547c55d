import Mathlib.Data.List.Basic
import Mathlib.Algebra.Group.Int.Defs

/-!
Counting in fixed windows. A counter that takes at most `n` events a window and begins a window
no earlier than the last one is over sees at most `2n` events in any stretch of one window's
length, wherever the stretch begins.
-/

set_option autoImplicit false

namespace Knowledge.Window

/-- How many events lie in the stretch of this length that begins at `a`. -/
def within (length a : Int) (log : List Int) : Nat :=
  log.countP fun e => a ≤ e ∧ e < a+length

theorem countP_le_add {α : Type} {p q r : α → Bool} {l : List α}
    (h : ∀ x ∈ l, p x = true → q x = true ∨ r x = true) :
    l.countP p ≤ l.countP q+l.countP r := by
  induction l with
  | nil => simp
  | cons x l ih =>
    have hx := h x List.mem_cons_self
    have hl := ih fun y hy => h y (List.mem_cons_of_mem _ hy)
    simp only [List.countP_cons]
    cases hp : p x <;> cases hq : q x <;> cases hr : r x <;> simp_all <;> omega

/-- The events so far, the window that is open, if one is, and how much of it is used: the open
window holds at most `n` events, and so does the stretch that ends where it begins. -/
structure Spaced (length : Int) (n : Nat) (log : List Int) (start : Option Int) (count : Nat)
    (clock : Int) : Prop where
  bound : ∀ a, within length a log ≤ 2*n
  past : ∀ e ∈ log, e ≤ clock
  closed : start = none → (∀ e ∈ log, e < clock) ∧
    ∀ t, clock ≤ t → within length (t-length) log ≤ n
  opened : ∀ s, start = some s → s ≤ clock ∧ count ≤ n ∧ (log.countP fun e => s ≤ e) ≤ count ∧
    (∀ e ∈ log, e < s+length) ∧ within length (s-length) log ≤ n

namespace Spaced

variable {length : Int} {n count : Nat} {log : List Int} {start : Option Int} {clock now : Int}

theorem nil : Spaced length n [] none 0 clock := by
  refine ⟨fun a => ?_, fun e he => ?_, fun _ => ⟨fun e he => ?_, fun t _ => ?_⟩, fun s hs => ?_⟩
  · simp [within]
  · cases he
  · cases he
  · simp [within]
  · cases hs

theorem later (h : Spaced length n log start count clock) (hnow : clock ≤ now) :
    Spaced length n log start count now := by
  refine ⟨h.bound, fun e he => Int.le_trans (h.past e he) hnow, fun hs => ?_, fun s hs => ?_⟩
  · obtain ⟨hlt, hstretch⟩ := h.closed hs
    exact ⟨fun e he => Int.lt_of_lt_of_le (hlt e he) hnow,
      fun t ht => hstretch t (Int.le_trans hnow ht)⟩
  · obtain ⟨hle, hrest⟩ := h.opened s hs
    exact ⟨Int.le_trans hle hnow, hrest⟩

/-- Without an open window the count says nothing. -/
theorem forget (h : Spaced length n log none count clock) : Spaced length n log none 0 clock :=
  ⟨h.bound, h.past, h.closed, fun s hs => by cases hs⟩

/-- Once the open window is over, whatever ends from then on has seen only that window. -/
theorem close {s : Int} (h : Spaced length n log (some s) count clock) (hnow : clock ≤ now)
    (hover : length ≤ now-s) : Spaced length n log none 0 now := by
  obtain ⟨hle, hcount, hused, hlt, -⟩ := h.opened s rfl
  refine ⟨h.bound, fun e he => Int.le_trans (h.past e he) hnow, fun _ => ⟨fun e he => ?_, ?_⟩,
    fun s hs => ?_⟩
  · have := hlt e he
    omega
  · intro t ht
    have hmono : within length (t-length) log ≤ log.countP fun e => s ≤ e := by
      refine List.countP_mono_left fun e _ he => ?_
      simp only [decide_eq_true_eq] at he ⊢
      omega
    omega
  · cases hs

theorem begin (h : Spaced length n log none count clock) (hnow : clock ≤ now)
    (hlength : 0 < length) : Spaced length n log (some now) 0 now := by
  obtain ⟨hlt, hstretch⟩ := h.closed rfl
  refine ⟨h.bound, fun e he => Int.le_trans (h.past e he) hnow, fun hs => ?_, fun s hs => ?_⟩
  · cases hs
  · obtain rfl := Option.some.inj hs
    refine ⟨Int.le_refl _, Nat.zero_le _, ?_, fun e he => ?_, hstretch now hnow⟩
    · rw [Nat.le_zero, List.countP_eq_zero]
      intro e he
      have := hlt e he
      simp only [decide_eq_true_eq]
      omega
    · have := hlt e he
      omega

/-- A stretch that holds the new event lies in the open window and the stretch before it. -/
theorem admits {s : Int} (h : Spaced length n log (some s) count now) (hcount : count < n)
    (hwindow : now < s+length) : Spaced length n (now :: log) (some s) (count+1) now := by
  obtain ⟨hle, -, hused, hlt, hbefore⟩ := h.opened s rfl
  have hsplit : ∀ a, now-length < a →
      within length a log ≤ within length (s-length) log+log.countP fun e => s ≤ e := by
    intro a ha
    refine countP_le_add fun e _ he => ?_
    simp only [decide_eq_true_eq] at he ⊢
    omega
  refine ⟨fun a => ?_, fun e he => ?_, fun hs => ?_, fun s' hs => ?_⟩
  · have hold := h.bound a
    have hnew := hsplit a
    simp only [within, List.countP_cons, decide_eq_true_eq] at hold hnew ⊢
    split
    · have := hnew (by omega)
      simp only [within] at hbefore
      omega
    · omega
  · obtain rfl | he := List.mem_cons.mp he
    · exact Int.le_refl _
    · exact h.past e he
  · cases hs
  · obtain rfl := Option.some.inj hs
    refine ⟨hle, hcount, ?_, fun e he => ?_, ?_⟩
    · simp only [List.countP_cons, decide_eq_true_eq, hle, if_true]
      omega
    · obtain rfl | he := List.mem_cons.mp he
      · exact hwindow
      · exact hlt e he
    · simp only [within, List.countP_cons, decide_eq_true_eq] at hbefore ⊢
      rw [if_neg (by omega)]
      exact hbefore

end Spaced

end Knowledge.Window
