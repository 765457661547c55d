import Knowledge.Lib.Transition
import Mathlib.Data.List.Permutation

/-!
Calls that proceed in phases over a shared state, any number of them at once, and when what they
leave is what the acknowledged calls leave one after another: it is enough that a step that
acknowledges its call does what the whole call would do at that moment, and that every other
step changes nothing.
-/

set_option autoImplicit false

namespace Knowledge.Serial
open Knowledge.Transition

/-- A call begins in the first phase, takes at most `length` steps, and is acknowledged once it
is in a phase that says so. -/
structure Service (σ κ φ : Type) where
  first : φ
  length : Nat
  step : σ → κ → φ → σ × φ
  acked : φ → Bool

/-- The shared state and the calls that have been made, each with the phase it is in. -/
structure Threads (σ κ φ : Type) where
  shared : σ
  calls : List (κ × φ)

inductive Event (κ : Type) where
  | call (c : κ)
  | advance (i : Nat)

namespace Service

section

variable {σ κ φ : Type} (S : Service σ κ φ)

def next (t : Threads σ κ φ) : Event κ → Threads σ κ φ
  | .call c => { t with calls := t.calls ++ [(c, S.first)] }
  | .advance i =>
    match t.calls[i]? with
    | some (c, p) => ⟨(S.step t.shared c p).1, t.calls.set i (c, (S.step t.shared c p).2)⟩
    | none => t

def system (initial : σ) : System (Threads σ κ φ) (Event κ) :=
  .ofNext (· = ⟨initial, []⟩) (fun _ _ => True) S.next

/-- Every step is taken only where the condition holds of the shared state, the call and its
phase. -/
def Each (cond : σ → κ → φ → Prop) (t : Threads σ κ φ) : Event κ → Prop
  | .call _ => True
  | .advance i => ∀ c p, t.calls[i]? = some (c, p) → cond t.shared c p

def steps : Nat → σ → κ → φ → σ × φ
  | 0, s, _, p => (s, p)
  | n+1, s, c, p => steps n (S.step s c p).1 c (S.step s c p).2

/-- The call alone, to its end. -/
def whole (s : σ) (c : κ) : σ × φ := S.steps S.length s c S.first

/-- The calls one after another, as long as each is acknowledged. -/
def serial : σ → List κ → Option σ
  | s, [] => some s
  | s, c :: cs => if S.acked (S.whole s c).2 then serial (S.whole s c).1 cs else none

def acknowledged (t : Threads σ κ φ) : List κ :=
  (t.calls.filter fun e => S.acked e.2).map Prod.fst

/-- The step acknowledges its call, and does at once what the whole call would do; or it does not
acknowledge it and changes nothing. -/
def Commits (s : σ) (c : κ) (p : φ) : Prop :=
  (S.acked p = false ∧ S.acked (S.step s c p).2 = true ∧ S.whole s c = S.step s c p) ∨
    (S.acked (S.step s c p).2 = S.acked p ∧ (S.step s c p).1 = s)

instance (cond : σ → κ → φ → Prop) [∀ s c p, Decidable (cond s c p)] (t : Threads σ κ φ)
    (event : Event κ) : Decidable (Each cond t event) :=
  match event with
  | .call _ => isTrue trivial
  | .advance i =>
    match h : t.calls[i]? with
    | none => isTrue fun c p hi => by rw [h] at hi; cases hi
    | some (c, p) =>
      decidable_of_iff (cond t.shared c p) ⟨fun hc c' p' hi => by
        rw [h] at hi
        cases hi
        exact hc, fun hc => hc c p h⟩

end

section

variable {σ κ φ : Type} {S : Service σ κ φ}

theorem serial_concat (s : σ) (cs : List κ) (c : κ) :
    S.serial s (cs ++ [c]) = (S.serial s cs).bind fun s => S.serial s [c] := by
  induction cs generalizing s with
  | nil => rfl
  | cons d cs ih =>
    simp only [List.cons_append, serial]
    split
    · exact ih _
    · rfl

theorem next_advance {t : Threads σ κ φ} {i : Nat} {c : κ} {p : φ}
    (h : t.calls[i]? = some (c, p)) : S.next t (.advance i) =
      ⟨(S.step t.shared c p).1, t.calls.set i (c, (S.step t.shared c p).2)⟩ := by
  simp only [next, h]

theorem next_advance_none {t : Threads σ κ φ} {i : Nat} (h : t.calls[i]? = none) :
    S.next t (.advance i) = t := by
  simp only [next, h]

theorem acknowledged_call (t : Threads σ κ φ) (c : κ) (hfirst : S.acked S.first = false) :
    S.acknowledged (S.next t (.call c)) = S.acknowledged t := by
  simp [next, acknowledged, hfirst]

/-- A phase that is replaced adds its call, if it is acknowledged and the old one was not. -/
theorem perm_filter_set {α : Type} {q : α → Bool} {l : List α} {i : Nat} {x y : α}
    (h : l[i]? = some x) (hx : q x = false) (hy : q y = true) :
    ((l.set i y).filter q).Perm (y :: l.filter q) := by
  induction l generalizing i with
  | nil => simp at h
  | cons z l ih =>
    cases i with
    | zero =>
      obtain rfl : z = x := by simpa using h
      simp [hx, hy]
    | succ i =>
      have ih := ih (by simpa using h)
      simp only [List.set_cons_succ, List.filter_cons]
      split
      · exact (ih.cons z).trans (.swap y z _)
      · exact ih

theorem map_filter_set {α β : Type} {q : α → Bool} {f : α → β} {l : List α} {i : Nat} {x y : α}
    (h : l[i]? = some x) (hq : q y = q x) (hf : f y = f x) :
    ((l.set i y).filter q).map f = (l.filter q).map f := by
  induction l generalizing i with
  | nil => simp at h
  | cons z l ih =>
    cases i with
    | zero =>
      obtain rfl : z = x := by simpa using h
      simp only [List.set_cons_zero, List.filter_cons, hq]
      split <;> simp [hf]
    | succ i =>
      have ih := ih (by simpa using h)
      simp only [List.set_cons_succ, List.filter_cons]
      split <;> simp [ih]

/-- The acknowledged calls, in some order, one after another, leave the shared state. -/
def Serialised (S : Service σ κ φ) (initial : σ) (t : Threads σ κ φ) : Prop :=
  ∃ order : List κ, order.Perm (S.acknowledged t) ∧ S.serial initial order = some t.shared

theorem Serialised.advance {initial : σ} {t : Threads σ κ φ} (h : S.Serialised initial t) {i : Nat}
    (hcommits : ∀ c p, t.calls[i]? = some (c, p) → S.Commits t.shared c p) :
    S.Serialised initial (S.next t (.advance i)) := by
  cases hi : t.calls[i]? with
  | none => rwa [next_advance_none hi]
  | some e =>
    obtain ⟨c, p⟩ := e
    obtain ⟨order, hperm, hserial⟩ := h
    rw [next_advance hi]
    obtain ⟨hbefore, hafter, hwhole⟩ | ⟨hacked, hshared⟩ := hcommits c p hi
    · refine ⟨order ++ [c], ?_, ?_⟩
      · have hset := (perm_filter_set (q := fun e : κ × φ => S.acked e.2)
          (y := (c, (S.step t.shared c p).2)) hi hbefore hafter).map Prod.fst
        refine List.Perm.trans ?_ hset.symm
        exact (List.perm_append_comm).trans (hperm.cons c)
      · rw [serial_concat, hserial]
        simp [serial, hwhole, hafter]
    · refine ⟨order, ?_, ?_⟩
      · have hset : S.acknowledged ⟨(S.step t.shared c p).1,
            t.calls.set i (c, (S.step t.shared c p).2)⟩ = S.acknowledged t :=
          map_filter_set hi hacked rfl
        rwa [hset]
      · rw [hserial, hshared]

/-- Where every step of a run commits, the run is serialised. -/
theorem serialised_of_commits {cond : σ → κ → φ → Prop} {initial : σ}
    (hfirst : S.acked S.first = false) (hcommits : ∀ (t : Threads σ κ φ) (i : Nat) (c : κ) (p : φ),
      ((S.system initial).restrict (Each cond)).Reachable t → t.calls[i]? = some (c, p) → cond t.shared c p → S.Commits t.shared c p)
    {t : Threads σ κ φ} (h : ((S.system initial).restrict (Each cond)).Reachable t) :
    S.Serialised initial t := by
  refine System.Reachable.invariant (S.Serialised initial) ?_ ?_ h
  · rintro t rfl
    exact ⟨[], List.Perm.refl _, rfl⟩
  · rintro t event t' hr ht ⟨⟨-, rfl⟩, hcond⟩
    cases event with
    | call c =>
      obtain ⟨order, hperm, hserial⟩ := ht
      exact ⟨order, by rwa [acknowledged_call t c hfirst], hserial⟩
    | advance i =>
      exact ht.advance fun c p hi => hcommits t i c p hr hi (hcond c p hi)

/-- A view of the state that no order of the acknowledged calls leaves. -/
theorem not_serialised_of_view {β : Type} {initial : σ} {t : Threads σ κ φ} (view : σ → β)
    (h : ∀ order ∈ (S.acknowledged t).permutations',
      (S.serial initial order).map view ≠ some (view t.shared)) : ¬S.Serialised initial t := by
  rintro ⟨order, hperm, hserial⟩
  refine h order (List.mem_permutations'.mpr hperm) ?_
  rw [hserial]
  rfl

end

end Service

end Knowledge.Serial
