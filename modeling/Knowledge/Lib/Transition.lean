import Mathlib.Logic.Relation

/-!
Labelled transition systems, the states their runs reach, and the two rules every
safety result below is an instance of: an invariant holds in every reachable state,
and a step of a restricted system meets the condition it was restricted to.
-/

set_option autoImplicit false

namespace Knowledge.Transition

/-- The states a run may start in and the labelled steps it may take. -/
structure System (σ α : Type) where
  init : σ → Prop
  step : σ → α → σ → Prop

/-- The same system with every step held to a condition on the state it leaves
and on its label. Nothing is asked of the state the step leads to. -/
def System.restrict {σ α : Type} (m : System σ α) (g : σ → α → Prop) : System σ α :=
  ⟨m.init, fun s a t => m.step s a t ∧ g s a⟩

/-- The same steps, from one given state on. -/
def System.startingAt {σ α : Type} (m : System σ α) (s : σ) : System σ α := ⟨(· = s), m.step⟩

inductive System.Reachable {σ α : Type} (m : System σ α) : σ → Prop where
  | init {s : σ} : m.init s → m.Reachable s
  | step {s t : σ} {a : α} : m.Reachable s → m.step s a t → m.Reachable t

theorem System.Reachable.invariant {σ α : Type} {m : System σ α} (I : σ → Prop)
    (hinit : ∀ s, m.init s → I s) (hstep : ∀ s a t, m.Reachable s → I s → m.step s a t → I t)
    {s : σ} (h : m.Reachable s) : I s := by
  induction h with
  | init h => exact hinit _ h
  | step hr hs ih => exact hstep _ _ _ hr ih hs

theorem System.Reachable.of_restrict {σ α : Type} {m : System σ α} {g : σ → α → Prop}
    {s : σ} (h : (m.restrict g).Reachable s) : m.Reachable s := by
  induction h with
  | init h => exact .init h
  | step _ hs ih => exact .step ih hs.1

/-- Where each state that the restricted system reaches meets the condition on its own, the
restriction takes no state away. -/
theorem System.Reachable.restrict_of {σ α : Type} {m : System σ α} {g : σ → α → Prop} {s : σ}
    (h : m.Reachable s) (hg : ∀ s a, (m.restrict g).Reachable s → g s a) :
    (m.restrict g).Reachable s := by
  induction h with
  | init h => exact .init h
  | step _ hs ih => exact .step ih ⟨hs, hg _ _ ih⟩

/-- A system that a relation ties to another one: it starts where the other may start, and
each of its steps is matched by a state the other one reaches from there. -/
theorem System.Reachable.simulate {σ τ α β : Type} {m : System σ α} {n : System τ β}
    (R : σ → τ → Prop) (hinit : ∀ s, m.init s → ∃ t, n.init t ∧ R s t)
    (hstep : ∀ s a s' t, m.Reachable s → R s t → n.Reachable t → m.step s a s' →
      ∃ t', n.Reachable t' ∧ R s' t')
    {s : σ} (h : m.Reachable s) : ∃ t, n.Reachable t ∧ R s t := by
  induction h with
  | init h =>
    obtain ⟨t, ht, hR⟩ := hinit _ h
    exact ⟨t, .init ht, hR⟩
  | step hr hs ih =>
    obtain ⟨t, ht, hR⟩ := ih
    exact hstep _ _ _ t hr hR ht hs

/-- A system whose labels, where they may be taken, determine what they do. -/
def System.ofNext {σ α : Type} (init : σ → Prop) (guard : σ → α → Prop) (next : σ → α → σ) :
    System σ α := ⟨init, fun s a t => guard s a ∧ t = next s a⟩

/-- Every label of the list, oldest first, may be taken when its turn comes. -/
def Legal {σ α : Type} (guard : σ → α → Prop) (next : σ → α → σ) : σ → List α → Prop
  | _, [] => True
  | s, a :: as => guard s a ∧ Legal guard next (next s a) as

/-- A condition on the labels may as well be part of the guard. -/
theorem System.Reachable.guard_and {σ α : Type} {init : σ → Prop} {guard cond : σ → α → Prop}
    {next : σ → α → σ} {s : σ} (h : ((System.ofNext init guard next).restrict cond).Reachable s) :
    (System.ofNext init (fun s a => guard s a ∧ cond s a) next).Reachable s := by
  induction h with
  | init h => exact .init h
  | step _ hs ih => exact ih.step ⟨⟨hs.1.1, hs.2⟩, hs.1.2⟩

instance Legal.decidable {σ α : Type} (guard : σ → α → Prop) (next : σ → α → σ)
    [∀ s a, Decidable (guard s a)] : ∀ (s : σ) (as : List α), Decidable (Legal guard next s as)
  | _, [] => isTrue trivial
  | s, a :: as =>
    have := Legal.decidable guard next (next s a) as
    inferInstanceAs (Decidable (guard s a ∧ Legal guard next (next s a) as))

theorem Legal.congr {σ α : Type} {P Q : σ → α → Prop} {next : σ → α → σ}
    (h : ∀ s a, P s a ↔ Q s a) (s : σ) (as : List α) : Legal P next s as ↔ Legal Q next s as := by
  induction as generalizing s with
  | nil => exact Iff.rfl
  | cons a as ih => exact and_congr (h s a) (ih _)

theorem Legal.reachable_restrict {σ α : Type} {init : σ → Prop} {guard cond : σ → α → Prop}
    {next : σ → α → σ} {s : σ} {as : List α} (h : Legal (fun s a => guard s a ∧ cond s a) next s as)
    (hr : ((System.ofNext init guard next).restrict cond).Reachable s) :
    ((System.ofNext init guard next).restrict cond).Reachable (as.foldl next s) := by
  induction as generalizing s with
  | nil => exact hr
  | cons a as ih => exact ih h.2 (hr.step ⟨⟨h.1.1, rfl⟩, h.1.2⟩)

theorem Legal.reachable {σ α : Type} {init : σ → Prop} {guard : σ → α → Prop}
    {next : σ → α → σ} {s : σ} {as : List α} (h : Legal guard next s as)
    (hr : (System.ofNext init guard next).Reachable s) :
    (System.ofNext init guard next).Reachable (as.foldl next s) := by
  induction as generalizing s with
  | nil => exact hr
  | cons a as ih => exact ih h.2 (hr.step ⟨h.1, rfl⟩)

end Knowledge.Transition
