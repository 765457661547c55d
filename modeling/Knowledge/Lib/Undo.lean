import Mathlib.Data.List.Basic

/-!
Operations that can be taken back. A list of operations, each of which fits where the ones
before it have led, is undone by its inverses in reverse order, and these fit in turn.
-/

set_option autoImplicit false

namespace Knowledge.Undo

/-- What an operation does, what takes it back, and the states it can be taken back in. -/
structure Reversible (σ ο : Type) where
  apply : ο → σ → σ
  inverse : ο → ο
  Fits : ο → σ → Prop
  inverse_fits : ∀ op s, Fits op s → Fits (inverse op) (apply op s)
  inverse_apply : ∀ op s, Fits op s → apply (inverse op) (apply op s) = s

namespace Reversible

variable {σ ο : Type} (r : Reversible σ ο)

def replay (ops : List ο) (s : σ) : σ := ops.foldl (fun s op => r.apply op s) s

def FitAll : List ο → σ → Prop
  | [], _ => True
  | op :: rest, s => r.Fits op s ∧ FitAll rest (r.apply op s)

variable {r}

@[simp]
theorem replay_nil (s : σ) : r.replay [] s = s := rfl

@[simp]
theorem replay_cons (op : ο) (ops : List ο) (s : σ) :
    r.replay (op :: ops) s = r.replay ops (r.apply op s) := rfl

theorem replay_append (ops ops' : List ο) (s : σ) :
    r.replay (ops ++ ops') s = r.replay ops' (r.replay ops s) := List.foldl_append

theorem fitAll_append {ops ops' : List ο} {s : σ} :
    r.FitAll (ops ++ ops') s ↔ r.FitAll ops s ∧ r.FitAll ops' (r.replay ops s) := by
  induction ops generalizing s with
  | nil => simp [FitAll]
  | cons op ops ih => simp only [List.cons_append, FitAll, ih, replay_cons, and_assoc]

variable (r) in
/-- The operations that take a list of operations back. -/
def undoing (ops : List ο) : List ο := ops.reverse.map r.inverse

theorem undoing_cons (op : ο) (ops : List ο) :
    r.undoing (op :: ops) = r.undoing ops ++ [r.inverse op] := by
  simp [undoing]

theorem replay_undoing {ops : List ο} {s : σ} (h : r.FitAll ops s) :
    r.replay (r.undoing ops) (r.replay ops s) = s := by
  induction ops generalizing s with
  | nil => rfl
  | cons op ops ih =>
    obtain ⟨hop, hrest⟩ := h
    rw [undoing_cons, replay_append, r.replay_cons op ops, ih hrest]
    exact r.inverse_apply op s hop

theorem fitAll_undoing {ops : List ο} {s : σ} (h : r.FitAll ops s) :
    r.FitAll (r.undoing ops) (r.replay ops s) := by
  induction ops generalizing s with
  | nil => trivial
  | cons op ops ih =>
    obtain ⟨hop, hrest⟩ := h
    rw [undoing_cons, fitAll_append, replay_cons, replay_undoing hrest]
    exact ⟨ih hrest, r.inverse_fits op s hop, trivial⟩

end Reversible

end Knowledge.Undo
