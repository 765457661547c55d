import Mathlib.Logic.Basic

/-!
Programs over a database, one of whose statements may fail: how they are put together, with
transactions that are rolled back, and rules for what holds where they succeed and where they
fail, whichever statement it is.
-/

set_option autoImplicit false

namespace Knowledge.Statements

/-- How many statements are still carried out before one fails; none does without a fuse. -/
abbrev Fuse := Option Nat

def Sql (σ ε α : Type) := Fuse → σ → Fuse × σ × Except ε α

namespace Sql

variable {σ ε α β : Type}

def done (a : α) : Sql σ ε α := fun fuse s => (fuse, s, .ok a)

def andThen (p : Sql σ ε α) (g : α → Sql σ ε β) : Sql σ ε β := fun fuse s =>
  match p fuse s with
  | (fuse, s, .ok a) => g a fuse s
  | (fuse, s, .error err) => (fuse, s, .error err)

instance : Monad (Sql σ ε) where
  pure := done
  bind := andThen

theorem andThen_done (p : Sql σ ε α) : p.andThen done = p := by
  funext fuse s
  unfold andThen
  rcases p fuse s with ⟨fuse', s', err | a⟩
  · rfl
  · rfl

theorem andThen_assoc {γ : Type} (p : Sql σ ε α) (f : α → Sql σ ε β) (g : β → Sql σ ε γ) :
    (p.andThen f).andThen g = p.andThen fun a => (f a).andThen g := by
  funext fuse s
  unfold andThen
  rcases p fuse s with ⟨fuse', s', err | a⟩
  · rfl
  · rfl

instance : LawfulMonad (Sql σ ε) :=
  .mk' _ andThen_done (fun _ _ => rfl) andThen_assoc

def throw (err : ε) : Sql σ ε α := fun fuse s => (fuse, s, .error err)

def compute (f : σ → Except ε (α × σ)) : Sql σ ε α := fun fuse s =>
  match f s with
  | .ok (a, s) => (fuse, s, .ok a)
  | .error err => (fuse, s, .error err)

/-- A statement that fails, by the fuse or by itself, leaves everything as it was. -/
def statement (broken : ε) (f : σ → Except ε (α × σ)) : Sql σ ε α
  | some 0, s => (none, s, .error broken)
  | some (n+1), s => compute f (some n) s
  | none, s => compute f none s

/-- A statement whose failure is passed over. -/
def attempt (p : Sql σ ε Unit) : Sql σ ε Unit := fun fuse s =>
  match p fuse s with
  | (fuse, s, _) => (fuse, s, .ok ())

/-- `BEGIN` and `COMMIT`, which may fail as any statement does. -/
def mark (broken : ε) : Sql σ ε Unit := statement broken fun s => .ok ((), s)

/-- `rollback` takes the state before and the one in which the transaction is given up. -/
def transaction (broken : ε) (rollback : σ → σ → σ) (p : Sql σ ε α) : Sql σ ε α := fun fuse s =>
  match (do mark broken; let a ← p; mark broken; return a : Sql σ ε α) fuse s with
  | (fuse, s', .ok a) => (fuse, s', .ok a)
  | (fuse, s', .error err) => (fuse, rollback s s', .error err)

theorem bind_ok {p : Sql σ ε α} {g : α → Sql σ ε β} {fuse fuse' : Fuse} {s s' : σ} {a : α}
    (h : p fuse s = (fuse', s', .ok a)) : (p >>= g) fuse s = g a fuse' s' := by
  change p.andThen g fuse s = _
  rw [andThen, h]

theorem bind_error {p : Sql σ ε α} {g : α → Sql σ ε β} {fuse fuse' : Fuse} {s s' : σ} {err : ε}
    (h : p fuse s = (fuse', s', .error err)) : (p >>= g) fuse s = (fuse', s', .error err) := by
  change p.andThen g fuse s = _
  rw [andThen, h]

/-- From states with `P`, whatever fails: `Q` of a result, and `E` after an error. -/
def Triple (P : σ → Prop) (p : Sql σ ε α) (Q : α → σ → Prop) (E : σ → Prop) : Prop :=
  ∀ fuse s, P s →
    match p fuse s with
    | (_, s', .ok a) => Q a s'
    | (_, s', .error _) => E s'

variable {P : σ → Prop} {E : σ → Prop}

namespace Triple

theorem pure {Q : α → σ → Prop} {a : α} (h : ∀ s, P s → Q a s) :
    Triple P (Pure.pure a : Sql σ ε α) Q E := fun _ s hs => h s hs

theorem throw {Q : α → σ → Prop} {err : ε} (h : ∀ s, P s → E s) :
    Triple P (Sql.throw err : Sql σ ε α) Q E := fun _ s hs => h s hs

theorem bind {p : Sql σ ε α} {g : α → Sql σ ε β} {Q : α → σ → Prop} {R : β → σ → Prop}
    (hp : Triple P p Q E) (hg : ∀ a, Triple (Q a) (g a) R E) : Triple P (p >>= g) R E := by
  intro fuse s hs
  have hfirst := hp fuse s hs
  rcases hrun : p fuse s with ⟨fuse', s', err | a⟩
  · rw [hrun] at hfirst
    rw [bind_error hrun]
    exact hfirst
  · rw [hrun] at hfirst
    rw [bind_ok hrun]
    exact hg a fuse' s' hfirst

theorem compute {f : σ → Except ε (α × σ)} {Q : α → σ → Prop} (herr : ∀ s, P s → E s)
    (hok : ∀ s a s', P s → f s = .ok (a, s') → Q a s') : Triple P (Sql.compute f) Q E := by
  intro fuse s hs
  unfold Sql.compute
  cases hf : f s with
  | error err => exact herr s hs
  | ok reply => exact hok s _ _ hs hf

theorem statement {broken : ε} {f : σ → Except ε (α × σ)} {Q : α → σ → Prop}
    (herr : ∀ s, P s → E s) (hok : ∀ s a s', P s → f s = .ok (a, s') → Q a s') :
    Triple P (Sql.statement broken f) Q E := by
  intro fuse s hs
  rcases fuse with _ | _ | n
  · exact Triple.compute herr hok none s hs
  · exact herr s hs
  · exact Triple.compute herr hok (some n) s hs

theorem attempt {p : Sql σ ε Unit} {Q : σ → Prop} (hp : Triple P p (fun _ => Q) Q) :
    Triple P (Sql.attempt p) (fun _ => Q) E := by
  intro fuse s hs
  have h := hp fuse s hs
  unfold Sql.attempt
  rcases hrun : p fuse s with ⟨fuse', s', a | err⟩
  · rw [hrun] at h
    exact h
  · rw [hrun] at h
    exact h

theorem mark {broken : ε} : Triple P (Sql.mark broken : Sql σ ε Unit) (fun _ => P) fun _ => True :=
  Triple.statement (fun _ _ => trivial) fun s a s' h heq => by
    obtain rfl : s = s' := congrArg Prod.snd (Except.ok.inj heq)
    exact h

theorem transaction {broken : ε} {rollback : σ → σ → σ} {p : Sql σ ε α} {Q : α → σ → Prop}
    (herr : ∀ s s', P s → E (rollback s s')) (hp : Triple P p Q fun _ => True) :
    Triple P (Sql.transaction broken rollback p) Q E := by
  intro fuse s hs
  have hbody : Triple P (do Sql.mark broken; let a ← p; Sql.mark broken; return a : Sql σ ε α) Q
      fun _ => True :=
    mark.bind fun _ => hp.bind fun a => mark.bind fun _ => .pure fun _ h => h
  have hrun := hbody fuse s hs
  unfold Sql.transaction
  rcases hreply : (do Sql.mark broken; let a ← p; Sql.mark broken; return a : Sql σ ε α) fuse s with
    ⟨fuse', s', err | a⟩
  · exact herr s s' hs
  · rw [hreply] at hrun
    exact hrun

theorem weaken {p : Sql σ ε α} {P' : σ → Prop} {Q Q' : α → σ → Prop} {E' : σ → Prop}
    (h : Triple P' p Q' E') (hP : ∀ s, P s → P' s) (hQ : ∀ a s, Q' a s → Q a s)
    (hE : ∀ s, E' s → E s) : Triple P p Q E := by
  intro fuse s hs
  have hrun := h fuse s (hP s hs)
  rcases hreply : p fuse s with ⟨fuse', s', err | a⟩
  · rw [hreply] at hrun
    exact hE _ hrun
  · rw [hreply] at hrun
    exact hQ _ _ hrun

end Triple

end Sql

end Knowledge.Statements
