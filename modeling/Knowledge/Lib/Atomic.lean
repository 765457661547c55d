import Mathlib.Logic.Function.Basic

/-!
Programs that share a state and take one atomic step at a time, the interleavings of any
number of them, and a rule in the manner of rely and guarantee: programs that keep to
footprints that are apart leave every item right that none of them has in hand.
-/

set_option autoImplicit false

namespace Knowledge.Atomic

/-- A program is done, or changes the shared state in one step and goes on with what it
saw before the change. -/
inductive Prog (σ ρ : Type) where
  | done (r : ρ)
  | atomic (f : σ → σ) (k : σ → Prog σ ρ)

namespace Prog

def bind {σ ρ τ : Type} : Prog σ ρ → (ρ → Prog σ τ) → Prog σ τ
  | .done r, g => g r
  | .atomic f k, g => .atomic f (fun s => (k s).bind g)

instance {σ : Type} : Monad (Prog σ) where
  pure := .done
  bind := bind

def read {σ ρ : Type} (f : σ → ρ) : Prog σ ρ := .atomic id (fun s => .done (f s))

def modify {σ ρ : Type} (f : σ → σ × ρ) : Prog σ ρ :=
  .atomic (fun s => (f s).1) (fun s => .done (f s).2)

def run {σ ρ : Type} : Prog σ ρ → σ → σ × ρ
  | .done r, s => (s, r)
  | .atomic f k, s => (k s).run (f s)

def zoom {σ τ ρ : Type} (get : τ → σ) (set : σ → τ → τ) : Prog σ ρ → Prog τ ρ
  | .done r => .done r
  | .atomic f k => .atomic (fun t => set (f (get t)) t) (fun t => (k (get t)).zoom get set)

/-- Alone, the program passes only through such states. -/
def Stays {σ ρ : Type} (ok : σ → Prop) : Prog σ ρ → σ → Prop
  | .done _, _ => True
  | .atomic f k, s => ok (f s) ∧ (k s).Stays ok (f s)

instance Stays.decidable {σ ρ : Type} (ok : σ → Prop) [DecidablePred ok] :
    ∀ (p : Prog σ ρ) (s : σ), Decidable (p.Stays ok s)
  | .done _, _ => .isTrue trivial
  | .atomic f k, s =>
    have := Stays.decidable ok (k s) (f s)
    inferInstanceAs (Decidable (_ ∧ _))

def isDone {σ ρ : Type} : Prog σ ρ → Bool
  | .done _ => true
  | .atomic _ _ => false

/-- Whatever others do within the rely, each step keeps to the guarantee and the program
ends as wanted. Steps that leave the states that are ok are not followed. -/
def Safe {σ ρ : Type} (ok : σ → Prop) (rely guar : σ → σ → Prop) (post : ρ → σ → Prop) :
    Prog σ ρ → σ → Prop
  | .done r, s => ∀ t, rely s t → post r t
  | .atomic f k, s =>
    ∀ t, rely s t → ok (f t) → guar t (f t) ∧ (k t).Safe ok rely guar post (f t)

section

variable {σ ρ τ : Type}

@[simp]
theorem run_pure (r : ρ) (s : σ) : (pure r : Prog σ ρ).run s = (s, r) := rfl

@[simp]
theorem run_read (f : σ → ρ) (s : σ) : (read f).run s = (s, f s) := rfl

@[simp]
theorem run_modify (f : σ → σ × ρ) (s : σ) : (modify f).run s = f s := rfl

theorem run_bind (p : Prog σ ρ) (g : ρ → Prog σ τ) (s : σ) :
    (p >>= g).run s = (g (p.run s).2).run (p.run s).1 := by
  change (p.bind g).run s = _
  induction p generalizing s with
  | done r => rfl
  | atomic f k ih => exact ih s (f s)

end

section

variable {σ ρ τ : Type}

/-- A program on a part of the state leaves the rest as it is. -/
theorem run_zoom {get : τ → σ} {set : σ → τ → τ} (hget : ∀ s t, get (set s t) = s)
    (hset : ∀ s s' t, set s (set s' t) = set s t) (hself : ∀ t, set (get t) t = t)
    (p : Prog σ ρ) (t : τ) :
    (p.zoom get set).run t = (set (p.run (get t)).1 t, (p.run (get t)).2) := by
  induction p generalizing t with
  | done r => simp only [zoom, run, hself]
  | atomic f k ih => simp only [zoom, run, ih, hget, hset]

end

/-- From the states of the precondition, whatever others have made of them, each step is one of
the guarantee. -/
def Steps {σ ρ : Type} (pre : σ → Prop) (guar : σ → σ → Prop) : Prog σ ρ → Prop
  | .done _ => True
  | .atomic f k => ∀ s, pre s → guar s (f s) ∧ (k s).Steps pre guar

section

variable {σ ρ τ : Type} {pre : σ → Prop} {guar : σ → σ → Prop}

theorem Steps.bind {p : Prog σ ρ} (h : p.Steps pre guar) {g : ρ → Prog σ τ}
    (hg : ∀ r, (g r).Steps pre guar) : (p >>= g).Steps pre guar := by
  change (p.bind g).Steps pre guar
  induction p with
  | done r => exact hg r
  | atomic f k ih => exact fun s hs => ⟨(h s hs).1, ih s (h s hs).2⟩

/-- On a part of the state. -/
theorem Steps.zoom {get : τ → σ} {set : σ → τ → τ} {pre' : τ → Prop} {guar' : τ → τ → Prop}
    (hpre : ∀ t, pre' t → pre (get t)) (hguar : ∀ t s, pre' t → guar (get t) s → guar' t (set s t))
    {p : Prog σ ρ} (h : p.Steps pre guar) : (p.zoom get set).Steps pre' guar' := by
  induction p with
  | done r => trivial
  | atomic f k ih =>
    intro t ht
    obtain ⟨hstep, hnext⟩ := h (get t) (hpre t ht)
    exact ⟨hguar t _ ht hstep, ih (get t) hnext⟩

end

section

variable {σ ρ τ : Type} {ok : σ → Prop} {rely guar : σ → σ → Prop}

theorem Safe.stable {post : ρ → σ → Prop} (htrans : ∀ s t u, rely s t → rely t u → rely s u)
    {p : Prog σ ρ} {s t : σ} (h : p.Safe ok rely guar post s) (hr : rely s t) :
    p.Safe ok rely guar post t := by
  cases p with
  | done r => exact fun u hu => h u (htrans s t u hr hu)
  | atomic f k => exact fun u hu => h u (htrans s t u hr hu)

theorem Safe.bind {post : ρ → σ → Prop} {post' : τ → σ → Prop} (hrefl : ∀ s, rely s s)
    {p : Prog σ ρ} {s : σ} (h : p.Safe ok rely guar post s) {g : ρ → Prog σ τ}
    (hg : ∀ r t, post r t → (g r).Safe ok rely guar post' t) :
    (p.bind g).Safe ok rely guar post' s := by
  induction p generalizing s with
  | done r => exact hg r s (h s (hrefl s))
  | atomic f k ih =>
    intro t ht hok
    obtain ⟨hguar, hsafe⟩ := h t ht hok
    exact ⟨hguar, ih t hsafe⟩

theorem Safe.mono {post post' : ρ → σ → Prop} (hpost : ∀ r s, post r s → post' r s)
    {p : Prog σ ρ} {s : σ} (h : p.Safe ok rely guar post s) : p.Safe ok rely guar post' s := by
  induction p generalizing s with
  | done r => exact fun t ht => hpost r t (h t ht)
  | atomic f k ih =>
    intro t ht hok
    obtain ⟨hguar, hsafe⟩ := h t ht hok
    exact ⟨hguar, ih t hsafe⟩

/-- A program that runs alone keeps to its guarantee as a whole. -/
theorem Safe.run {post : ρ → σ → Prop} (hrefl : ∀ s, rely s s) (hguar : ∀ s, guar s s)
    (htrans : ∀ s t u, guar s t → guar t u → guar s u) {p : Prog σ ρ} {s : σ}
    (h : p.Safe ok rely guar post s) (hstays : p.Stays ok s) :
    guar s (p.run s).1 ∧ post (p.run s).2 (p.run s).1 := by
  induction p generalizing s with
  | done r => exact ⟨hguar s, h s (hrefl s)⟩
  | atomic f k ih =>
    obtain ⟨hok, hstays⟩ := hstays
    obtain ⟨hstep, hsafe⟩ := h s (hrefl s) hok
    obtain ⟨hrest, hend⟩ := ih s hsafe hstays
    exact ⟨htrans _ _ _ hstep hrest, hend⟩

end

end Prog

/-- What a program may change, and what it counts on to stay as it is. -/
structure Footprint (Fact : Type) where
  touches : Fact → Prop
  needs : Fact → Prop

def Footprint.Apart {Fact : Type} (a b : Footprint Fact) : Prop :=
  ∀ f, ¬(a.touches f ∧ b.needs f) ∧ ¬(b.touches f ∧ a.needs f)

theorem Footprint.Apart.symm {Fact : Type} {a b : Footprint Fact} (h : a.Apart b) : b.Apart a :=
  fun f => ⟨(h f).2, (h f).1⟩

/-- How facts are read off the state, the invariant that holds throughout, the items to be
kept right, and the facts they rest on. -/
structure World (σ Fact ι : Type) where
  Val : Fact → Type
  obs : ∀ f, σ → Val f
  inv : σ → Prop
  right : ι → σ → Prop
  rests : ι → Fact → Prop
  congr : ∀ x s t, (∀ f, rests x f → obs f s = obs f t) → right x s → right x t

section

variable {σ Fact ι : Type} (w : World σ Fact ι)

def World.rely (fp : Footprint Fact) (s t : σ) : Prop :=
  (w.inv s → w.inv t) ∧ ∀ f, fp.needs f → w.obs f s = w.obs f t

def World.guar (fp : Footprint Fact) (s t : σ) : Prop :=
  (w.inv s → w.inv t) ∧ ∀ f, ¬fp.touches f → w.obs f s = w.obs f t

/-- The program has the item in hand. -/
def World.Holds (fp : Footprint Fact) (x : ι) : Prop := ∃ f, w.rests x f ∧ fp.touches f

def World.Post {ρ : Type} (fp : Footprint Fact) (_ : ρ) (s : σ) : Prop :=
  ∀ x, w.Holds fp x → w.right x s

variable {w}

theorem World.rely_refl (fp : Footprint Fact) (s : σ) : w.rely fp s s := ⟨id, fun _ _ => rfl⟩

theorem World.rely_trans (fp : Footprint Fact) (s t u : σ) (h : w.rely fp s t)
    (h' : w.rely fp t u) : w.rely fp s u :=
  ⟨fun hs => h'.1 (h.1 hs), fun f hf => (h.2 f hf).trans (h'.2 f hf)⟩

theorem World.guar_refl (fp : Footprint Fact) (s : σ) : w.guar fp s s := ⟨id, fun _ _ => rfl⟩

theorem World.guar_trans (fp : Footprint Fact) (s t u : σ) (h : w.guar fp s t)
    (h' : w.guar fp t u) : w.guar fp s u :=
  ⟨fun hs => h'.1 (h.1 hs), fun f hf => (h.2 f hf).trans (h'.2 f hf)⟩

/-- An item that is not in hand stays right. -/
theorem World.right_of_guar {fp : Footprint Fact} {s t : σ} (h : w.guar fp s t) {x : ι}
    (hx : ¬w.Holds fp x) (hr : w.right x s) : w.right x t :=
  w.congr x s t (fun f hf => h.2 f (fun ht => hx ⟨f, hf, ht⟩)) hr

theorem World.rely_of_guar {a b : Footprint Fact} (h : a.Apart b) {s t : σ}
    (hg : w.guar a s t) : w.rely b s t :=
  ⟨hg.1, fun f hf => hg.2 f (fun ht => (h f).1 ⟨ht, hf⟩)⟩

end

/-- A shared state and the programs that have been started, each with what it was
started for. -/
structure Pool (σ ρ κ : Type) where
  shared : σ
  flights : Nat → Option (κ × Prog σ ρ)

namespace Pool

section

variable {σ ρ κ : Type} (s : Pool σ ρ κ)

def start (i : Nat) (label : κ) (p : Prog σ ρ) : Pool σ ρ κ :=
  { s with flights := Function.update s.flights i (some (label, p)) }

def advance (i : Nat) : Pool σ ρ κ :=
  match s.flights i with
  | some (label, .atomic f k) =>
    ⟨f s.shared, Function.update s.flights i (some (label, k s.shared))⟩
  | _ => s

/-- The program has not come to its end. -/
def Busy (i : Nat) (label : κ) : Prop :=
  ∃ p, s.flights i = some (label, p) ∧ p.isDone = false

def Finished : Prop := ∀ i label, ¬s.Busy i label

end

section

variable {σ ρ κ : Type} {pre : σ → Prop} {guar : σ → σ → Prop} {s : Pool σ ρ κ}

def Bound (pre : σ → Prop) (guar : σ → σ → Prop) (s : Pool σ ρ κ) : Prop :=
  ∀ i a p, s.flights i = some (a, p) → p.Steps pre guar

theorem Bound.start (h : s.Bound pre guar) (i : Nat) (a : κ) {p : Prog σ ρ}
    (hp : p.Steps pre guar) : (s.start i a p).Bound pre guar := by
  intro j b q hq
  by_cases hji : j = i
  · subst hji
    simp only [Pool.start, Function.update_self, Option.some.injEq, Prod.mk.injEq] at hq
    exact hq.2 ▸ hp
  · exact h j b q (by simpa [Pool.start, hji] using hq)

theorem Bound.advance (h : s.Bound pre guar) (hpre : pre s.shared) (i : Nat) :
    (s.advance i).Bound pre guar ∧ (s.advance i = s ∨ guar s.shared (s.advance i).shared) := by
  unfold Pool.advance
  split
  · rename_i label f k hi
    obtain ⟨hstep, hnext⟩ := h i label _ hi s.shared hpre
    refine ⟨fun j b q hq => ?_, .inr hstep⟩
    by_cases hji : j = i
    · subst hji
      simp only [Function.update_self, Option.some.injEq, Prod.mk.injEq] at hq
      exact hq.2 ▸ hnext
    · exact h j b q (by simpa [hji] using hq)
  · exact ⟨h, .inl rfl⟩

end

section

variable {σ Fact ι ρ κ : Type} (w : World σ Fact ι) (ok : σ → Prop) (fp : κ → Footprint Fact)

/-- Every program that is not done is safe within its footprint, and every item is right
or in the hands of one of them. -/
structure Governed (s : Pool σ ρ κ) : Prop where
  inv : w.inv s.shared
  apart : ∀ i j a b, i ≠ j → s.Busy i a → s.Busy j b → (fp a).Apart (fp b)
  safe : ∀ i a p, s.flights i = some (a, p) → p.isDone = false →
    p.Safe ok (w.rely (fp a)) (w.guar (fp a)) (w.Post (fp a)) s.shared
  items : ∀ x, w.right x s.shared ∨ ∃ i a, s.Busy i a ∧ w.Holds (fp a) x

variable {w ok fp}

theorem Governed.all_right {s : Pool σ ρ κ} (h : s.Governed w ok fp) (hf : s.Finished) (x : ι) :
    w.right x s.shared := by
  obtain hx | ⟨i, a, hb, -⟩ := h.items x
  · exact hx
  · exact absurd hb (hf i a)

theorem busy_start_of_ne {s : Pool σ ρ κ} {i j : Nat} {a b : κ} {p : Prog σ ρ} (hne : j ≠ i)
    (h : (s.start i a p).Busy j b) : s.Busy j b := by
  obtain ⟨q, hq, hd⟩ := h
  exact ⟨q, by simpa [start, hne] using hq, hd⟩

/-- An item that a program is about to take in hand is right: nobody else has it. -/
theorem Governed.right_of_holds {s : Pool σ ρ κ} (h : s.Governed w ok fp) {a : κ}
    (hapart : ∀ j b, s.Busy j b → (fp b).Apart (fp a))
    (hneeds : ∀ x, w.Holds (fp a) x → ∀ f, w.rests x f → (fp a).needs f) {x : ι}
    (hx : w.Holds (fp a) x) : w.right x s.shared := by
  obtain hr | ⟨j, b, hb, f, hf, ht⟩ := h.items x
  · exact hr
  · exact absurd ⟨ht, hneeds x hx f hf⟩ (hapart j b hb f).1

theorem Governed.start {s : Pool σ ρ κ} (h : s.Governed w ok fp) {i : Nat} {a : κ}
    {p : Prog σ ρ} (hfree : s.flights i = none) (hapart : ∀ j b, s.Busy j b → (fp b).Apart (fp a))
    (hsafe : p.Safe ok (w.rely (fp a)) (w.guar (fp a)) (w.Post (fp a)) s.shared) :
    (s.start i a p).Governed w ok fp := by
  have hold : ∀ j b, s.Busy j b → j ≠ i ∧ (s.start i a p).Busy j b := by
    rintro j b ⟨q, hq, hd⟩
    have hne : j ≠ i := by
      rintro rfl
      rw [hfree] at hq
      cases hq
    exact ⟨hne, q, by simpa [Pool.start, hne] using hq, hd⟩
  have hself : ∀ b q, (s.start i a p).flights i = some (b, q) → b = a ∧ q = p := by
    intro b q hq
    simp only [Pool.start, Function.update_self, Option.some.injEq, Prod.mk.injEq] at hq
    exact ⟨hq.1.symm, hq.2.symm⟩
  refine ⟨h.inv, ?_, ?_, ?_⟩
  · intro j k b c hne hj hk
    by_cases hji : j = i
    · subst hji
      obtain ⟨q, hq, -⟩ := hj
      obtain ⟨rfl, -⟩ := hself b q hq
      exact (hapart k c (busy_start_of_ne (Ne.symm hne) hk)).symm
    · by_cases hki : k = i
      · subst hki
        obtain ⟨q, hq, -⟩ := hk
        obtain ⟨rfl, -⟩ := hself c q hq
        exact hapart j b (busy_start_of_ne hji hj)
      · exact h.apart j k b c hne (busy_start_of_ne hji hj) (busy_start_of_ne hki hk)
  · intro j b q hq hd
    by_cases hji : j = i
    · subst hji
      obtain ⟨rfl, rfl⟩ := hself b q hq
      exact hsafe
    · exact h.safe j b q (by simpa [Pool.start, hji] using hq) hd
  · intro x
    obtain hx | ⟨j, b, hb, hx⟩ := h.items x
    · exact .inl hx
    · exact .inr ⟨j, b, (hold j b hb).2, hx⟩

theorem Governed.advance {s : Pool σ ρ κ} (h : s.Governed w ok fp) (i : Nat)
    (hok : ok (s.advance i).shared) : (s.advance i).Governed w ok fp := by
  cases hi : s.flights i with
  | none => simpa only [Pool.advance, hi] using h
  | some flight =>
    obtain ⟨a, p⟩ := flight
    cases p with
    | done r => simpa only [Pool.advance, hi] using h
    | atomic f k =>
      simp only [Pool.advance, hi] at hok ⊢
      have hbusy : s.Busy i a := ⟨_, hi, rfl⟩
      obtain ⟨hguar, hnext⟩ := h.safe i a _ hi rfl s.shared (World.rely_refl _ _) hok
      -- the other programs see a step within their rely
      have hother : ∀ j b, j ≠ i → s.Busy j b → w.rely (fp b) s.shared (f s.shared) := by
        intro j b hne hb
        exact World.rely_of_guar (h.apart i j a b (Ne.symm hne) hbusy hb) hguar
      have hback : ∀ j b, j ≠ i →
          Busy ⟨f s.shared, Function.update s.flights i (some (a, k s.shared))⟩ j b →
          s.Busy j b := by
        rintro j b hne ⟨q, hq, hd⟩
        exact ⟨q, by simpa [hne] using hq, hd⟩
      have hself : ∀ b, Busy ⟨f s.shared, Function.update s.flights i (some (a, k s.shared))⟩ i b →
          b = a := by
        rintro b ⟨q, hq, -⟩
        simp only [Function.update_self, Option.some.injEq, Prod.mk.injEq] at hq
        exact hq.1.symm
      refine ⟨hguar.1 h.inv, ?_, ?_, ?_⟩
      · intro j l b c hne hj hl
        by_cases hji : j = i
        · subst hji
          obtain rfl := hself b hj
          exact h.apart j l b c hne hbusy (hback l c (Ne.symm hne) hl)
        · by_cases hli : l = i
          · subst hli
            obtain rfl := hself c hl
            exact h.apart j l b c hne (hback j b hji hj) hbusy
          · exact h.apart j l b c hne (hback j b hji hj) (hback l c hli hl)
      · intro j b q hq hd
        by_cases hji : j = i
        · subst hji
          simp only [Function.update_self, Option.some.injEq, Prod.mk.injEq] at hq
          obtain ⟨rfl, rfl⟩ := hq
          exact hnext
        · have hq : s.flights j = some (b, q) := by simpa [hji] using hq
          exact (h.safe j b q hq hd).stable (World.rely_trans _) (hother j b hji ⟨q, hq, hd⟩)
      · intro x
        by_cases hx : w.Holds (fp a) x
        · cases hk : k s.shared with
          | atomic f' k' =>
            exact .inr ⟨i, a, ⟨.atomic f' k', by simp, rfl⟩, hx⟩
          | done r =>
            rw [hk] at hnext
            exact .inl (hnext _ (World.rely_refl _ _) x hx)
        · obtain hr | ⟨j, b, hb, hx'⟩ := h.items x
          · exact .inl (World.right_of_guar hguar hx hr)
          · have hne : j ≠ i := by
              rintro rfl
              obtain ⟨q, hq, -⟩ := hb
              rw [hi] at hq
              obtain ⟨rfl, -⟩ := Prod.mk.inj (Option.some.inj hq)
              exact hx hx'
            obtain ⟨q, hq, hd⟩ := hb
            exact .inr ⟨j, b, ⟨q, by simpa [hne] using hq, hd⟩, hx'⟩

end

end Pool

end Knowledge.Atomic
