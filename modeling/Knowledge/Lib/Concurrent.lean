import Knowledge.Lib.Tally
import Knowledge.Lib.Transition

/-!
Code that any number of callers run at once over one shared state, one locked step at a time, and
the rule that carries an invariant through their runs: a step keeps it, with what it says of its
own call, and disturbs nothing it says of another one. A second rule is for code that one call at a
time is let into.
-/

set_option autoImplicit false

namespace Knowledge.Concurrent
open Knowledge.Tally
open Knowledge.Transition

/-- A call begins in a phase of its own. Each step gets an answer from outside the code, and the
surroundings may act on the shared state in between. -/
structure Code (σ κ φ ξ ε : Type) where
  first : κ → φ
  step : σ → κ → φ → ξ → σ × φ
  act : σ → ε → σ

structure Pool (σ κ φ : Type) where
  shared : σ
  calls : List (κ × φ)

inductive Event (κ ξ ε : Type) where
  | call (c : κ)
  | advance (i : Nat) (x : ξ)
  | act (e : ε)

namespace Code

section

variable {σ κ φ ξ ε : Type} (C : Code σ κ φ ξ ε)

def next (t : Pool σ κ φ) : Event κ ξ ε → Pool σ κ φ
  | .call c => { t with calls := t.calls ++ [(c, C.first c)] }
  | .advance i x =>
    match t.calls[i]? with
    | some (c, p) => ⟨(C.step t.shared c p x).1, t.calls.set i (c, (C.step t.shared c p x).2)⟩
    | none => t
  | .act e => { t with shared := C.act t.shared e }

def system (initial : σ → Prop) (guard : Pool σ κ φ → Event κ ξ ε → Prop) :
    System (Pool σ κ φ) (Event κ ξ ε) :=
  .ofNext (fun t => initial t.shared ∧ t.calls = []) guard C.next

/-- Every step is taken only where the condition holds of the shared state, the call, its phase
and the answer. -/
def Each (cond : σ → κ → φ → ξ → Prop) (t : Pool σ κ φ) : Event κ ξ ε → Prop
  | .advance i x => ∀ c p, t.calls[i]? = some (c, p) → cond t.shared c p x
  | _ => True

instance (cond : σ → κ → φ → ξ → Prop) [∀ s c p x, Decidable (cond s c p x)] (t : Pool σ κ φ)
    (event : Event κ ξ ε) : Decidable (Each cond t event) :=
  match event with
  | .call _ | .act _ => isTrue trivial
  | .advance i x =>
    match h : t.calls[i]? with
    | none => isTrue fun c p hi => by rw [h] at hi; cases hi
    | some (c, p) =>
      decidable_of_iff (cond t.shared c p x) ⟨fun hc c' p' hi => by
        rw [h] at hi
        cases hi
        exact hc, fun hc => hc c p h⟩

end

section

variable {σ κ φ ξ ε : Type} {C : Code σ κ φ ξ ε}

theorem next_advance {t : Pool σ κ φ} {i : Nat} {c : κ} {p : φ} (x : ξ)
    (h : t.calls[i]? = some (c, p)) : C.next t (.advance i x) =
      ⟨(C.step t.shared c p x).1, t.calls.set i (c, (C.step t.shared c p x).2)⟩ := by
  simp only [next, h]

theorem next_advance_none {t : Pool σ κ φ} {i : Nat} (x : ξ) (h : t.calls[i]? = none) :
    C.next t (.advance i x) = t := by
  simp only [next, h]

/-- Where every event may happen at any time, each list of events is a run. -/
theorem reachable_foldl (C : Code σ κ φ ξ ε) (initial : σ → Prop) {s : σ} (h : initial s)
    (events : List (Event κ ξ ε)) :
    (C.system initial fun _ _ => True).Reachable (events.foldl C.next ⟨s, []⟩) := by
  have hlegal : ∀ t, Legal (fun _ _ => True) C.next t events := by
    intro t
    induction events generalizing t with
    | nil => trivial
    | cons event events ih => exact ⟨trivial, ih _⟩
  exact (hlegal _).reachable (.init ⟨h, rfl⟩)

theorem guard_and {initial : σ → Prop} {guard cond : Pool σ κ φ → Event κ ξ ε → Prop}
    {t : Pool σ κ φ} (h : ((C.system initial guard).restrict cond).Reachable t) :
    (C.system initial fun t event => guard t event ∧ cond t event).Reachable t :=
  System.Reachable.guard_and h

/-- The rule of rely and guarantee. `I` speaks of the shared state, `J` of each call. -/
theorem invariant {initial : σ → Prop} {guard : Pool σ κ φ → Event κ ξ ε → Prop}
    {cond : σ → κ → φ → ξ → Prop} (I : σ → Prop) (J : σ → κ → φ → Prop)
    (hinit : ∀ s, initial s → I s) (hfirst : ∀ s c, I s → J s c (C.first c))
    (hown : ∀ s c p x, I s → J s c p → cond s c p x →
      I (C.step s c p x).1 ∧ J (C.step s c p x).1 c (C.step s c p x).2)
    (hother : ∀ s c p x d q, I s → J s c p → J s d q → cond s c p x →
      J (C.step s c p x).1 d q)
    (hact : ∀ t e, guard t (.act e) → I t.shared → I (C.act t.shared e) ∧
      ∀ d q, (d, q) ∈ t.calls → J t.shared d q → J (C.act t.shared e) d q)
    {t : Pool σ κ φ} (h : ((C.system initial guard).restrict (Each cond)).Reachable t) :
    I t.shared ∧ ∀ c p, (c, p) ∈ t.calls → J t.shared c p := by
  refine System.Reachable.invariant
    (fun t : Pool σ κ φ => I t.shared ∧ ∀ c p, (c, p) ∈ t.calls → J t.shared c p) ?_ ?_ h
  · intro t ⟨hi, hcalls⟩
    refine ⟨hinit _ hi, fun c p hmem => ?_⟩
    rw [hcalls] at hmem
    cases hmem
  · intro t event t' _ ⟨hI, hJ⟩ ⟨⟨hguard, ht'⟩, hcond⟩
    subst ht'
    cases event with
    | call c =>
      refine ⟨hI, fun d q hmem => ?_⟩
      obtain hmem | hmem := List.mem_append.mp hmem
      · exact hJ d q hmem
      · obtain ⟨rfl, rfl⟩ := Prod.mk.inj (List.mem_singleton.mp hmem)
        exact hfirst _ _ hI
    | act e =>
      obtain ⟨hI', hJ'⟩ := hact t e hguard hI
      exact ⟨hI', fun d q hmem => hJ' d q hmem (hJ d q hmem)⟩
    | advance i x =>
      cases hi : t.calls[i]? with
      | none =>
        rw [next_advance_none x hi]
        exact ⟨hI, hJ⟩
      | some e =>
        obtain ⟨c, p⟩ := e
        have hp := hJ c p (List.mem_of_getElem? hi)
        obtain ⟨hI', hJ'⟩ := hown _ c p x hI hp (hcond c p hi)
        rw [next_advance x hi]
        refine ⟨hI', fun d q hmem => ?_⟩
        obtain hmem | heq := List.mem_or_eq_of_mem_set hmem
        · exact hother _ c p x d q hI hp (hJ d q hmem) (hcond c p hi)
        · obtain ⟨rfl, rfl⟩ := Prod.mk.inj heq
          exact hJ'

/-- The rule of mutual exclusion. A call enters only where the state is not locked, and locks it;
`J` speaks of the one that is inside, `P` of each call whatever the state. -/
theorem exclusive {initial : σ → Prop} {guard : Pool σ κ φ → Event κ ξ ε → Prop}
    (inside : φ → Bool) (I locked : σ → Prop) (J : σ → φ → Prop) (P : κ → φ → Prop)
    (hinit : ∀ s, initial s → I s)
    (hcall : ∀ t c, guard t (.call c) → inside (C.first c) = false ∧ P c (C.first c))
    (hstep : ∀ s c p x, P c p → P c (C.step s c p x).2)
    (houtside : ∀ s c p x, I s → P c p → inside p = false →
      I (C.step s c p x).1 ∧
      (inside (C.step s c p x).2 = false ∧ (C.step s c p x).1 = s ∨
        ¬locked s ∧ locked (C.step s c p x).1 ∧ J (C.step s c p x).1 (C.step s c p x).2))
    (hinside : ∀ t i c p x, guard t (.advance i x) → t.calls[i]? = some (c, p) →
      I t.shared → P c p → inside p = true → locked t.shared → J t.shared p →
      I (C.step t.shared c p x).1 ∧ (inside (C.step t.shared c p x).2 = true →
        locked (C.step t.shared c p x).1 ∧ J (C.step t.shared c p x).1 (C.step t.shared c p x).2))
    (hact : ∀ t e, guard t (.act e) → I t.shared → I (C.act t.shared e) ∧
      ∀ c p, (c, p) ∈ t.calls → inside p = true → locked t.shared → J t.shared p →
        locked (C.act t.shared e) ∧ J (C.act t.shared e) p)
    {t : Pool σ κ φ} (h : (C.system initial guard).Reachable t) : I t.shared := by
  have hall : I t.shared ∧ t.calls.countP (fun e => inside e.2) ≤ 1 ∧
      ∀ (i : Nat) c p, t.calls[i]? = some (c, p) →
        P c p ∧ (inside p = true → locked t.shared ∧ J t.shared p) := by
    refine System.Reachable.invariant (fun t : Pool σ κ φ => I t.shared ∧
      t.calls.countP (fun e => inside e.2) ≤ 1 ∧ ∀ (i : Nat) c p, t.calls[i]? = some (c, p) →
        P c p ∧ (inside p = true → locked t.shared ∧ J t.shared p)) ?_ ?_ h
    · intro t ⟨hi, hcalls⟩
      exact ⟨hinit _ hi, by simp [hcalls], by simp [hcalls]⟩
    · intro t event t' _ ⟨hI, hone, hJ⟩ ⟨hguard, ht'⟩
      subst ht'
      cases event with
      | call c =>
        obtain ⟨hout, hP⟩ := hcall t c hguard
        refine ⟨hI, by simp only [next, List.countP_append]; simpa [hout] using hone, ?_⟩
        intro i d q hi
        obtain hmem | hmem := List.mem_append.mp (List.mem_of_getElem? hi)
        · obtain ⟨j, hj⟩ := List.mem_iff_getElem?.mp hmem
          exact hJ j d q hj
        · obtain ⟨rfl, rfl⟩ := Prod.mk.inj (List.mem_singleton.mp hmem)
          exact ⟨hP, fun hin => by rw [hout] at hin; cases hin⟩
      | act e =>
        obtain ⟨hI', hJ'⟩ := hact t e hguard hI
        refine ⟨hI', hone, fun i d q hi => ⟨(hJ i d q hi).1, fun hin => ?_⟩⟩
        obtain ⟨hlocked, hq⟩ := (hJ i d q hi).2 hin
        exact hJ' d q (List.mem_of_getElem? hi) hin hlocked hq
      | advance i x =>
        cases hi : t.calls[i]? with
        | none =>
          rw [next_advance_none x hi]
          exact ⟨hI, hone, hJ⟩
        | some e =>
          obtain ⟨c, p⟩ := e
          obtain ⟨hP, hin⟩ := hJ i c p hi
          have hcount := countP_set_add (fun e : κ × φ => inside e.2) hi
            (c, (C.step t.shared c p x).2)
          rw [next_advance x hi]
          by_cases hp : inside p = true
          · obtain ⟨hlocked, hq⟩ := hin hp
            obtain ⟨hI', hJ'⟩ := hinside t i c p x hguard hi hI hP hp hlocked hq
            simp only [hp, Bool.toNat_true] at hcount
            have hle := Bool.toNat_le (inside (C.step t.shared c p x).2)
            refine ⟨hI', by simp only; omega, fun j d q hj => ?_⟩
            obtain ⟨rfl, hd⟩ | ⟨hij, hj⟩ := getElem?_set_cases hj
            · obtain ⟨rfl, rfl⟩ := Prod.mk.inj hd
              exact ⟨hstep _ _ _ _ hP, hJ'⟩
            · refine ⟨(hJ j d q hj).1, fun hq' => ?_⟩
              have := two_le_countP (p := fun e : κ × φ => inside e.2) hi hj hij hp hq'
              omega
          · obtain ⟨hI', hrest⟩ := houtside t.shared c p x hI hP (by simpa using hp)
            have hle := Bool.toNat_le (inside (C.step t.shared c p x).2)
            obtain ⟨hp', hsame⟩ | ⟨hfree, hlocked, hq⟩ := hrest
            · simp only [hp', Bool.toNat_false] at hcount
              refine ⟨hI', by simp only; omega, fun j d q hj => ?_⟩
              simp only [hsame]
              obtain ⟨rfl, hd⟩ | ⟨hij, hj⟩ := getElem?_set_cases hj
              · obtain ⟨rfl, rfl⟩ := Prod.mk.inj hd
                exact ⟨hstep _ _ _ _ hP, fun hq' => by rw [hp'] at hq'; cases hq'⟩
              · exact hJ j d q hj
            · have hnone : t.calls.countP (fun e => inside e.2) = 0 := by
                refine List.countP_eq_zero.mpr fun e he hin' => hfree ?_
                obtain ⟨j, hj⟩ := List.mem_iff_getElem?.mp he
                exact ((hJ j e.1 e.2 hj).2 hin').1
              simp only at hcount
              refine ⟨hI', by simp only; omega, fun j d q hj => ?_⟩
              obtain ⟨rfl, hd⟩ | ⟨hij, hj⟩ := getElem?_set_cases hj
              · obtain ⟨rfl, rfl⟩ := Prod.mk.inj hd
                exact ⟨hstep _ _ _ _ hP, fun _ => ⟨hlocked, hq⟩⟩
              · exact ⟨(hJ j d q hj).1, fun hq' => absurd ((hJ j d q hj).2 hq').1 hfree⟩
  exact hall.1

end

end Code

end Knowledge.Concurrent
