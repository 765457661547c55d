import Knowledge.Lib.Transition
import Mathlib.Data.Int.Order.Basic

/-!
A register that grants one holder at a time a lease with a fencing epoch: what it may
store, in terms of the clock reading the caller decided on, and what then holds of the
whole history of grants. An implementation is shown to be such a register by a
simulation, and has the laws of its history from here.
-/

set_option autoImplicit false

namespace Knowledge.Fencing
open Knowledge.Transition

structure Grant (ι : Type) where
  holder : ι
  epoch : Nat
  expiry : Int
  deriving DecidableEq

/-- What callers see: a grant stored for the caller, decided on a clock reading and written
at a later or the same moment; a grant in force reported to the caller; a release. -/
inductive Event (ι : Type) where
  | stored (caller : ι) (readAt time : Int) (grant : Grant ι)
  | reported (caller : ι) (time : Int) (grant : Grant ι)
  | released (node : ι)
  deriving DecidableEq

namespace Event

def grant {ι : Type} : Event ι → Option (Grant ι)
  | .stored _ _ _ g => some g
  | .reported _ _ g => some g
  | .released _ => none

/-- The caller is told, at this time, that it holds the lease itself. -/
def Wins {ι : Type} (e : Event ι) (caller : ι) (time : Int) : Prop :=
  ∃ g, g.holder = caller ∧ ((∃ readAt, e = .stored caller readAt time g) ∨ e = .reported caller time g)

/-- The holder gives the grant up, or shortens it. -/
def Cuts {ι : Type} (e : Event ι) (g : Grant ι) : Prop :=
  e = .released g.holder ∨ ∃ readAt time g', e = .stored g.holder readAt time g' ∧ g'.expiry < g.expiry

end Event

def Stored {ι : Type} (h : List (Event ι)) (i : Nat) (g : Grant ι) : Prop :=
  ∃ caller readAt time, h[i]? = some (.stored caller readAt time g)

/-- The laws of a history of grants, oldest first. -/
structure Fenced {ι : Type} (h : List (Event ι)) : Prop where
  monotone : ∀ i j g g', i < j → Stored h i g → Stored h j g' → g.epoch ≤ g'.epoch
  change : ∀ i j g g', i < j → Stored h i g → Stored h j g' → g.holder ≠ g'.holder →
    g.epoch < g'.epoch
  release : ∀ i k j g g', i < k → k < j → Stored h i g → h[k]? = some (.released g.holder) →
    Stored h j g' → g.epoch < g'.epoch
  lapse : ∀ i j g caller readAt time g', i < j → Stored h i g →
    (∀ k g'', i < k → k < j → ¬Stored h k g'') →
    h[j]? = some (.stored caller readAt time g') → g.expiry ≤ readAt → g.epoch < g'.epoch
  unique : ∀ i j g g', Stored h i g → Stored h j g' → g.epoch = g'.epoch → g.holder = g'.holder
  exclusive : ∀ (i j : Nat) e e' g caller time, i < j → h[i]? = some e → e.grant = some g →
    h[j]? = some e' → e'.Wins caller time → caller ≠ g.holder → time < g.expiry →
    ∃ k x, i < k ∧ k < j ∧ h[k]? = some x ∧ x.Cuts g

/-- The register: the last grant, whether it has been released, and the history. -/
structure Register (ι : Type) where
  clock : Int
  last : Option (Grant ι)
  live : Bool
  history : List (Event ι)

inductive Act (ι : Type) where
  | tick (clock : Int)
  | store (caller : ι) (readAt : Int) (grant : Grant ι)
  | report (caller : ι)
  | release (node : ι)

namespace Register

/-- A grant in force at the reading is renewed under its epoch by its holder; one that has
lapsed by then, or was released, is taken by anybody under a higher epoch. -/
def MayStore {ι : Type} (s : Register ι) (caller : ι) (readAt : Int) (g : Grant ι) : Prop :=
  readAt ≤ s.clock ∧ g.holder = caller ∧ ∀ l, s.last = some l →
    (s.live = true ∧ l.holder = caller ∧ readAt < l.expiry ∧ g.epoch = l.epoch) ∨
    ((s.live = false ∨ l.expiry ≤ readAt) ∧ l.epoch < g.epoch)

inductive Step {ι : Type} (s : Register ι) : Act ι → Register ι → Prop where
  | tick {clock : Int} : s.clock ≤ clock → Step s (.tick clock) { s with clock }
  | store {caller : ι} {readAt : Int} {g : Grant ι} : s.MayStore caller readAt g →
    Step s (.store caller readAt g) { s with
      last := some g
      live := true
      history := s.history ++ [.stored caller readAt s.clock g] }
  | report (caller : ι) {l : Grant ι} : s.last = some l → s.live = true →
    Step s (.report caller) { s with history := s.history ++ [.reported caller s.clock l] }
  | release {node : ι} {l : Grant ι} : s.last = some l → l.holder = node →
    Step s (.release node) { s with live := false, history := s.history ++ [.released node] }

def system {ι : Type} : System (Register ι) (Act ι) :=
  ⟨fun s => s.last = none ∧ s.history = [], Step⟩

/-- What the last grant tells about the history. -/
structure Inv {ι : Type} (s : Register ι) : Prop where
  fenced : Fenced s.history
  below : ∀ i g, Stored s.history i g → ∃ l, s.last = some l ∧ g.epoch ≤ l.epoch ∧
    (g.epoch = l.epoch → g.holder = l.holder)
  given : ∀ i k g, i < k → Stored s.history i g → s.history[k]? = some (.released g.holder) →
    ∀ l, s.last = some l → s.live = false ∨ g.epoch < l.epoch
  latest : ∀ i g, Stored s.history i g → (∀ k g', i < k → ¬Stored s.history k g') →
    s.last = some g
  guarded : ∀ (i : Nat) e g, s.history[i]? = some e → e.grant = some g → g.expiry ≤ s.clock ∨
    (∃ k x, i < k ∧ s.history[k]? = some x ∧ x.Cuts g) ∨
    (s.live = true ∧ ∃ l, s.last = some l ∧ l.holder = g.holder ∧ g.expiry ≤ l.expiry)

end Register

/-- Places of a history that has grown by one event. -/
theorem getElem?_snoc {α : Type} {h : List α} {e x : α} {i : Nat}
    (hx : (h ++ [e])[i]? = some x) : (i < h.length ∧ h[i]? = some x) ∨ (i = h.length ∧ x = e) := by
  by_cases hi : i < h.length
  · rw [List.getElem?_append_left hi] at hx
    exact .inl ⟨hi, hx⟩
  · rw [List.getElem?_append_right (Nat.le_of_not_lt hi)] at hx
    have hz : i-h.length = 0 := by
      by_contra hne
      rw [List.getElem?_eq_none (by simp; omega)] at hx
      cases hx
    rw [hz] at hx
    exact .inr ⟨by omega, (Option.some.inj hx).symm⟩

theorem getElem?_snoc_of_lt {α : Type} {h : List α} (e : α) {i : Nat} (hi : i < h.length) :
    (h ++ [e])[i]? = h[i]? := List.getElem?_append_left hi

theorem lt_of_getElem? {α : Type} {h : List α} {x : α} {i : Nat} (hx : h[i]? = some x) :
    i < h.length := (List.getElem?_eq_some_iff.mp hx).1

theorem Stored.lt {ι : Type} {h : List (Event ι)} {i : Nat} {g : Grant ι} (hs : Stored h i g) :
    i < h.length := by
  obtain ⟨_, _, _, hx⟩ := hs
  exact lt_of_getElem? hx

theorem Stored.snoc {ι : Type} {h : List (Event ι)} {e : Event ι} {i : Nat} {g : Grant ι}
    (hs : Stored (h ++ [e]) i g) : Stored h i g ∨
      (i = h.length ∧ ∃ caller readAt time, e = .stored caller readAt time g) := by
  obtain ⟨caller, readAt, time, hx⟩ := hs
  obtain ⟨-, hx⟩ | ⟨hi, hx⟩ := getElem?_snoc hx
  · exact .inl ⟨caller, readAt, time, hx⟩
  · exact .inr ⟨hi, caller, readAt, time, hx.symm⟩

theorem Stored.extend {ι : Type} {h : List (Event ι)} {i : Nat} {g : Grant ι} (hs : Stored h i g)
    (e : Event ι) : Stored (h ++ [e]) i g := by
  obtain ⟨caller, readAt, time, hx⟩ := hs
  exact ⟨caller, readAt, time, (getElem?_snoc_of_lt e (lt_of_getElem? hx)).trans hx⟩

theorem Fenced.nil {ι : Type} : Fenced ([] : List (Event ι)) := by
  constructor <;> simp [Stored]

/-- What a stored grant has to be above of. -/
structure Above {ι : Type} (h : List (Event ι)) (readAt : Int) (g' : Grant ι) : Prop where
  epoch : ∀ i g, Stored h i g → g.epoch ≤ g'.epoch
  change : ∀ i g, Stored h i g → g.holder ≠ g'.holder → g.epoch < g'.epoch
  release : ∀ i k g, i < k → Stored h i g → h[k]? = some (.released g.holder) →
    g.epoch < g'.epoch
  lapse : ∀ i g, Stored h i g → (∀ k g'', i < k → ¬Stored h k g'') → g.expiry ≤ readAt →
    g.epoch < g'.epoch

theorem Fenced.snoc {ι : Type} {h : List (Event ι)} {e : Event ι} (hf : Fenced h)
    (habove : ∀ caller readAt time g, e = .stored caller readAt time g → Above h readAt g)
    (hwins : ∀ (i : Nat) x g caller time, h[i]? = some x → x.grant = some g →
      e.Wins caller time → caller ≠ g.holder → time < g.expiry →
      ∃ k y, i < k ∧ h[k]? = some y ∧ y.Cuts g) : Fenced (h ++ [e]) := by
  have hlast : ∀ {i j g g'}, i < j → Stored (h ++ [e]) i g → Stored (h ++ [e]) j g' →
      (Stored h i g ∧ Stored h j g') ∨
      (Stored h i g ∧ ∃ caller readAt time, e = .stored caller readAt time g') := by
    intro i j g g' hij hi hj
    obtain hj' | ⟨hj', he⟩ := hj.snoc
    · obtain hi | ⟨hi, -⟩ := hi.snoc
      · exact .inl ⟨hi, hj'⟩
      · have := hj'.lt
        omega
    · obtain hi | ⟨hi, -⟩ := hi.snoc
      · exact .inr ⟨hi, he⟩
      · omega
  have hchange : ∀ i j g g', i < j → Stored (h ++ [e]) i g → Stored (h ++ [e]) j g' →
      g.holder ≠ g'.holder → g.epoch < g'.epoch := by
    intro i j g g' hij hi hj hne
    obtain ⟨hi, hj⟩ | ⟨hi, _, _, _, he⟩ := hlast hij hi hj
    · exact hf.change i j g g' hij hi hj hne
    · exact (habove _ _ _ _ he).change i g hi hne
  refine ⟨?_, hchange, ?_, ?_, ?_, ?_⟩
  · intro i j g g' hij hi hj
    obtain ⟨hi, hj⟩ | ⟨hi, _, _, _, he⟩ := hlast hij hi hj
    · exact hf.monotone i j g g' hij hi hj
    · exact (habove _ _ _ _ he).epoch i g hi
  · intro i k j g g' hik hkj hi hk hj
    obtain ⟨hi, hj⟩ | ⟨hi, _, _, _, he⟩ := hlast (Nat.lt_trans hik hkj) hi hj
    · rw [getElem?_snoc_of_lt e (Nat.lt_trans hkj hj.lt)] at hk
      exact hf.release i k j g g' hik hkj hi hk hj
    · obtain ⟨-, hk⟩ | ⟨-, hk⟩ := getElem?_snoc hk
      · exact (habove _ _ _ _ he).release i k g hik hi hk
      · cases hk.trans he
  · intro i j g caller readAt time g' hij hi hno hj hexp
    obtain ⟨hlt, hj⟩ | ⟨rfl, rfl⟩ := getElem?_snoc hj
    · have hi' : Stored h i g := by
        obtain hi | ⟨hi, -⟩ := hi.snoc
        · exact hi
        · omega
      refine hf.lapse i j g caller readAt time g' hij hi' ?_ hj hexp
      exact fun k g'' hik hkj hk => hno k g'' hik hkj (hk.extend e)
    · have hi' : Stored h i g := by
        obtain hi | ⟨hi, -⟩ := hi.snoc
        · exact hi
        · omega
      refine (habove _ _ _ _ rfl).lapse i g hi' ?_ hexp
      exact fun k g'' hik hk => hno k g'' hik hk.lt (hk.extend _)
  · intro i j g g' hi hj heq
    obtain hij | rfl | hij := Nat.lt_trichotomy i j
    · by_contra hne
      have := hchange i j g g' hij hi hj hne
      omega
    · obtain ⟨_, _, _, hi⟩ := hi
      obtain ⟨_, _, _, hj⟩ := hj
      rw [hi] at hj
      cases hj
      rfl
    · by_contra hne
      have := hchange j i g' g hij hj hi (Ne.symm hne)
      omega
  · intro i j x y g caller time hij hi hg hj hw hne ht
    obtain ⟨hlt, hj⟩ | ⟨rfl, rfl⟩ := getElem?_snoc hj
    · rw [getElem?_snoc_of_lt e (Nat.lt_trans hij hlt)] at hi
      obtain ⟨k, z, hik, hkj, hk, hz⟩ := hf.exclusive i j x y g caller time hij hi hg hj hw hne ht
      exact ⟨k, z, hik, hkj, (getElem?_snoc_of_lt e (Nat.lt_trans hkj hlt)).trans hk, hz⟩
    · rw [getElem?_snoc_of_lt y hij] at hi
      obtain ⟨k, z, hik, hk, hz⟩ := hwins i x g caller time hi hg hw hne ht
      exact ⟨k, z, hik, lt_of_getElem? hk, (getElem?_snoc_of_lt y (lt_of_getElem? hk)).trans hk, hz⟩

namespace Register

section

variable {ι : Type} {s : Register ι}

theorem Inv.tick (h : s.Inv) {clock : Int} (hc : s.clock ≤ clock) :
    { s with clock }.Inv := by
  refine ⟨h.fenced, h.below, h.given, h.latest, fun i e g he hg => ?_⟩
  obtain hexp | hrest := h.guarded i e g he hg
  · exact .inl (Int.le_trans hexp hc)
  · exact .inr hrest

/-- The last grant, where it is live, keeps every other node from winning. -/
theorem Inv.wins (h : s.Inv) {i : Nat} {e : Event ι} {g : Grant ι}
    (he : s.history[i]? = some e) (hg : e.grant = some g) (ht : s.clock < g.expiry)
    (hlast : s.live = true → ∀ l, s.last = some l → l.holder = g.holder →
      g.expiry ≤ l.expiry → False) : ∃ k y, i < k ∧ s.history[k]? = some y ∧ y.Cuts g := by
  obtain hexp | hcut | ⟨hlive, l, hl, hholder, hexp⟩ := h.guarded i e g he hg
  · omega
  · exact hcut
  · exact (hlast hlive l hl hholder hexp).elim

theorem Inv.guarded_snoc (h : s.Inv) (e : Event ι) {i : Nat}
    {x : Event ι} {g : Grant ι} (hx : s.history[i]? = some x) (hg : x.grant = some g) :
    g.expiry ≤ s.clock ∨
    (∃ k y, i < k ∧ (s.history ++ [e])[k]? = some y ∧ y.Cuts g) ∨
    (s.live = true ∧ ∃ l, s.last = some l ∧ l.holder = g.holder ∧ g.expiry ≤ l.expiry) := by
  obtain hexp | ⟨k, y, hik, hk, hy⟩ | hlive := h.guarded i x g hx hg
  · exact .inl hexp
  · exact .inr (.inl ⟨k, y, hik, (getElem?_snoc_of_lt e (lt_of_getElem? hk)).trans hk, hy⟩)
  · exact .inr (.inr hlive)

theorem Inv.report (h : s.Inv) {caller : ι} {l : Grant ι}
    (hl : s.last = some l) (hlive : s.live = true) :
    { s with history := s.history ++ [Event.reported caller s.clock l] }.Inv := by
  have hold : ∀ {i g}, Stored (s.history ++ [.reported caller s.clock l]) i g →
      Stored s.history i g := by
    intro i g hs
    obtain hs | ⟨-, _, _, _, he⟩ := hs.snoc
    · exact hs
    · cases he
  refine ⟨?_, fun i g hs => h.below i g (hold hs), ?_, ?_, ?_⟩
  · refine h.fenced.snoc (fun _ _ _ _ he => by cases he) ?_
    rintro i x g m time hx hg ⟨g', hm, ⟨_, he⟩ | he⟩ hne ht
    · cases he
    · cases he
      refine h.wins hx hg ht (fun _ l' hl' hholder _ => ?_)
      rw [hl] at hl'
      cases hl'
      exact hne (hm.symm.trans hholder)
  · intro i k g hik hs hk
    obtain ⟨-, hk⟩ | ⟨-, hk⟩ := getElem?_snoc hk
    · exact h.given i k g hik (hold hs) hk
    · cases hk
  · intro i g hs hno
    exact h.latest i g (hold hs) (fun k g' hik hk => hno k g' hik (hk.extend _))
  · intro i e g he hg
    obtain ⟨-, he⟩ | ⟨-, rfl⟩ := getElem?_snoc he
    · exact h.guarded_snoc _ he hg
    · cases hg
      exact .inr (.inr ⟨hlive, l, hl, rfl, Int.le_refl _⟩)

theorem Inv.release (h : s.Inv) {l : Grant ι} (hl : s.last = some l) :
    { s with live := false, history := s.history ++ [Event.released l.holder] }.Inv := by
  have hold : ∀ {i g}, Stored (s.history ++ [.released l.holder]) i g →
      Stored s.history i g := by
    intro i g hs
    obtain hs | ⟨-, _, _, _, he⟩ := hs.snoc
    · exact hs
    · cases he
  refine ⟨?_, fun i g hs => h.below i g (hold hs), fun _ _ _ _ _ _ _ _ => .inl rfl, ?_, ?_⟩
  · refine h.fenced.snoc (fun _ _ _ _ he => by cases he) ?_
    rintro i x g m time hx hg ⟨g', hm, ⟨_, he⟩ | he⟩
    · cases he
    · cases he
  · intro i g hs hno
    exact h.latest i g (hold hs) (fun k g' hik hk => hno k g' hik (hk.extend _))
  · intro i e g he hg
    obtain ⟨hi, he⟩ | ⟨-, rfl⟩ := getElem?_snoc he
    · obtain hexp | hcut | ⟨-, l', hl', hholder, -⟩ :=
        h.guarded_snoc (.released l.holder) he hg
      · exact .inl hexp
      · exact .inr (.inl hcut)
      · rw [hl] at hl'
        cases hl'
        refine .inr (.inl ⟨s.history.length, .released l.holder, hi, by simp, .inl ?_⟩)
        rw [hholder]
    · cases hg

theorem MayStore.above (h : s.Inv) {caller : ι} {readAt : Int}
    {g' : Grant ι} (hs : s.MayStore caller readAt g') : Above s.history readAt g' := by
  obtain ⟨-, hholder, hlast⟩ := hs
  refine ⟨?_, ?_, ?_, ?_⟩
  · intro i g hg
    obtain ⟨l, hl, hle, -⟩ := h.below i g hg
    obtain ⟨-, -, -, heq⟩ | ⟨-, hlt⟩ := hlast l hl <;> omega
  · intro i g hg hne
    obtain ⟨l, hl, hle, hsame⟩ := h.below i g hg
    obtain ⟨-, hl', -, heq⟩ | ⟨-, hlt⟩ := hlast l hl
    · have hdiff : g.epoch ≠ l.epoch := by
        intro he
        exact hne ((hsame he).trans (hl'.trans hholder.symm))
      omega
    · omega
  · intro i k g hik hg hk
    obtain ⟨l, hl, hle, -⟩ := h.below i g hg
    obtain ⟨hlive, -, -, heq⟩ | ⟨-, hlt⟩ := hlast l hl
    · obtain hdead | hlt := h.given i k g hik hg hk l hl
      · rw [hlive] at hdead
        cases hdead
      · omega
    · omega
  · intro i g hg hno hexp
    obtain ⟨-, -, hvalid, -⟩ | ⟨-, hlt⟩ := hlast g (h.latest i g hg hno)
    · omega
    · exact hlt

theorem Inv.store (h : s.Inv) {caller : ι} {readAt : Int}
    {g' : Grant ι} (hs : s.MayStore caller readAt g') :
    { s with
      last := some g'
      live := true
      history := s.history ++ [Event.stored caller readAt s.clock g'] }.Inv := by
  have habove := hs.above h
  obtain ⟨hread, hholder, hlast⟩ := hs
  refine ⟨?_, ?_, ?_, ?_, ?_⟩
  · refine h.fenced.snoc ?_ ?_
    · rintro _ _ _ _ ⟨⟩
      exact habove
    · rintro i x g m time hx hg ⟨g'', hm, ⟨_, he⟩ | he⟩ hne ht
      · cases he
        refine h.wins hx hg ht (fun hlive l hl hl' hexp => ?_)
        obtain ⟨-, hcaller, -, -⟩ | ⟨hdead | hlapsed, -⟩ := hlast l hl
        · exact hne (hcaller.symm.trans hl')
        · rw [hlive] at hdead
          cases hdead
        · omega
      · cases he
  · intro i g hg
    refine ⟨g', rfl, ?_⟩
    obtain hg | ⟨-, _, _, _, he⟩ := hg.snoc
    · refine ⟨habove.epoch i g hg, fun heq => ?_⟩
      by_contra hne
      have := habove.change i g hg hne
      omega
    · cases he
      exact ⟨Nat.le_refl _, fun _ => rfl⟩
  · rintro i k g hik hg hk _ ⟨⟩
    refine .inr ?_
    obtain ⟨-, hk⟩ | ⟨-, hk⟩ := getElem?_snoc hk
    · obtain hg | ⟨hi, -⟩ := hg.snoc
      · exact habove.release i k g hik hg hk
      · have := lt_of_getElem? hk
        omega
    · cases hk
  · intro i g hg hno
    obtain hg | ⟨-, _, _, _, he⟩ := hg.snoc
    · exact absurd ⟨caller, readAt, s.clock, by simp⟩ (hno s.history.length g' hg.lt)
    · cases he
      rfl
  · intro i e g he hg
    obtain ⟨hi, he⟩ | ⟨-, rfl⟩ := getElem?_snoc he
    · obtain hexp | hcut | ⟨hlive, l, hl, hl', hexp⟩ :=
        h.guarded_snoc (.stored caller readAt s.clock g') he hg
      · exact .inl hexp
      · exact .inr (.inl hcut)
      · obtain ⟨-, hcaller, -, -⟩ | ⟨hdead | hlapsed, -⟩ := hlast l hl
        · by_cases hshort : g'.expiry < g.expiry
          · refine .inr (.inl ⟨s.history.length, .stored caller readAt s.clock g', hi, by simp,
              .inr ⟨readAt, s.clock, g', ?_, hshort⟩⟩)
            rw [← hl', hcaller]
          · refine .inr (.inr ⟨rfl, g', rfl, ?_, Int.not_lt.mp hshort⟩)
            rw [hholder, ← hcaller, hl']
        · rw [hlive] at hdead
          cases hdead
        · exact .inl (Int.le_trans hexp (Int.le_trans hlapsed hread))
    · cases hg
      exact .inr (.inr ⟨rfl, g', rfl, rfl, Int.le_refl _⟩)

theorem inv_of_reachable (h : system.Reachable s) : s.Inv := by
  refine h.invariant Inv ?_ ?_
  · rintro ⟨clock, last, live, history⟩ ⟨rfl, rfl⟩
    exact ⟨.nil, by simp [Stored], by simp [Stored], by simp [Stored], by simp⟩
  · intro s act t _ hs hstep
    cases hstep with
    | tick hc => exact hs.tick hc
    | store hmay => exact hs.store hmay
    | report caller hl hlive => exact hs.report hl hlive
    | release hl hholder =>
      subst hholder
      exact hs.release hl

end

end Register

end Knowledge.Fencing
