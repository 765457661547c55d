import Mathlib.Data.List.Perm.Basic

/-!
Lists read element by element, until one fails: what the result has to do with the source, place
by place.
-/

set_option autoImplicit false

namespace Knowledge.Collect

variable {α β ε : Type} {R : α → β → Prop} {l : List α} {l' : List β}

theorem mapM_ok_iff {f : α → Except ε β} :
    l.mapM f = .ok l' ↔ List.Forall₂ (fun a b => f a = .ok b) l l' := by
  induction l generalizing l' with
  | nil => cases l' <;> simp [pure, Except.pure]
  | cons a l ih =>
    rw [List.mapM_cons]
    cases hfirst : f a with
    | error err => cases l' <;> simp [bind, Except.bind, hfirst]
    | ok b =>
      cases hrest : l.mapM f with
      | error err => cases l' <;> simp [bind, Except.bind, ← ih, hrest, hfirst]
      | ok bs => cases l' <;> simp [bind, Except.bind, pure, Except.pure, ← ih, hrest, hfirst]

theorem bind_ok_iff {a : Except ε α} {f : α → Except ε β} {b : β} :
    a >>= f = .ok b ↔ ∃ c, a = .ok c ∧ f c = .ok b := by
  cases a with
  | error err => simp [bind, Except.bind]
  | ok c => simp [bind, Except.bind]

/-- Two passes over a list, the second over what the first has made. -/
theorem mapM_mapM_ok_iff {γ : Type} {f : α → Except ε γ} {g : γ → Except ε β} :
    l.mapM f >>= (fun m => m.mapM g) = .ok l' ↔
      List.Forall₂ (fun a b => ∃ c, f a = .ok c ∧ g c = .ok b) l l' := by
  simp only [bind_ok_iff, mapM_ok_iff]
  constructor
  · rintro ⟨m, hf, hg⟩
    induction hf generalizing l' with
    | nil => cases hg; exact .nil
    | cons hac _ ih =>
      cases hg with
      | cons hcb hg => exact .cons ⟨_, hac, hcb⟩ (ih hg)
  · intro h
    induction h with
    | nil => exact ⟨[], .nil, .nil⟩
    | cons hab _ ih =>
      obtain ⟨c, hac, hcb⟩ := hab
      obtain ⟨m, hf, hg⟩ := ih
      exact ⟨c :: m, .cons hac hf, .cons hcb hg⟩

/-- A list in the order of a mapped one is mapped from one in that order. -/
theorem exists_of_perm_map {f : α → β} (h : l'.Perm (l.map f)) : ∃ m : List α, l' = m.map f ∧ m.Perm l := by
  have hmap : List.Forall₂ (fun b a => b = f a) (l.map f) l := by
    rw [List.forall₂_map_left_iff]
    exact List.forall₂_same.mpr fun _ _ => rfl
  obtain ⟨m, hm, hperm⟩ := List.perm_comp_forall₂ h hmap
  refine ⟨m, ?_, hperm⟩
  rw [← List.forall₂_eq_eq_eq, List.forall₂_map_right_iff]
  exact hm

/-- A list is read where each of its elements is. -/
theorem mapM_ok {f : α → Except ε β} (h : ∀ a ∈ l, ∃ b, f a = .ok b) :
    ∃ bs, l.mapM f = .ok bs ∧ List.Forall₂ (fun a b => f a = .ok b) l bs := by
  induction l with
  | nil => exact ⟨[], rfl, .nil⟩
  | cons a l ih =>
    obtain ⟨b, hb⟩ := h a List.mem_cons_self
    obtain ⟨bs, -, hall⟩ := ih fun a ha => h a (List.mem_cons_of_mem _ ha)
    have hcons : List.Forall₂ (fun a b => f a = .ok b) (a :: l) (b :: bs) := .cons hb hall
    exact ⟨b :: bs, mapM_ok_iff.mpr hcons, hcons⟩

theorem exists_right (h : List.Forall₂ R l l') {a : α} (ha : a ∈ l) : ∃ b ∈ l', R a b := by
  induction h with
  | nil => cases ha
  | @cons a' b' _ _ hab _ ih =>
    obtain rfl | ha := List.mem_cons.mp ha
    · exact ⟨b', List.mem_cons_self, hab⟩
    · obtain ⟨b, hb, hR⟩ := ih ha
      exact ⟨b, List.mem_cons_of_mem _ hb, hR⟩

theorem exists_left (h : List.Forall₂ R l l') {b : β} (hb : b ∈ l') : ∃ a ∈ l, R a b :=
  exists_right h.flip hb

theorem map_eq {κ : Type} {f : α → κ} {g : β → κ} (h : List.Forall₂ R l l')
    (hkey : ∀ a ∈ l, ∀ b, R a b → g b = f a) : l'.map g = l.map f := by
  induction h with
  | nil => rfl
  | cons hab _ ih =>
    rw [List.map_cons, List.map_cons, hkey _ List.mem_cons_self _ hab,
      ih fun a ha => hkey a (List.mem_cons_of_mem _ ha)]

end Knowledge.Collect
