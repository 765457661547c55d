import Mathlib.Logic.Function.Basic
import Mathlib.Logic.Relation

/-!
Union-find on the numbers below a bound, with path halving. Every element has a level that
grows towards the roots; it is only there to show that a climb ends.
-/

set_option autoImplicit false

namespace Knowledge
open Relation (EqvGen)

structure Forest (n : Nat) where
  parent : Fin n → Fin n
  level : Fin n → Nat
  top : Nat
  climbs : ∀ i, parent i ≠ i → level i < level (parent i)
  level_le : ∀ i, level i ≤ top

namespace Forest

variable {n : Nat}

def discrete (n : Nat) : Forest n where
  parent := id
  level _ := 0
  top := 0
  climbs _ h := absurd rfl h
  level_le _ := Nat.le_refl 0

theorem level_le_parent (F : Forest n) (i : Fin n) : F.level i ≤ F.level (F.parent i) := by
  by_cases h : F.parent i = i
  · simp [h]
  · exact Nat.le_of_lt (F.climbs i h)

def halve (F : Forest n) (i : Fin n) : Forest n where
  parent := Function.update F.parent i (F.parent (F.parent i))
  level := F.level
  top := F.top
  climbs j h := by
    by_cases hj : j = i
    · subst hj
      rw [Function.update_self] at h ⊢
      have hne : F.parent j ≠ j := fun heq => h (by rw [heq, heq])
      exact Nat.lt_of_lt_of_le (F.climbs j hne) (F.level_le_parent _)
    · rw [Function.update_of_ne hj] at h ⊢
      exact F.climbs j h
  level_le := F.level_le

def find (F : Forest n) (i : Fin n) : Forest n × Fin n :=
  if F.parent i = i then (F, i) else find (F.halve i) ((F.halve i).parent i)
termination_by F.top - F.level i
decreasing_by
  rename_i h
  have hup : F.level i < F.level (F.parent (F.parent i)) :=
    Nat.lt_of_lt_of_le (F.climbs i h) (F.level_le_parent _)
  have hle := F.level_le (F.parent (F.parent i))
  simp only [halve, Function.update_self]
  omega

theorem find_root (F : Forest n) (i : Fin n) :
    (F.find i).1.parent (F.find i).2 = (F.find i).2 := by
  fun_induction find F i with
  | case1 F i h => exact h
  | case2 F i h ih => exact ih

def link (F : Forest n) (a b : Fin n) (hab : a ≠ b) (hroot : F.parent b = b) : Forest n where
  parent := Function.update F.parent a b
  level := Function.update F.level b (max (F.level b) (F.level a + 1))
  top := F.top + 1
  climbs j h := by
    by_cases hj : j = a
    · subst hj
      rw [Function.update_self, Function.update_self, Function.update_of_ne hab]
      omega
    · rw [Function.update_of_ne hj] at h ⊢
      have hup := F.climbs j h
      have hjb : j ≠ b := fun heq => h (heq ▸ hroot)
      rw [Function.update_of_ne hjb]
      by_cases hparent : F.parent j = b
      · rw [hparent, Function.update_self]
        rw [hparent] at hup
        omega
      · rw [Function.update_of_ne hparent]
        exact hup
  level_le j := by
    have ha := F.level_le a
    have hj := F.level_le j
    by_cases hjb : j = b
    · subst hjb
      rw [Function.update_self]
      omega
    · rw [Function.update_of_ne hjb]
      omega

def union (F : Forest n) (a b : Fin n) : Forest n :=
  let fa := F.find a
  let fb := fa.1.find b
  if h : fa.2 = fb.2 then fb.1 else fb.1.link fa.2 fb.2 h (fa.1.find_root b)

section

/-- Where a climb without halving ends. -/
def root (F : Forest n) (i : Fin n) : Fin n := if F.parent i = i then i else root F (F.parent i)
termination_by F.top - F.level i
decreasing_by
  rename_i h
  have hup := F.climbs i h
  have hle := F.level_le (F.parent i)
  omega

variable (F : Forest n)

@[simp] theorem root_parent (i : Fin n) : F.root (F.parent i) = F.root i := by
  by_cases h : F.parent i = i
  · rw [h]
  · rw [root.eq_1 F i, if_neg h]

@[simp] theorem parent_root (i : Fin n) : F.parent (F.root i) = F.root i := by
  fun_induction root F i with
  | case1 i h => exact h
  | case2 i h ih => exact ih

variable {F}

theorem root_of_parent {i : Fin n} (h : F.parent i = i) : F.root i = i := by
  rw [root, if_pos h]

/-- A climb that every parent preserves ends where its roots are. -/
theorem root_unique {f : Fin n → Fin n} (hup : ∀ i, f (F.parent i) = f i)
    (hroot : ∀ i, F.parent i = i → f i = i) (i : Fin n) : F.root i = f i := by
  fun_induction root F i with
  | case1 i h => exact (hroot i h).symm
  | case2 i h ih => rw [ih, hup]

theorem root_halve (i j : Fin n) : (F.halve i).root j = F.root j := by
  refine root_unique (fun k => ?_) (fun k hk => ?_) j
  · by_cases hki : k = i
    · simp [halve, hki]
    · simp [halve, hki]
  · by_cases hki : k = i
    · subst hki
      have hloop : F.parent (F.parent k) = k := by simpa [halve] using hk
      refine root_of_parent ?_
      by_contra hne
      have hup := F.climbs k hne
      have hle := F.level_le_parent (F.parent k)
      rw [hloop] at hle
      omega
    · exact root_of_parent (by simpa [halve, hki] using hk)

theorem find_spec (F : Forest n) (i : Fin n) :
    (F.find i).2 = F.root i ∧ ∀ j, (F.find i).1.root j = F.root j := by
  fun_induction find F i with
  | case1 F i h => exact ⟨(root_of_parent h).symm, fun _ => rfl⟩
  | case2 F i h ih =>
    obtain ⟨hroot, hsame⟩ := ih
    refine ⟨?_, fun j => (hsame j).trans (root_halve i j)⟩
    rw [hroot, root_parent, root_halve]

theorem root_link {a b : Fin n} (hab : a ≠ b) (ha : F.parent a = a) (hb : F.parent b = b)
    (i : Fin n) : (F.link a b hab hb).root i = if F.root i = a then b else F.root i := by
  refine root_unique (f := fun i => if F.root i = a then b else F.root i) (fun k => ?_)
    (fun k hk => ?_) i
  · by_cases hka : k = a
    · simp [link, hka, root_of_parent ha, root_of_parent hb, hab.symm]
    · simp [link, hka]
  · by_cases hka : k = a
    · subst hka
      exact absurd (by simpa [link] using hk) hab.symm
    · have hkroot : F.root k = k := root_of_parent (by simpa [link, hka] using hk)
      simp [hkroot, hka]

/-- In one tree. -/
def Same (F : Forest n) (i j : Fin n) : Prop := F.root i = F.root j

theorem same_discrete (i j : Fin n) : (discrete n).Same i j ↔ i = j := by
  have hroot : ∀ k, (discrete n).root k = k := fun k => root_of_parent rfl
  rw [Same, hroot, hroot]

theorem same_union (a b i j : Fin n) : (F.union a b).Same i j ↔
    F.Same i j ∨ F.Same i a ∧ F.Same j b ∨ F.Same i b ∧ F.Same j a := by
  obtain ⟨hra, hsa⟩ := F.find_spec a
  obtain ⟨hrb, hsb⟩ := (F.find a).1.find_spec b
  have hsame : ∀ k, ((F.find a).1.find b).1.root k = F.root k := fun k => (hsb k).trans (hsa k)
  rw [hsa] at hrb
  unfold union Same
  simp only
  split
  · rename_i heq
    rw [hra, hrb] at heq
    rw [hsame, hsame]
    grind
  · rename_i hne
    have ha : ((F.find a).1.find b).1.parent (F.find a).2 = (F.find a).2 := by
      have hfix := ((F.find a).1.find b).1.parent_root a
      rwa [hsame, ← hra] at hfix
    rw [root_link hne ha, root_link hne ha, hsame, hsame, hra, hrb]
    rw [hra, hrb] at hne
    grind

theorem same_equivalence (F : Forest n) : Equivalence F.Same :=
  ⟨fun _ => rfl, fun h => h.symm, fun h h' => h.trans h'⟩

/-- Uniting the pairs of a list joins what the trees and the pairs connect. -/
theorem same_foldl (pairs : List (Fin n × Fin n)) (p : Fin n → Fin n → Prop)
    [DecidableRel p] (i j : Fin n) :
    (pairs.foldl (fun F e => if p e.1 e.2 then F.union e.1 e.2 else F) F).Same i j ↔
      EqvGen (fun a b => F.Same a b ∨ (a, b) ∈ pairs ∧ p a b) i j := by
  induction pairs generalizing F with
  | nil =>
    simp only [List.foldl_nil, List.not_mem_nil, false_and, or_false]
    exact F.same_equivalence.eqvGen_iff.symm
  | cons e pairs ih =>
    rw [List.foldl_cons, ih]
    refine ⟨fun h => EqvGen.eqvGen_le (fun a b hab => ?_) i j h,
      fun h => EqvGen.eqvGen_le (fun a b hab => ?_) i j h⟩
    · have hold : ∀ c d, F.Same c d →
          EqvGen (fun a b => F.Same a b ∨ (a, b) ∈ e :: pairs ∧ p a b) c d :=
        fun c d hcd => .rel _ _ (.inl hcd)
      obtain hab | ⟨hmem, hp⟩ := hab
      · split at hab
        · rename_i hp
          have hnew : EqvGen (fun a b => F.Same a b ∨ (a, b) ∈ e :: pairs ∧ p a b) e.1 e.2 :=
            .rel _ _ (.inr ⟨List.mem_cons_self, hp⟩)
          obtain hab | ⟨ha, hb⟩ | ⟨ha, hb⟩ := (same_union _ _ _ _).mp hab
          · exact hold a b hab
          · exact (hold a _ ha).trans _ _ _ (hnew.trans _ _ _ ((hold b _ hb).symm _ _))
          · exact (hold a _ ha).trans _ _ _ ((hnew.symm _ _).trans _ _ _ ((hold b _ hb).symm _ _))
        · exact hold a b hab
      · exact .rel _ _ (.inr ⟨List.mem_cons_of_mem _ hmem, hp⟩)
    · refine .rel _ _ ?_
      obtain hab | ⟨hmem, hp⟩ := hab
      · refine .inl ?_
        split
        · exact (same_union _ _ _ _).mpr (.inl hab)
        · exact hab
      · obtain heq | hmem := List.mem_cons.mp hmem
        · subst heq
          rw [if_pos hp]
          exact .inl ((same_union _ _ _ _).mpr (.inr (.inl ⟨rfl, rfl⟩)))
        · exact .inr ⟨hmem, hp⟩

end

end Forest

end Knowledge
