import Mathlib.Data.List.Perm.Lattice
import Knowledge.Lib.Table

/-!
Lists split into groups by a key. A bucket is made with its first element, so none is empty;
the buckets of a list are its parts with one key each, and put together they are the list again.
-/

set_option autoImplicit false

namespace Knowledge.Grouping

structure Bucket (α : Type) where
  members : List α
  nonempty : members ≠ []

variable {α κ : Type} [DecidableEq κ] {key : α → κ} {l : List α}

def Bucket.push : Option (Bucket α) → α → Bucket α
  | none, a => ⟨[a], by simp⟩
  | some g, a => ⟨g.members ++ [a], by simp⟩

def groupBy (key : α → κ) (l : List α) : Table κ (Bucket α) :=
  l.foldl (fun groups a => groups.insert (key a) (Bucket.push (groups.lookup (key a)) a)) ∅

def part (key : α → κ) (l : List α) (k : κ) : List α := l.filter fun a => key a = k

@[simp] theorem mem_part {k : κ} {a : α} : a ∈ part key l k ↔ a ∈ l ∧ key a = k := by
  simp [part]

/-- The elements that are found under a key, none where there is no bucket. -/
def found (groups : Table κ (Bucket α)) (k : κ) : List α :=
  ((groups.lookup k).map Bucket.members).getD []

theorem found_push (groups : Table κ (Bucket α)) (a : α) (k : κ) :
    found (groups.insert (key a) (Bucket.push (groups.lookup (key a)) a)) k =
      found groups k ++ part key [a] k := by
  unfold found
  rw [Table.lookup_insert_ite]
  by_cases hk : k = key a
  · subst hk
    cases groups.lookup (key a) <;> simp [Bucket.push, part]
  · simp [hk, part, Ne.symm hk]

theorem found_groupBy (k : κ) : found (groupBy key l) k = part key l k := by
  have hfold : ∀ groups : Table κ (Bucket α),
      found (l.foldl (fun groups a =>
        groups.insert (key a) (Bucket.push (groups.lookup (key a)) a)) groups) k =
        found groups k ++ part key l k := by
    induction l with
    | nil => simp [part]
    | cons a l ih =>
      intro groups
      rw [List.foldl_cons, ih, found_push, List.append_assoc]
      congr 1
      simp only [part, ← List.filter_append, List.singleton_append]
  exact (hfold ∅).trans (by simp [found])

theorem lookup_groupBy {k : κ} {g : Bucket α} (h : (groupBy key l).lookup k = some g) :
    g.members = part key l k := by
  rw [← found_groupBy, found, h]
  rfl

theorem lookup_groupBy_isSome {k : κ} :
    ((groupBy key l).lookup k).isSome ↔ ∃ a ∈ l, key a = k := by
  have hfound : found (groupBy key l) k = part key l k := found_groupBy k
  unfold found at hfound
  cases hlookup : (groupBy key l).lookup k with
  | none =>
    have hnone : part key l k = [] := by simpa [hlookup] using hfound.symm
    simpa [part] using hnone
  | some g =>
    obtain ⟨a, ha⟩ := List.exists_mem_of_ne_nil _ g.nonempty
    have hpart : g.members = part key l k := by simpa [hlookup] using hfound
    exact iff_of_true rfl ⟨a, mem_part.mp (hpart ▸ ha)⟩

theorem perm_flatMap_part {ks : List κ} (hnodup : ks.Nodup) (hkeys : ∀ a ∈ l, key a ∈ ks) :
    (ks.flatMap (part key l)).Perm l := by
  induction ks generalizing l with
  | nil =>
    have : l = [] := List.eq_nil_iff_forall_not_mem.mpr fun a ha => by simpa using hkeys a ha
    simp [this]
  | cons k ks ih =>
    obtain ⟨hk, hnodup⟩ := List.nodup_cons.mp hnodup
    have hrest : ∀ k' ∈ ks, part key l k' = part key (l.filter fun a => ¬key a = k) k' := by
      intro k' hk'
      have hne : k' ≠ k := fun h => hk (h ▸ hk')
      simp only [part, List.filter_filter]
      refine List.filter_congr fun a _ => ?_
      by_cases ha : key a = k'
      · simp [ha, hne]
      · simp [ha]
    have hsplit : (ks.flatMap (part key l)).Perm (l.filter fun a => ¬key a = k) := by
      rw [List.flatMap_congr hrest]
      refine ih hnodup fun a ha => ?_
      obtain ⟨ha, hne⟩ := List.mem_filter.mp ha
      exact (List.mem_cons.mp (hkeys a ha)).resolve_left (by simpa using hne)
    have hboth := List.filter_append_perm (fun a => decide (key a = k)) l
    rw [List.flatMap_cons]
    exact (hsplit.append_left _).trans (by simpa [part] using hboth)

end Knowledge.Grouping
