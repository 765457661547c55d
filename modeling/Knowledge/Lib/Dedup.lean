import Mathlib.Data.Finset.Image

/-!
Absorbing a list of keyed entries into an index of keys already seen: only the
first entry of each new key gets in. Nothing here depends on what the entries are.
-/

set_option autoImplicit false

namespace Knowledge.Dedup

section

variable {α κ : Type} [DecidableEq κ]

/-- The entries of a list that a dedup index lets in: those whose key is neither
in `seen` nor carried by an earlier entry of the list. -/
def fresh (key : α → κ) : Finset κ → List α → List α
  | _, [] => []
  | seen, a :: as =>
    if key a ∈ seen then fresh key seen as else a :: fresh key (insert (key a) seen) as

theorem mem_of_mem_fresh {key : α → κ} {seen : Finset κ}
    {as : List α} {a : α} (h : a ∈ fresh key seen as) : a ∈ as := by
  induction as generalizing seen with
  | nil => simp [fresh] at h
  | cons b as ih =>
    unfold fresh at h
    split at h
    · exact List.mem_cons_of_mem _ (ih h)
    · rcases List.mem_cons.mp h with rfl | h
      · simp
      · exact List.mem_cons_of_mem _ (ih h)

theorem key_notMem_of_mem_fresh {key : α → κ}
    {seen : Finset κ} {as : List α} {a : α} (h : a ∈ fresh key seen as) : key a ∉ seen := by
  induction as generalizing seen with
  | nil => simp [fresh] at h
  | cons b as ih =>
    unfold fresh at h
    split at h
    · exact ih h
    · rename_i hb
      rcases List.mem_cons.mp h with rfl | h
      · exact hb
      · exact fun hm => ih h (Finset.mem_insert_of_mem hm)

theorem nodup_keys_fresh (key : α → κ) (seen : Finset κ)
    (as : List α) : ((fresh key seen as).map key).Nodup := by
  induction as generalizing seen with
  | nil => simp [fresh]
  | cons b as ih =>
    unfold fresh
    split
    · exact ih seen
    · simp only [List.map_cons, List.nodup_cons]
      refine ⟨?_, ih _⟩
      intro hb
      obtain ⟨a, ha, hk⟩ := List.mem_map.mp hb
      exact key_notMem_of_mem_fresh ha (by simp [hk])

section

variable {key : α → κ} {seen : Finset κ} {as : List α}

theorem exists_mem_fresh {a : α} (ha : a ∈ as) (hk : key a ∉ seen) :
    ∃ b ∈ fresh key seen as, key b = key a := by
  induction as generalizing seen with
  | nil => simp at ha
  | cons b as ih =>
    unfold fresh
    rcases List.mem_cons.mp ha with rfl | ha
    · rw [if_neg hk]
      exact ⟨a, List.mem_cons_self, rfl⟩
    · split
      · exact ih ha hk
      · by_cases hb : key a = key b
        · exact ⟨b, List.mem_cons_self, hb.symm⟩
        · have hn : key a ∉ insert (key b) seen := by simp [hb, hk]
          obtain ⟨c, hc, he⟩ := ih ha hn
          exact ⟨c, List.mem_cons_of_mem _ hc, he⟩

/-- Entries with distinct new keys all get in. -/
theorem fresh_eq_self (hn : (as.map key).Nodup) (hs : ∀ a ∈ as, key a ∉ seen) :
    fresh key seen as = as := by
  induction as generalizing seen with
  | nil => rfl
  | cons a as ih =>
    rw [List.map_cons, List.nodup_cons] at hn
    unfold fresh
    rw [if_neg (hs a List.mem_cons_self), ih hn.2]
    intro b hb hmem
    rcases Finset.mem_insert.mp hmem with he | hmem
    · exact hn.1 (he ▸ List.mem_map_of_mem hb)
    · exact hs b (List.mem_cons_of_mem _ hb) hmem

/-- The keys known after absorbing a list are those known before and the list's. -/
theorem mem_keys_fresh {k : κ} :
    k ∈ (fresh key seen as).map key ↔ k ∈ as.map key ∧ k ∉ seen := by
  constructor
  · intro h
    obtain ⟨a, ha, rfl⟩ := List.mem_map.mp h
    exact ⟨List.mem_map_of_mem (mem_of_mem_fresh ha), key_notMem_of_mem_fresh ha⟩
  · rintro ⟨h, hk⟩
    obtain ⟨a, ha, rfl⟩ := List.mem_map.mp h
    obtain ⟨b, hb, he⟩ := exists_mem_fresh ha hk
    exact List.mem_map.mpr ⟨b, hb, he⟩

end

/-- Absorbing one list after another: the second meets the keys of the first. -/
theorem fresh_append (key : α → κ) (seen : Finset κ) (as bs : List α) : fresh key seen (as ++ bs) =
      fresh key seen as ++ fresh key (seen ∪ (as.map key).toFinset) bs := by
  induction as generalizing seen with
  | nil => simp [fresh]
  | cons a as ih =>
    by_cases ha : key a ∈ seen
    · have hsame : seen ∪ insert (key a) (as.map key).toFinset = seen ∪ (as.map key).toFinset := by
        rw [Finset.union_insert, Finset.insert_eq_of_mem (Finset.mem_union_left _ ha)]
      simp [fresh, ha, ih, hsame]
    · simp [fresh, ha, ih, Finset.insert_union, Finset.union_insert]

/-- Which keys get in depends on which are offered, not on the order or the number of times. -/
theorem fresh_keys_perm {key : α → κ} {seen : Finset κ}
    {as bs : List α} (h : ∀ k, k ∈ as.map key ↔ k ∈ bs.map key) :
    ((fresh key seen as).map key).Perm ((fresh key seen bs).map key) := by
  rw [List.perm_ext_iff_of_nodup (nodup_keys_fresh key seen as) (nodup_keys_fresh key seen bs)]
  intro k
  rw [mem_keys_fresh, mem_keys_fresh, h]

/-- Where a key stands for one entry, the entries that get in are those of a new key. -/
theorem mem_fresh_iff {key : α → κ} {seen : Finset κ}
    {as : List α} (hagree : ∀ a ∈ as, ∀ b ∈ as, key a = key b → a = b) {a : α} :
    a ∈ fresh key seen as ↔ a ∈ as ∧ key a ∉ seen := by
  constructor
  · intro ha
    exact ⟨mem_of_mem_fresh ha, key_notMem_of_mem_fresh ha⟩
  · rintro ⟨ha, hk⟩
    obtain ⟨b, hb, he⟩ := exists_mem_fresh ha hk
    obtain rfl := hagree b (mem_of_mem_fresh hb) a ha he
    exact hb

/-- Entries whose key is already indexed may be left out beforehand. -/
theorem fresh_filter {key : α → κ} {keep : α → Bool}
    {seen : Finset κ} {as : List α} (h : ∀ a ∈ as, keep a = false → key a ∈ seen) :
    fresh key seen (as.filter keep) = fresh key seen as := by
  induction as generalizing seen with
  | nil => rfl
  | cons a as ih =>
    have htail : ∀ b ∈ as, keep b = false → key b ∈ seen :=
      fun b hb => h b (List.mem_cons_of_mem _ hb)
    cases hk : keep a with
    | false => simp [fresh, hk, h a List.mem_cons_self hk, ih htail]
    | true =>
      have hgrown : ∀ b ∈ as, keep b = false → key b ∈ insert (key a) seen :=
        fun b hb hb' => Finset.mem_insert_of_mem (htail b hb hb')
      simp [fresh, hk, ih htail, ih hgrown]

/-- The entries that are left out: their key is in `seen` or carried by an earlier entry. -/
def repeated (key : α → κ) : Finset κ → List α → List α
  | _, [] => []
  | seen, a :: as =>
    if key a ∈ seen then a :: repeated key seen as else repeated key (insert (key a) seen) as

theorem mem_iff_fresh_or_repeated {key : α → κ} {seen : Finset κ}
    {as : List α} {a : α} : a ∈ as ↔ a ∈ fresh key seen as ∨ a ∈ repeated key seen as := by
  induction as generalizing seen with
  | nil => simp [fresh, repeated]
  | cons b as ih =>
    unfold fresh repeated
    split
    · simp only [List.mem_cons, @ih seen]
      tauto
    · simp only [List.mem_cons, @ih (insert (key b) seen)]
      tauto

end

/-- What the entries carry is carried by those that are let in, in order, exactly when none
of those left out carries anything. -/
theorem filterMap_fresh_eq_iff {α β κ : Type} [DecidableEq κ] {key : α → κ} {seen : Finset κ}
    {as : List α} (f : α → Option β) :
    (fresh key seen as).filterMap f = as.filterMap f ↔
      ∀ a ∈ repeated key seen as, f a = none := by
  have hlength : ∀ (as : List α) (seen : Finset κ), ((fresh key seen as).filterMap f).length +
      ((repeated key seen as).filterMap f).length = (as.filterMap f).length := by
    intro as
    induction as with
    | nil => exact fun _ => rfl
    | cons b as ih =>
      intro seen
      unfold fresh repeated
      split
      · have h := ih seen
        cases hb : f b <;> simp only [List.filterMap_cons, hb, List.length_cons] <;> omega
      · have h := ih (insert (key b) seen)
        cases hb : f b <;> simp only [List.filterMap_cons, hb, List.length_cons] <;> omega
  constructor
  · intro h
    have hl := hlength as seen
    rw [h] at hl
    refine List.filterMap_eq_nil_iff.mp (List.length_eq_zero_iff.mp ?_)
    omega
  · intro h
    induction as generalizing seen with
    | nil => rfl
    | cons b as ih =>
      unfold repeated at h
      unfold fresh
      split
      · rename_i hb
        rw [if_pos hb] at h
        rw [List.filterMap_cons_none (h b List.mem_cons_self)]
        exact ih fun a ha => h a (List.mem_cons_of_mem _ ha)
      · rename_i hb
        rw [if_neg hb] at h
        rw [List.filterMap_cons, List.filterMap_cons, ih h]

section

variable {α : Type} [DecidableEq α]

/-- A value goes to the end of a list that does not have it. -/
def insertNew (out : List α) (a : α) : List α :=
  if a ∈ out then out else out ++ [a]

theorem mem_insertNew {out : List α} {a b : α} :
    b ∈ insertNew out a ↔ b ∈ out ∨ b = a := by
  unfold insertNew
  split
  · rename_i ha
    exact ⟨.inl, fun h => h.elim id fun hb => hb ▸ ha⟩
  · simp

theorem nodup_insertNew {out : List α} (h : out.Nodup) (a : α) :
    (insertNew out a).Nodup := by
  unfold insertNew
  split
  · exact h
  · rename_i ha
    refine List.nodup_append.mpr ⟨h, List.nodup_singleton a, fun b hb c hc heq => ?_⟩
    rw [← List.mem_singleton.mp hc, ← heq] at ha
    exact ha hb

theorem mem_foldl_insertNew (as out : List α) (b : α) :
    b ∈ as.foldl insertNew out ↔ b ∈ out ∨ b ∈ as := by
  induction as generalizing out with
  | nil => simp
  | cons a as ih => rw [List.foldl_cons, ih, mem_insertNew, List.mem_cons, or_assoc]

theorem nodup_foldl_insertNew (as : List α) {out : List α}
    (h : out.Nodup) : (as.foldl insertNew out).Nodup := by
  induction as generalizing out with
  | nil => exact h
  | cons a as ih => exact ih (nodup_insertNew h a)

end

end Knowledge.Dedup
