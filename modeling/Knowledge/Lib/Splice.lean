import Mathlib.Data.List.Basic
import Mathlib.Data.List.GetD

/-!
Files that are overwritten in place: writes at an offset and truncations. Read as
filler past its end, a file changes cell by cell, and every operation either fixes a
cell, whatever was there, or leaves it alone. So a list of operations forgets what
the operations it repeats have done before.
-/

set_option autoImplicit false

namespace Knowledge.Splice

def cell {α : Type} (z : α) (file : List α) (p : Nat) : α := file.getD p z

/-- `File::set_len`: cut the file, or extend it with the filler. -/
def setLen {α : Type} (z : α) (n : Nat) (file : List α) : List α :=
  (file ++ List.replicate (n-file.length) z).take n

/-- Seek and write all: a gap before the offset is filled, an empty write does nothing. -/
def writeAt {α : Type} (z : α) (off : Nat) (data file : List α) : List α :=
  if data.isEmpty then file else setLen z off file ++ data ++ file.drop (off+data.length)

@[simp] theorem length_setLen {α : Type} (z : α) (n : Nat) (file : List α) :
    (setLen z n file).length = n := by
  simp only [setLen, List.length_take, List.length_append, List.length_replicate]
  omega

theorem ext_cell {α : Type} {z : α} {f g : List α} (hl : f.length = g.length)
    (hc : ∀ p, cell z f p = cell z g p) : f = g := by
  refine List.ext_getElem hl ?_
  intro p hf hg
  have := hc p
  rwa [cell, cell, List.getD_eq_getElem _ _ hf, List.getD_eq_getElem _ _ hg] at this

theorem cell_setLen {α : Type} (z : α) (n : Nat) (file : List α) (p : Nat) :
    cell z (setLen z n file) p = if p < n then cell z file p else z := by
  simp only [cell, setLen, List.getD_eq_getElem?_getD, List.getElem?_take]
  split
  · by_cases hp : p < file.length
    · rw [List.getElem?_append_left hp]
    · have hp := Nat.le_of_not_lt hp
      rw [List.getElem?_append_right hp, List.getElem?_eq_none hp, List.getElem?_replicate]
      split <;> rfl
  · rfl

theorem cell_writeAt {α : Type} (z : α) (off : Nat) (data file : List α) (p : Nat) :
    cell z (writeAt z off data file) p =
      if off ≤ p ∧ p < off+data.length then cell z data (p-off) else cell z file p := by
  unfold writeAt
  split
  · rename_i h
    have : data.length = 0 := by simpa using h
    rw [if_neg (by omega)]
  · simp only [cell, List.getD_eq_getElem?_getD, List.append_assoc]
    by_cases hp : p < off
    · rw [List.getElem?_append_left (by simpa using hp), if_neg (by omega)]
      have := cell_setLen z off file p
      simp only [cell, List.getD_eq_getElem?_getD, if_pos hp] at this
      exact this
    · rw [List.getElem?_append_right (by simpa using hp), length_setLen]
      by_cases hd : p < off+data.length
      · rw [List.getElem?_append_left (by omega), if_pos ⟨by omega, hd⟩]
      · rw [List.getElem?_append_right (by omega), if_neg (by omega), List.getElem?_drop]
        congr 2
        omega

inductive Op (α : Type) where
  | write (off : Nat) (data : List α)
  | resize (n : Nat)

section

variable {α : Type}

def Op.apply (z : α) : Op α → List α → List α
  | .write off data, file => writeAt z off data file
  | .resize n, file => setLen z n file

def run (z : α) (ops : List (Op α)) (file : List α) : List α :=
  ops.foldl (fun file op => op.apply z file) file

theorem run_append (z : α) (ops ops' : List (Op α)) (file : List α) :
    run z (ops ++ ops') file = run z ops' (run z ops file) := by
  simp [run, List.foldl_append]

/-- The cells whose content the operation fixes. -/
def Op.Touches : Op α → Nat → Prop
  | .write off data, p => off ≤ p ∧ p < off+data.length
  | .resize n, p => n ≤ p

def Touched (ops : List (Op α)) (p : Nat) : Prop := ∃ op ∈ ops, op.Touches p

theorem touched_append {ops ops' : List (Op α)} {p : Nat} :
    Touched (ops ++ ops') p ↔ Touched ops p ∨ Touched ops' p := by
  simp only [Touched, List.mem_append, or_and_right, exists_or]

theorem Touched.mono {ops ops' : List (Op α)} {p : Nat} (hs : ops ⊆ ops')
    (h : Touched ops p) : Touched ops' p := by
  obtain ⟨op, hop, hp⟩ := h
  exact ⟨op, hs hop, hp⟩

theorem Op.cell_apply_of_touches {z : α} {op : Op α} {p : Nat} (h : op.Touches p)
    (f g : List α) : cell z (op.apply z f) p = cell z (op.apply z g) p := by
  cases op with
  | write off data =>
    have h : off ≤ p ∧ p < off+data.length := h
    simp only [Op.apply, cell_writeAt, if_pos h]
  | resize n =>
    have h : ¬p < n := Nat.not_lt.mpr h
    simp only [Op.apply, cell_setLen, if_neg h]

theorem Op.cell_apply_of_not_touches {z : α} {op : Op α} {p : Nat}
    (h : ¬op.Touches p) (f : List α) : cell z (op.apply z f) p = cell z f p := by
  cases op with
  | write off data =>
    have h : ¬(off ≤ p ∧ p < off+data.length) := h
    simp only [Op.apply, cell_writeAt, if_neg h]
  | resize n =>
    have h : p < n := Nat.lt_of_not_le h
    simp only [Op.apply, cell_setLen, if_pos h]

theorem cell_run_of_not_touched {z : α} {ops : List (Op α)} {p : Nat}
    (h : ¬Touched ops p) (f : List α) : cell z (run z ops f) p = cell z f p := by
  induction ops generalizing f with
  | nil => rfl
  | cons op ops ih =>
    have hop : ¬op.Touches p := fun hp => h ⟨op, List.mem_cons_self, hp⟩
    have hops : ¬Touched ops p := fun hp => h (hp.mono (List.subset_cons_self op ops))
    exact (ih hops (op.apply z f)).trans (Op.cell_apply_of_not_touches hop f)

/-- After the operations a cell they fix does not tell what it held before. -/
theorem cell_run_congr {z : α} {ops : List (Op α)} {p : Nat} {f g : List α}
    (h : Touched ops p ∨ cell z f p = cell z g p) :
    cell z (run z ops f) p = cell z (run z ops g) p := by
  induction ops generalizing f g with
  | nil =>
    obtain ⟨op, hop, -⟩ | h := h
    · cases hop
    · exact h
  | cons op ops ih =>
    refine ih (f := op.apply z f) (g := op.apply z g) ?_
    by_cases hp : op.Touches p
    · exact .inr (Op.cell_apply_of_touches hp f g)
    · obtain ⟨op', hop', hp'⟩ | h := h
      · obtain rfl | hop' := List.mem_cons.mp hop'
        · exact absurd hp' hp
        · exact .inl ⟨op', hop', hp'⟩
      · refine .inr ?_
        rw [Op.cell_apply_of_not_touches hp, Op.cell_apply_of_not_touches hp, h]

/-- The operations end by fixing the length of the file. -/
def Sized (ops : List (Op α)) : Prop := ∃ n, ops.getLast? = some (.resize n)

theorem Sized.append {ops ops' : List (Op α)} (h : Sized ops') :
    Sized (ops ++ ops') := by
  obtain ⟨n, hn⟩ := h
  exact ⟨n, by simp [List.getLast?_append, hn]⟩

theorem Sized.length_run {z : α} {ops : List (Op α)} (h : Sized ops) (f g : List α) :
    (run z ops f).length = (run z ops g).length := by
  obtain ⟨n, hn⟩ := h
  obtain ⟨ops, rfl⟩ := List.getLast?_eq_some_iff.mp hn
  simp only [run_append]
  simp [run, Op.apply]

theorem Sized.run_congr {z : α} {ops : List (Op α)} (hs : Sized ops) {f g : List α}
    (h : ∀ p, Touched ops p ∨ cell z f p = cell z g p) : run z ops f = run z ops g :=
  ext_cell (hs.length_run f g) (fun p => cell_run_congr (h p))

end

end Knowledge.Splice
