import Mathlib.Data.List.AList

/-!
Tables: finite maps from a primary key to a row, with the statements that go over all of
their rows. What a statement does is read off the lookups it leaves.
-/

set_option autoImplicit false

namespace Knowledge

abbrev Table (K V : Type) := AList (fun _ : K => V)

namespace Table

theorem keys_nodup_rows {K V : Type} (t : AList (fun _ : K => V)) :
    ((t.entries.map fun e => (e.1, e.2)).map Prod.fst).Nodup := by
  rw [List.map_map]
  exact t.nodupKeys

section

variable {K V W ε : Type} [DecidableEq K]

def rows (t : Table K V) : List (K × V) := t.entries.map fun e => (e.1, e.2)

theorem mem_rows_iff {t : Table K V} {k : K} {v : V} : (k, v) ∈ t.rows ↔ t.lookup k = some v := by
  rw [← Option.mem_def, AList.mem_lookup_iff]
  simp only [rows, List.mem_map, Prod.mk.injEq]
  constructor
  · rintro ⟨⟨a, b⟩, he, rfl, rfl⟩
    exact he
  · exact fun he => ⟨⟨k, v⟩, he, rfl, rfl⟩

def ofRows (l : List (K × V)) (h : (l.map Prod.fst).Nodup) : Table K V :=
  ⟨l.map fun e => ⟨e.1, e.2⟩, by rw [List.NodupKeys, List.keys, List.map_map]; exact h⟩

theorem lookup_ofRows {l : List (K × V)} {h : (l.map Prod.fst).Nodup} {k : K} {v : V} :
    (ofRows l h).lookup k = some v ↔ (k, v) ∈ l := by
  rw [← Option.mem_def, AList.mem_lookup_iff]
  simp only [ofRows, List.mem_map, Sigma.mk.injEq]
  constructor
  · rintro ⟨⟨a, b⟩, he, rfl, hb⟩
    rwa [← eq_of_heq hb]
  · exact fun he => ⟨(k, v), he, rfl, HEq.rfl⟩

theorem lookup_insert_ite (t : Table K V) (k k' : K) (v : V) :
    (t.insert k v).lookup k' = if k' = k then some v else t.lookup k' := by
  split
  · rename_i h
    subst h
    exact AList.lookup_insert t
  · rename_i h
    exact AList.lookup_insert_ne h

theorem lookup_erase_ite (t : Table K V) (k k' : K) :
    (t.erase k).lookup k' = if k' = k then none else t.lookup k' := by
  split
  · rename_i h
    subst h
    exact AList.lookup_erase _ t
  · rename_i h
    exact AList.lookup_erase_ne h

/-- Values that are put in one after another under keys of their own are all found. -/
theorem lookup_foldl_insert (key : V → K) (vs : List V) (hkeys : (vs.map key).Nodup)
    (t : Table K V) :
    (∀ v ∈ vs, (vs.foldl (fun t v => t.insert (key v) v) t).lookup (key v) = some v) ∧
      ∀ k, k ∉ vs.map key → (vs.foldl (fun t v => t.insert (key v) v) t).lookup k = t.lookup k := by
  induction vs generalizing t with
  | nil => simp
  | cons v vs ih =>
    obtain ⟨hfirst, hrest⟩ := List.nodup_cons.mp hkeys
    obtain ⟨hfound, hkept⟩ := ih hrest (t.insert (key v) v)
    refine ⟨fun w hw => ?_, fun k hk => ?_⟩
    · obtain rfl | hw := List.mem_cons.mp hw
      · exact (hkept _ hfirst).trans (AList.lookup_insert t)
      · exact hfound w hw
    · obtain ⟨hne, hk⟩ : k ≠ key v ∧ k ∉ vs.map key := by simpa using hk
      exact (hkept k hk).trans (AList.lookup_insert_ne hne)

def filter (p : K → V → Bool) (t : Table K V) : Table K V :=
  ofRows (t.rows.filter fun e => p e.1 e.2)
    ((keys_nodup_rows t).sublist (List.filter_sublist.map _))

theorem lookup_filter_eq_some {p : K → V → Bool} {t : Table K V} {k : K} {v : V} :
    (t.filter p).lookup k = some v ↔ t.lookup k = some v ∧ p k v = true := by
  rw [filter, lookup_ofRows, List.mem_filter, mem_rows_iff]

theorem lookup_filter (p : K → V → Bool) (t : Table K V) (k : K) :
    (t.filter p).lookup k = (t.lookup k).filter (p k) := by
  refine Option.ext fun v => ?_
  rw [lookup_filter_eq_some, Option.filter_eq_some_iff]

theorem lookup_filter_key (p : K → Bool) (t : Table K V) (k : K) :
    (t.filter fun k _ => p k).lookup k = if p k then t.lookup k else none := by
  rw [lookup_filter]
  cases t.lookup k <;> cases p k <;> simp [Option.filter]

def mapValues (f : K → V → W) (t : Table K V) : Table K W :=
  ofRows (t.rows.map fun e => (e.1, f e.1 e.2)) (by
    rw [List.map_map]
    exact keys_nodup_rows t)

theorem lookup_mapValues (f : K → V → W) (t : Table K V) (k : K) :
    (t.mapValues f).lookup k = (t.lookup k).map (f k) := by
  refine Option.ext fun w => ?_
  rw [mapValues, lookup_ofRows, List.mem_map, Option.map_eq_some_iff]
  constructor
  · rintro ⟨⟨k', v⟩, hmem, heq⟩
    obtain ⟨rfl, rfl⟩ := Prod.mk.inj heq
    exact ⟨v, mem_rows_iff.mp hmem, rfl⟩
  · rintro ⟨v, hv, rfl⟩
    exact ⟨(k, v), mem_rows_iff.mpr hv, rfl⟩

def any (p : K → V → Bool) (t : Table K V) : Bool := t.rows.any fun e => p e.1 e.2

theorem any_eq_true {p : K → V → Bool} {t : Table K V} :
    t.any p = true ↔ ∃ k v, t.lookup k = some v ∧ p k v = true := by
  simp only [any, List.any_eq_true, Prod.exists, mem_rows_iff]

theorem any_eq_false {p : K → V → Bool} {t : Table K V} :
    t.any p = false ↔ ∀ k v, t.lookup k = some v → p k v = false := by
  rw [← Bool.not_eq_true, any_eq_true]
  push Not
  simp only [Bool.not_eq_true]

/-- Each row in turn into a map, until one fails. -/
def collect (f : K → V → Except ε W) (out : Table K W) : List (K × V) → Except ε (Table K W)
  | [] => .ok out
  | (k, v) :: rest =>
    match f k v with
    | .error err => .error err
    | .ok w => collect f (out.insert k w) rest

theorem collect_ok {f : K → V → Except ε W} {l : List (K × V)} (hnodup : (l.map Prod.fst).Nodup)
    (h : ∀ e ∈ l, ∃ w, f e.1 e.2 = .ok w) (out : Table K W) :
    ∃ out', collect f out l = .ok out' ∧
      (∀ k v w, (k, v) ∈ l → f k v = .ok w → out'.lookup k = some w) ∧
      ∀ k, k ∉ l.map Prod.fst → out'.lookup k = out.lookup k := by
  induction l generalizing out with
  | nil => exact ⟨out, rfl, by simp, fun _ _ => rfl⟩
  | cons e l ih =>
    obtain ⟨k₀, v₀⟩ := e
    obtain ⟨w₀, hw₀⟩ := h (k₀, v₀) List.mem_cons_self
    obtain ⟨hnot, hnodup⟩ := List.nodup_cons.mp hnodup
    obtain ⟨out', hout', hin, hrest⟩ := ih hnodup (fun e he => h e (List.mem_cons_of_mem _ he))
      (out.insert k₀ w₀)
    refine ⟨out', by simp only [collect, hw₀, hout'], fun k v w hmem hw => ?_, fun k hk => ?_⟩
    · obtain heq | hmem := List.mem_cons.mp hmem
      · obtain ⟨rfl, rfl⟩ := Prod.mk.inj heq
        rw [hrest k hnot, AList.lookup_insert, ← Except.ok.inj (hw₀.symm.trans hw)]
      · exact hin k v w hmem hw
    · rw [List.map_cons, List.mem_cons, not_or] at hk
      rw [hrest k hk.2, AList.lookup_insert_ne hk.1]

end

end Table

end Knowledge
