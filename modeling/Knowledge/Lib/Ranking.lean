import Mathlib.Data.List.Sort
import Mathlib.Data.Finset.Max

/-!
Rankings of keys, the smallest rank first. To know the best few entries of a merger, no more than
the best few of each of the merged lists need be read; only which of the keys of one rank are
among them may depend on it.
-/

set_option autoImplicit false

namespace Knowledge.Ranking

variable {K R : Type} [LinearOrder R] (lt : K → K → Prop)

/-- The order of a ranking: by rank, and by key where the ranks are the same. -/
def Before (e f : K × R) : Prop := e.2 < f.2 ∨ e.2 = f.2 ∧ lt e.1 f.1

/-- Some `n` best entries, whichever of those that have the last rank. -/
structure Best (n : Nat) (all part : List (K × R)) : Prop where
  subset : ∀ e ∈ part, e ∈ all
  keys : (part.map Prod.fst).Nodup
  length_le : part.length ≤ n
  left : ∀ e ∈ all, e ∉ part → part.length = n ∧ ∀ f ∈ part, f.2 ≤ e.2

/-- A change of the ranks that keeps their order keeps the best. -/
theorem Best.map {R' : Type} [LinearOrder R'] {f : R → R'} (hf : Monotone f) {n : Nat}
    {all part : List (K × R)} (h : Best n all part) :
    Best n (all.map (Prod.map id f)) (part.map (Prod.map id f)) where
  subset e he := by
    obtain ⟨a, ha, rfl⟩ := List.mem_map.mp he
    exact List.mem_map_of_mem (h.subset a ha)
  keys := by simpa [Function.comp_def] using h.keys
  length_le := by simpa using h.length_le
  left e he hout := by
    obtain ⟨a, ha, rfl⟩ := List.mem_map.mp he
    obtain ⟨hlength, hle⟩ := h.left a ha fun hmem => hout (List.mem_map_of_mem hmem)
    refine ⟨by simpa using hlength, fun g hg => ?_⟩
    obtain ⟨b, hb, rfl⟩ := List.mem_map.mp hg
    exact hf (hle b hb)

/-- Every key of some entries once, with the least of its ranks. -/
structure Merged (entries ranking : List (K × R)) : Prop where
  sorted : ranking.Pairwise (Before lt)
  mem : ∀ k r, (k, r) ∈ ranking ↔ IsLeast {s | (k, s) ∈ entries} r

section

variable {lt}

/-- The first entries come before the rest. -/
theorem before_of_notMem_take {n : Nat} {l : List (K × R)} (hl : l.Pairwise (Before lt))
    {e : K × R} (he : e ∈ l) (hout : e ∉ l.take n) :
    (l.take n).length = n ∧ ∀ f ∈ l.take n, Before lt f e := by
  have hdrop : e ∈ l.drop n := by
    rw [← List.take_append_drop n l] at he
    exact (List.mem_append.mp he).resolve_left hout
  refine ⟨?_, fun f hf => ?_⟩
  · have hpos := List.length_pos_of_mem hdrop
    simp only [List.length_drop] at hpos
    simp only [List.length_take]
    omega
  · rw [← List.take_append_drop n l] at hl
    exact (List.pairwise_append.mp hl).2.2 f hf e hdrop

theorem Merged.eq_rank {entries ranking : List (K × R)} (h : Merged lt entries ranking) {k : K}
    {r s : R} (hr : (k, r) ∈ ranking) (hs : (k, s) ∈ ranking) : r = s :=
  ((h.mem k r).mp hr).unique ((h.mem k s).mp hs)

theorem exists_isLeast [DecidableEq K] {entries : List (K × R)} {k : K} {s : R}
    (hs : (k, s) ∈ entries) : ∃ r ≤ s, IsLeast {s | (k, s) ∈ entries} r := by
  have hmem : s ∈ ((entries.filter fun e => e.1 = k).map Prod.snd).toFinset := by
    simpa using hs
  have hleast := Finset.isLeast_min' _ ⟨s, hmem⟩
  refine ⟨_, hleast.2 hmem, ?_⟩
  convert hleast using 1
  ext t
  simp

theorem Merged.exists_of_mem [DecidableEq K] {entries ranking : List (K × R)}
    (h : Merged lt entries ranking) {k : K} {s : R} (hs : (k, s) ∈ entries) :
    ∃ r ≤ s, (k, r) ∈ ranking := by
  obtain ⟨r, hle, hleast⟩ := exists_isLeast hs
  exact ⟨r, hle, (h.mem k r).mpr hleast⟩

variable [IsStrictOrder K lt]

theorem before_irrefl (e : K × R) : ¬Before lt e e := by
  rintro (h | ⟨-, h⟩)
  · exact lt_irrefl _ h
  · exact irrefl _ h

theorem Before.not_symm {e f : K × R} (h : Before lt e f) : ¬Before lt f e := by
  rintro (h' | ⟨heq, h'⟩)
  · obtain h | ⟨heq, -⟩ := h
    · exact lt_asymm h h'
    · exact h'.ne' heq
  · obtain h | ⟨-, h⟩ := h
    · exact h.ne' heq
    · exact asymm h h'

instance : Std.Irrefl (Before (R := R) lt) := ⟨before_irrefl⟩

instance : Std.Antisymm (Before (R := R) lt) := ⟨fun _ _ h h' => absurd h' h.not_symm⟩

/-- An entry is among the first only if few come before it. -/
theorem length_lt_of_mem_take {n : Nat} {l S : List (K × R)} (hl : l.Pairwise (Before lt))
    {e : K × R} (he : e ∈ l.take n) (hS : S.Nodup) (hbefore : ∀ f ∈ S, f ∈ l ∧ Before lt f e) :
    S.length < n := by
  obtain ⟨first, rest, htake⟩ := List.append_of_mem he
  have hsplit : l = first ++ e :: (rest ++ l.drop n) := by
    calc l = l.take n ++ l.drop n := (List.take_append_drop n l).symm
      _ = first ++ e :: (rest ++ l.drop n) := by rw [htake, List.append_assoc, List.cons_append]
  have hfirst : S ⊆ first := by
    intro f hf
    obtain ⟨hmem, hlt⟩ := hbefore f hf
    rw [hsplit] at hmem hl
    obtain hmem | hmem := List.mem_append.mp hmem
    · exact hmem
    · obtain rfl | hmem := List.mem_cons.mp hmem
      · exact absurd hlt (before_irrefl f)
      · have hafter := (List.pairwise_cons.mp (List.pairwise_append.mp hl).2.1).1 f hmem
        exact absurd hlt hafter.not_symm
  have hle := (List.subperm_of_subset hS hfirst).length_le
  have hcount := congrArg List.length htake
  simp only [List.length_take, List.length_append, List.length_cons] at hcount
  omega

theorem Merged.nodup_keys {entries ranking : List (K × R)} (h : Merged lt entries ranking) :
    (ranking.map Prod.fst).Nodup := by
  rw [List.nodup_map_iff_inj_on h.sorted.nodup]
  rintro ⟨k, r⟩ hr ⟨k', s⟩ hs (rfl : k = k')
  rw [h.eq_rank hr hs]

section Lanes

variable [DecidableEq K] {n : Nat} {lanes : List (List (K × R) × List (K × R))}
  {full cut : List (K × R)}

/-- An entry of the merger that was not read is crowded out by `n` others. -/
theorem crowded (hbest : ∀ p ∈ lanes, Best n p.1 p.2)
    (hfull : Merged lt (lanes.flatMap Prod.fst) full)
    (hcut : Merged lt (lanes.flatMap Prod.snd) cut) {k : K} {r : R} (hin : (k, r) ∈ full)
    (hout : (k, r) ∉ cut) :
    ∃ p ∈ lanes, (k, r) ∈ p.1 ∧ (k, r) ∉ p.2 ∧ ∃ S : List (K × R), S.Nodup ∧ S.length = n ∧
      ∀ e ∈ S, e ∈ cut ∧ ∃ f ∈ p.2, e.2 ≤ f.2 := by
  obtain ⟨hmem, hleast⟩ := (hfull.mem k r).mp hin
  obtain ⟨p, hp, hmem⟩ := List.mem_flatMap.mp hmem
  have hunread : (k, r) ∉ p.2 := by
    intro hread
    refine hout ((hcut.mem k r).mpr ⟨List.mem_flatMap.mpr ⟨p, hp, hread⟩, fun s hs => ?_⟩)
    obtain ⟨q, hq, hs⟩ := List.mem_flatMap.mp hs
    exact hleast (List.mem_flatMap.mpr ⟨q, hq, (hbest q hq).subset _ hs⟩)
  have hread : ∀ f ∈ p.2, ∃ e ∈ cut, e.1 = f.1 ∧ e.2 ≤ f.2 := by
    intro f hf
    obtain ⟨s, hs, hmem⟩ := hcut.exists_of_mem (List.mem_flatMap.mpr ⟨p, hp, hf⟩)
    exact ⟨(f.1, s), hmem, rfl, hs⟩
  refine ⟨p, hp, hmem, hunread, cut.filter fun e => e.1 ∈ p.2.map Prod.fst,
    hcut.sorted.nodup.filter _, ?_, fun e he => ?_⟩
  · have hperm : ((cut.filter fun e => e.1 ∈ p.2.map Prod.fst).map Prod.fst).Perm
        (p.2.map Prod.fst) := by
      refine (List.perm_ext_iff_of_nodup ?_ (hbest p hp).keys).mpr fun j => ?_
      · exact hcut.nodup_keys.sublist (List.filter_sublist.map _)
      · constructor
        · intro hj
          obtain ⟨e, he, rfl⟩ := List.mem_map.mp hj
          simpa using (List.mem_filter.mp he).2
        · intro hj
          obtain ⟨f, hf, rfl⟩ := List.mem_map.mp hj
          obtain ⟨e, he, hkey, -⟩ := hread f hf
          exact List.mem_map.mpr ⟨e, List.mem_filter.mpr ⟨he, by simpa [hkey] using hj⟩, hkey⟩
    have hlength := hperm.length_eq
    simp only [List.length_map] at hlength
    exact hlength.trans ((hbest p hp).left _ hmem hunread).1
  · obtain ⟨he, hkey⟩ := List.mem_filter.mp he
    obtain ⟨f, hf, hkey⟩ := List.mem_map.mp (of_decide_eq_true hkey)
    obtain ⟨e', he', hkey', hle⟩ := hread f hf
    have hsame : e' = e := by
      have hrank : (e.1, e'.2) ∈ cut := by rw [← hkey, ← hkey']; exact he'
      exact Prod.ext (hkey'.trans hkey) (hcut.eq_rank hrank he)
    exact ⟨he, f, hf, hsame ▸ hle⟩

/-- The best of a merger, of which only the best of every list were read. -/
theorem best_take (hbest : ∀ p ∈ lanes, Best n p.1 p.2)
    (hfull : Merged lt (lanes.flatMap Prod.fst) full)
    (hcut : Merged lt (lanes.flatMap Prod.snd) cut) : Best n full (cut.take n) := by
  have hcrowd : ∀ e ∈ full, e ∉ cut → ∃ S : List (K × R), S.Nodup ∧ S.length = n ∧
      ∀ f ∈ S, f ∈ cut ∧ f.2 ≤ e.2 := by
    rintro ⟨k, r⟩ hin hout
    obtain ⟨p, hp, hmem, hunread, S, hnodup, hlength, hS⟩ := crowded hbest hfull hcut hin hout
    refine ⟨S, hnodup, hlength, fun f hf => ⟨(hS f hf).1, ?_⟩⟩
    obtain ⟨f', hf', hle⟩ := (hS f hf).2
    exact hle.trans (((hbest p hp).left _ hmem hunread).2 f' hf')
  refine ⟨fun e he => ?_, ?_, List.length_take_le _ _, fun e he hout => ?_⟩
  · obtain ⟨hread, -⟩ := (hcut.mem e.1 e.2).mp (List.mem_of_mem_take he)
    obtain ⟨p, hp, hread⟩ := List.mem_flatMap.mp hread
    obtain ⟨r, hle, hin⟩ := hfull.exists_of_mem
      (List.mem_flatMap.mpr ⟨p, hp, (hbest p hp).subset _ hread⟩)
    by_cases hcutr : (e.1, r) ∈ cut
    · rwa [hcut.eq_rank hcutr (List.mem_of_mem_take he)] at hin
    · obtain ⟨S, hnodup, hlength, hS⟩ := hcrowd _ hin hcutr
      have hlt : r < e.2 := hle.lt_of_ne fun heq => hcutr (heq ▸ List.mem_of_mem_take he)
      have hfew := length_lt_of_mem_take hcut.sorted he hnodup fun f hf =>
        ⟨(hS f hf).1, .inl ((hS f hf).2.trans_lt hlt)⟩
      omega
  · exact hcut.nodup_keys.sublist ((List.take_sublist _ _).map _)
  · by_cases hcute : e ∈ cut
    · obtain ⟨hlength, hbefore⟩ := before_of_notMem_take hcut.sorted hcute hout
      exact ⟨hlength, fun f hf => (hbefore f hf).elim le_of_lt fun h => h.1.le⟩
    · obtain ⟨S, hnodup, hlength, hS⟩ := hcrowd e he hcute
      have hmany := (List.subperm_of_subset hnodup fun f hf => (hS f hf).1).length_le
      refine ⟨by simp only [List.length_take]; omega, fun f hf => ?_⟩
      by_contra hlt
      have hfew := length_lt_of_mem_take hcut.sorted hf hnodup fun g hg =>
        ⟨(hS g hg).1, .inl ((hS g hg).2.trans_lt (not_le.mp hlt))⟩
      omega

/-- The entries that are read are better than those that are not, in every list. -/
def Clear (lanes : List (List (K × R) × List (K × R))) : Prop :=
  ∀ p ∈ lanes, ∀ e ∈ p.1, e ∉ p.2 → ∀ f ∈ p.2, f.2 < e.2

theorem take_eq (hbest : ∀ p ∈ lanes, Best n p.1 p.2)
    (hfull : Merged lt (lanes.flatMap Prod.fst) full)
    (hcut : Merged lt (lanes.flatMap Prod.snd) cut) (hclear : Clear lanes) :
    cut.take n = full.take n := by
  have hpart := best_take hbest hfull hcut
  have hread : ∀ e ∈ full.take n, e ∈ cut.take n := by
    intro e he
    have hin := List.mem_of_mem_take he
    by_contra hout
    obtain ⟨hlength, hle⟩ := hpart.left e hin hout
    have hbefore : ∀ f ∈ cut.take n, Before lt f e := by
      by_cases hcute : e ∈ cut
      · exact (before_of_notMem_take hcut.sorted hcute hout).2
      · obtain ⟨p, hp, hmem, hunread, S, hnodup, hS, hbetter⟩ :=
          crowded hbest hfull hcut hin hcute
        intro f hf
        refine .inl ((hle f hf).lt_of_ne fun heq => ?_)
        have hfew := length_lt_of_mem_take hcut.sorted hf hnodup fun g hg => by
          obtain ⟨hg, g', hg', hle'⟩ := hbetter g hg
          exact ⟨hg, .inl (hle'.trans_lt (heq ▸ hclear p hp _ hmem hunread g' hg'))⟩
        omega
    have hfew := length_lt_of_mem_take hfull.sorted he
      (hcut.sorted.nodup.sublist (List.take_sublist _ _)) fun f hf =>
        ⟨hpart.subset f hf, hbefore f hf⟩
    omega
  have hsorted : ∀ {l : List (K × R)}, l.Pairwise (Before lt) → (l.take n).Pairwise (Before lt) :=
    fun h => h.sublist (List.take_sublist _ _)
  refine (hsorted hcut.sorted).eq_of_mem_iff (hsorted hfull.sorted) fun e => ⟨fun he => ?_, hread e⟩
  by_contra hout
  obtain ⟨hlength, hbefore⟩ := before_of_notMem_take hfull.sorted (hpart.subset e he) hout
  have hfew := length_lt_of_mem_take hcut.sorted he
    (hfull.sorted.nodup.sublist (List.take_sublist _ _)) fun f hf =>
      ⟨List.mem_of_mem_take (hread f hf), hbefore f hf⟩
  omega

end Lanes

end

end Knowledge.Ranking
