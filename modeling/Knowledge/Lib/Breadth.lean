import Mathlib.Data.Finset.Card

/-!
The order in which a breadth-first search meets the vertices of a graph. The vertices met so far
stand in one list, each with its depth: first those that were left, then those that wait. Then the
search itself, from any number of starts.
-/

set_option autoImplicit false

namespace Knowledge.Breadth

section

variable {V : Type} {Step : V → V → Prop}

inductive Steps (Step : V → V → Prop) : Nat → V → V → Prop where
  | refl (a : V) : Steps Step 0 a a
  | tail {n : Nat} {a b c : V} : Steps Step n a b → Step b c → Steps Step (n+1) a c

/-- The vertices wait in the order of their depths, which differ by one at most, and what follows
one that was left above the limit has been met no more than one step deeper. -/
structure Ordered (Step : V → V → Prop) (start : V) (limit : Nat) (left waiting : List (V × Nat)) :
    Prop where
  start : (start, 0) ∈ left ++ waiting
  sorted : waiting.Pairwise fun a b => a.2 ≤ b.2
  spread : ∀ a ∈ waiting, ∀ b ∈ waiting, b.2 ≤ a.2+1
  closed : ∀ u k, (u, k) ∈ left → k < limit → ∀ v, Step u v →
    ∃ d ≤ k+1, (v, d) ∈ left ++ waiting

variable {start : V} {limit : Nat} {left waiting : List (V × Nat)}

theorem ordered_start (Step : V → V → Prop) (start : V) (limit : Nat) :
    Ordered Step start limit [] [(start, 0)] :=
  ⟨by simp, by simp, by simp, by simp⟩

/-- A walk within the limit ends at a vertex that was met in time, or passes one that waits. -/
theorem Ordered.met_or_waiting (h : Ordered Step start limit left waiting) {n : Nat} {v : V}
    (hs : Steps Step n start v) (hn : n ≤ limit) :
    (∃ d ≤ n, (v, d) ∈ left ++ waiting) ∨ ∃ a ∈ waiting, a.2 < n := by
  induction hs with
  | refl => exact .inl ⟨0, Nat.le_refl 0, h.start⟩
  | @tail n _ u v _ hstep ih =>
    obtain ⟨d, hd, hu⟩ | ⟨a, ha, hlt⟩ := ih h (by omega)
    · obtain hu | hu := List.mem_append.mp hu
      · obtain ⟨d', hd', hv⟩ := h.closed u d hu (by omega) v hstep
        exact .inl ⟨d', by omega, hv⟩
      · exact .inr ⟨(u, d), hu, by omega⟩
    · exact .inr ⟨a, ha, by omega⟩

/-- A vertex that was not met yet lies deeper than the first one that waits. -/
theorem Ordered.deeper {u : V} {k : Nat} (h : Ordered Step start limit left ((u, k) :: waiting))
    {n : Nat} {v : V} (hs : Steps Step n start v) (hn : n ≤ limit)
    (hv : ∀ d, (v, d) ∉ left ++ (u, k) :: waiting) : k < n := by
  obtain ⟨d, -, hd⟩ | ⟨a, ha, hlt⟩ := h.met_or_waiting hs hn
  · exact absurd hd (hv d)
  · obtain rfl | ha := List.mem_cons.mp ha
    · exact hlt
    · have hle := (List.pairwise_cons.mp h.sorted).1 a ha
      dsimp only at hle
      omega

theorem Ordered.push {u : V} {k : Nat} (h : Ordered Step start limit left ((u, k) :: waiting))
    (v : V) : Ordered Step start limit left ((u, k) :: waiting ++ [(v, k+1)]) := by
  have hlow : ∀ a ∈ (u, k) :: waiting, k ≤ a.2 := by
    intro a ha
    obtain rfl | ha := List.mem_cons.mp ha
    · exact Nat.le_refl _
    · exact (List.pairwise_cons.mp h.sorted).1 a ha
  have hhigh : ∀ a ∈ (u, k) :: waiting, a.2 ≤ k+1 := h.spread (u, k) List.mem_cons_self
  refine ⟨?_, ?_, ?_, ?_⟩
  · rw [← List.append_assoc]
    exact List.mem_append_left _ h.start
  · rw [List.pairwise_append]
    refine ⟨h.sorted, List.pairwise_singleton _ _, fun a ha b hb => ?_⟩
    obtain rfl := List.mem_singleton.mp hb
    exact hhigh a ha
  · intro a ha b hb
    obtain ha | ha := List.mem_append.mp ha <;> obtain hb | hb := List.mem_append.mp hb
    · exact h.spread a ha b hb
    · obtain rfl := List.mem_singleton.mp hb
      have hle := hlow a ha
      dsimp only
      omega
    · obtain rfl := List.mem_singleton.mp ha
      have hle := hhigh b hb
      dsimp only
      omega
    · obtain rfl := List.mem_singleton.mp ha
      obtain rfl := List.mem_singleton.mp hb
      omega
  · intro a d ha hd b hb
    obtain ⟨e, he, hmem⟩ := h.closed a d ha hd b hb
    refine ⟨e, he, ?_⟩
    rw [← List.append_assoc]
    exact List.mem_append_left _ hmem

theorem Ordered.pushAll {u : V} {k : Nat} (h : Ordered Step start limit left ((u, k) :: waiting))
    (vs : List V) :
    Ordered Step start limit left ((u, k) :: (waiting ++ vs.map fun v => (v, k+1))) := by
  induction vs generalizing waiting with
  | nil => simpa using h
  | cons v vs ih => simpa using ih (h.push v)

/-- The first vertex may be left when what follows it was met. -/
theorem Ordered.leave {u : V} {k : Nat} (h : Ordered Step start limit left ((u, k) :: waiting))
    (hu : k < limit → ∀ v, Step u v → ∃ d ≤ k+1, (v, d) ∈ left ++ (u, k) :: waiting) :
    Ordered Step start limit (left ++ [(u, k)]) waiting := by
  refine ⟨by simpa using h.start, (List.pairwise_cons.mp h.sorted).2, fun a ha b hb =>
    h.spread a (List.mem_cons_of_mem _ ha) b (List.mem_cons_of_mem _ hb), ?_⟩
  intro a d ha hd b hb
  rw [List.append_assoc, List.singleton_append]
  obtain ha | ha := List.mem_append.mp ha
  · exact h.closed a d ha hd b hb
  · obtain ⟨rfl, rfl⟩ := Prod.mk.inj (List.mem_singleton.mp ha)
    exact hu hd b hb

end

section Walk

variable {V : Type} [DecidableEq V]

/-- Those that were not met yet go to the ends of both lists. -/
def meet (depth : Nat) (vs met : List V) (waiting : List (V × Nat)) : List V × List (V × Nat) :=
  vs.foldl (fun s v => if v ∈ s.1 then s else (s.1 ++ [v], s.2 ++ [(v, depth)])) (met, waiting)

/-- The vertices met when none waits any more; `none` where that takes more rounds. -/
def walk (next : V → Nat → List V) : Nat → List V → List (V × Nat) → Option (List V)
  | 0, _, _ => none
  | _+1, met, [] => some met
  | rounds+1, met, (u, k) :: waiting =>
    let s := meet (k+1) (next u k) met waiting
    walk next rounds s.1 s.2

/-- What a round adds: vertices that are new, each once, and with them all that follow are met. -/
structure Adds (vs met added : List V) : Prop where
  nodup : added.Nodup
  new : ∀ v ∈ added, v ∈ vs ∧ v ∉ met
  all : ∀ v ∈ vs, v ∈ met ++ added

theorem meet_adds (depth : Nat) (vs met : List V) (waiting : List (V × Nat)) :
    ∃ added, Adds vs met added ∧
      meet depth vs met waiting = (met ++ added, waiting ++ added.map fun v => (v, depth)) := by
  induction vs generalizing met waiting with
  | nil => exact ⟨[], ⟨List.nodup_nil, by simp, by simp⟩, by simp [meet]⟩
  | cons v vs ih =>
    by_cases hv : v ∈ met
    · obtain ⟨added, h, heq⟩ := ih met waiting
      refine ⟨added, ⟨h.nodup, fun x hx => ?_, fun x hx => ?_⟩, ?_⟩
      · exact ⟨List.mem_cons_of_mem _ (h.new x hx).1, (h.new x hx).2⟩
      · rcases List.mem_cons.mp hx with rfl | hx
        · exact List.mem_append_left _ hv
        · exact h.all x hx
      · simpa [meet, hv] using heq
    · obtain ⟨added, h, heq⟩ := ih (met ++ [v]) (waiting ++ [(v, depth)])
      have hnew : v ∉ added := fun hin => (h.new v hin).2 (by simp)
      refine ⟨v :: added, ⟨List.nodup_cons.mpr ⟨hnew, h.nodup⟩, fun x hx => ?_, fun x hx => ?_⟩, ?_⟩
      · rcases List.mem_cons.mp hx with rfl | hx
        · exact ⟨List.mem_cons_self, hv⟩
        · exact ⟨List.mem_cons_of_mem _ (h.new x hx).1,
            fun hin => (h.new x hx).2 (List.mem_append_left _ hin)⟩
      · rcases List.mem_cons.mp hx with rfl | hx
        · simp
        · simpa using h.all x hx
      · simpa [meet, hv] using heq

variable {next : V → Nat → List V}

/-- What one round keeps holds at the end, when no vertex waits. -/
theorem walk_induction (P : List V → List (V × Nat) → List (V × Nat) → Prop)
    (hstep : ∀ met left u k waiting added, P met left ((u, k) :: waiting) →
      Adds (next u k) met added →
      P (met ++ added) (left ++ [(u, k)]) (waiting ++ added.map fun v => (v, k+1)))
    {rounds : Nat} {met out : List V} (left : List (V × Nat)) {waiting : List (V × Nat)}
    (h : P met left waiting) (hwalk : walk next rounds met waiting = some out) :
    ∃ left', P out left' [] := by
  induction rounds generalizing met left waiting with
  | zero => cases hwalk
  | succ rounds ih =>
    cases waiting with
    | nil =>
      obtain rfl : met = out := Option.some.inj hwalk
      exact ⟨left, h⟩
    | cons entry waiting =>
      obtain ⟨u, k⟩ := entry
      obtain ⟨added, hadds, heq⟩ := meet_adds (k+1) (next u k) met waiting
      rw [walk, heq] at hwalk
      exact ih _ (hstep met left u k waiting added h hadds) hwalk

/-- More rounds change nothing. -/
theorem walk_mono {rounds more : Nat} {met out : List V} {waiting : List (V × Nat)}
    (h : walk next rounds met waiting = some out) (hle : rounds ≤ more) :
    walk next more met waiting = some out := by
  induction rounds generalizing more met waiting with
  | zero => cases h
  | succ rounds ih =>
    obtain ⟨more, rfl⟩ : ∃ m, more = m+1 := ⟨more-1, by omega⟩
    cases waiting with
    | nil => exact h
    | cons entry waiting =>
      simp only [walk] at h ⊢
      exact ih h (by omega)

/-- A round leaves one vertex, and those it adds are of the finitely many that may be met. -/
theorem walk_of_enough {all : Finset V} (hnext : ∀ u k, ∀ v ∈ next u k, v ∈ all) {rounds : Nat}
    {met : List V} {waiting : List (V × Nat)}
    (h : (all \ met.toFinset).card+waiting.length < rounds) :
    ∃ out, walk next rounds met waiting = some out := by
  induction rounds generalizing met waiting with
  | zero => omega
  | succ rounds ih =>
    cases waiting with
    | nil => exact ⟨met, rfl⟩
    | cons entry waiting =>
      obtain ⟨u, k⟩ := entry
      obtain ⟨added, hadds, heq⟩ := meet_adds (k+1) (next u k) met waiting
      rw [walk, heq]
      refine ih ?_
      have hsub : added.toFinset ⊆ all \ met.toFinset := by
        intro v hv
        obtain ⟨hv, hnew⟩ := hadds.new v (List.mem_toFinset.mp hv)
        exact Finset.mem_sdiff.mpr ⟨hnext u k v hv, by simpa using hnew⟩
      have hcard := Finset.card_sdiff_add_card_eq_card hsub
      rw [List.toFinset_card_of_nodup hadds.nodup] at hcard
      have hless : all \ (met ++ added).toFinset = (all \ met.toFinset) \ added.toFinset := by
        rw [List.toFinset_append, sdiff_sdiff_left, Finset.sup_eq_union]
      simp only [hless, List.length_append, List.length_map, List.length_cons] at h ⊢
      omega

theorem walk_ends {all : Finset V} (hnext : ∀ u k, ∀ v ∈ next u k, v ∈ all) (met : List V)
    (waiting : List (V × Nat)) :
    ∃ out enough, ∀ rounds ≥ enough, walk next rounds met waiting = some out := by
  obtain ⟨out, hout⟩ := walk_of_enough hnext
    (Nat.lt_succ_self ((all \ met.toFinset).card+waiting.length))
  exact ⟨out, _, fun _ hle => walk_mono hout hle⟩

theorem walk_nodup {rounds : Nat} {met out : List V} {waiting : List (V × Nat)} (h : met.Nodup)
    (hwalk : walk next rounds met waiting = some out) : out.Nodup := by
  obtain ⟨_, hout⟩ := walk_induction (fun met _ _ => met.Nodup)
    (fun met _ u k _ added hmet hadds => List.nodup_append.mpr ⟨hmet, hadds.nodup,
      fun a ha b hb heq => (hadds.new b hb).2 (heq ▸ ha)⟩) [] h hwalk
  exact hout

/-- What holds of the starts and of all that follows holds of every vertex met. -/
theorem walk_sound {P : V → Prop} (hnext : ∀ u k, P u → ∀ v ∈ next u k, P v) {rounds : Nat}
    {met out : List V} {waiting : List (V × Nat)} (hmet : ∀ v ∈ met, P v)
    (hwaiting : ∀ a ∈ waiting, P a.1) (hwalk : walk next rounds met waiting = some out) :
    ∀ v ∈ out, P v := by
  let Holds (met : List V) (_ waiting : List (V × Nat)) : Prop :=
    (∀ v ∈ met, P v) ∧ ∀ a ∈ waiting, P a.1
  have hstep : ∀ met left u k waiting added, Holds met left ((u, k) :: waiting) →
      Adds (next u k) met added →
      Holds (met ++ added) (left ++ [(u, k)]) (waiting ++ added.map fun v => (v, k+1)) := by
    intro met left u k waiting added h hadds
    have hadded : ∀ v ∈ added, P v := fun v hv =>
      hnext u k (h.2 (u, k) List.mem_cons_self) v (hadds.new v hv).1
    constructor
    · intro v hv
      rcases List.mem_append.mp hv with hv | hv
      · exact h.1 v hv
      · exact hadded v hv
    · intro a ha
      rcases List.mem_append.mp ha with ha | ha
      · exact h.2 a (List.mem_cons_of_mem _ ha)
      · obtain ⟨v, hv, rfl⟩ := List.mem_map.mp ha
        exact hadded v hv
  obtain ⟨_, hout⟩ := walk_induction Holds hstep [] ⟨hmet, hwaiting⟩ hwalk
  exact hout.1

/-- A search in progress: the vertices met, and the depths at which they were. -/
structure Walking (Step : V → V → Prop) (start : V) (limit : Nat) (met : List V)
    (left waiting : List (V × Nat)) : Prop where
  ordered : Ordered Step start limit left waiting
  met_iff : ∀ v, v ∈ met ↔ ∃ d, (v, d) ∈ left ++ waiting
  behind : ∀ a ∈ left, ∀ b ∈ waiting, a.2 ≤ b.2

variable {Step : V → V → Prop} {start : V} {limit : Nat}

omit [DecidableEq V] in
theorem Walking.step {met added : List V} {left waiting : List (V × Nat)} {u : V} {k : Nat}
    (h : Walking Step start limit met left ((u, k) :: waiting)) (hadds : Adds (next u k) met added)
    (hnext : k < limit → ∀ v, Step u v → v ∈ next u k ∨ v = u) :
    Walking Step start limit (met ++ added) (left ++ [(u, k)])
      (waiting ++ added.map fun v => (v, k+1)) := by
  have hpush := h.ordered.pushAll added
  have hmet : ∀ v, v ∈ met ++ added ↔
      ∃ d, (v, d) ∈ left ++ (u, k) :: (waiting ++ added.map fun v => (v, k+1)) := by
    intro v
    rw [List.mem_append, h.met_iff]
    simp only [List.mem_append, List.mem_cons, List.mem_map, Prod.mk.injEq]
    constructor
    · rintro (⟨d, hd⟩ | hv)
      · exact ⟨d, by tauto⟩
      · exact ⟨k+1, by tauto⟩
    · rintro ⟨d, hd | hd | hd | ⟨w, hw, rfl, rfl⟩⟩
      · exact .inl ⟨d, .inl hd⟩
      · exact .inl ⟨d, .inr (.inl hd)⟩
      · exact .inl ⟨d, .inr (.inr hd)⟩
      · exact .inr hw
  refine ⟨hpush.leave fun hlt v hv => ?_, fun v => ?_, fun a ha b hb => ?_⟩
  · have hmem : v ∈ met ++ added := by
      rcases hnext hlt v hv with hin | rfl
      · exact hadds.all v hin
      · exact List.mem_append_left _ ((h.met_iff v).mpr ⟨k, by simp⟩)
    obtain ⟨d, hd⟩ := (hmet v).mp hmem
    refine ⟨d, ?_, hd⟩
    rcases List.mem_append.mp hd with hd | hd
    · have hle : d ≤ k := h.behind (v, d) hd (u, k) List.mem_cons_self
      omega
    · exact hpush.spread (u, k) List.mem_cons_self (v, d) hd
  · rw [hmet]
    simp
  · have hlow : k ≤ b.2 := by
      rcases List.mem_append.mp hb with hb | hb
      · exact (List.pairwise_cons.mp h.ordered.sorted).1 b hb
      · obtain ⟨w, _, rfl⟩ := List.mem_map.mp hb
        exact Nat.le_succ k
    rcases List.mem_append.mp ha with ha | ha
    · have hle : a.2 ≤ k := h.behind a ha (u, k) List.mem_cons_self
      omega
    · obtain rfl := List.mem_singleton.mp ha
      exact hlow

omit [DecidableEq V] in
theorem walking_start (Step : V → V → Prop) (limit : Nat) {starts met : List V}
    (hstart : start ∈ starts) (hmet : ∀ v, v ∈ met ↔ v ∈ starts) :
    Walking Step start limit met [] (starts.map fun v => (v, 0)) := by
  refine ⟨⟨?_, ?_, ?_, by simp⟩, fun v => ?_, by simp⟩
  · exact List.mem_map_of_mem hstart
  · rw [List.pairwise_map]
    exact List.pairwise_of_forall fun _ _ => Nat.le_refl 0
  · intro a _ b hb
    obtain ⟨_, _, rfl⟩ := List.mem_map.mp hb
    exact Nat.zero_le _
  · rw [hmet]
    simp

/-- Every vertex within the limit of a start is met. -/
theorem walk_complete (hnext : ∀ u k, k < limit → ∀ v, Step u v → v ∈ next u k ∨ v = u)
    {starts met out : List V} (hstart : start ∈ starts) (hmet : ∀ v, v ∈ met ↔ v ∈ starts)
    {rounds : Nat} (hwalk : walk next rounds met (starts.map fun v => (v, 0)) = some out) {n : Nat}
    {v : V} (hs : Steps Step n start v) (hn : n ≤ limit) : v ∈ out := by
  obtain ⟨left, hout⟩ := walk_induction (Walking Step start limit)
    (fun _ _ u k _ _ h hadds => h.step hadds (hnext u k)) [] (walking_start Step limit hstart hmet)
    hwalk
  rcases hout.ordered.met_or_waiting hs hn with ⟨d, -, hd⟩ | ⟨a, ha, -⟩
  · exact (hout.met_iff v).mpr ⟨d, hd⟩
  · cases ha

end Walk

end Knowledge.Breadth
