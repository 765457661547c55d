import Mathlib.Algebra.Order.Field.Rat
import Knowledge.Agent.Proposals
import Knowledge.Lib.Machine
import Knowledge.Lib.Ranking

/-!
`merged_fts_search` of `crates/evidence_store/src/store.rs`: one search over the three lexical
indexes, whose answers are merged by rank. The indexes are what SQLite answers, ranks are exact,
and the stopwords that are stripped from a query stay a parameter.
-/

set_option autoImplicit false

namespace Knowledge.Retrieval
open Knowledge.Machine Knowledge.Ranking
open Knowledge.Sync (Uuid)
open Knowledge.Memory (ScopeId)
open Knowledge.Agent (isBlank)

abbrev Bytes := List UInt8

abbrev EvidenceId := Uuid

/-- `rusqlite::Error`; the code of a failure is the extended one. -/
inductive SqlError where
  | sqliteFailure (extendedCode : Int) (message : String)
  | other (message : String)
  deriving DecidableEq

inductive EvidenceError where
  | sqlite (err : SqlError)
  | invalidQuery (message : String)
  | schema (message : String)
  deriving DecidableEq

def sqliteError : Int := 1

def classifyUnicode61FtsError : SqlError → EvidenceError
  | .sqliteFailure code message =>
    if code % 256 = sqliteError then .invalidQuery message
    else .sqlite (.sqliteFailure code message)
  | .other message => .sqlite (.other message)

inductive Lane where
  | unicode61
  | cjkTrigram
  | bigram
  deriving DecidableEq

def laneWeight : Lane → ℚ
  | .unicode61 => 1
  | .cjkTrigram => 17/20
  | .bigram => 7/10

def clampLimitToSqlite (n : Nat) : Int := min n i64Max

def uuidBytes (id : Uuid) : Bytes := toBeBytes 16 id.toNat

def sliceToUuid (b : Bytes) : Except EvidenceError Uuid :=
  if b.length ≠ 16 then .error (.schema "UUID column has wrong width")
  else .ok (BitVec.ofNat 128 (ofBeBytes b))

/-- What the statement of a lane yields for an operand, a scope and a limit: ids with ranks. -/
structure Connection where
  select : Lane → String → ScopeId → Int → Except SqlError (List (Bytes × ℚ))

def isCjkOrThaiCodepoint (c : Char) : Bool :=
  let n := c.toNat
  (0x3040 ≤ n && n ≤ 0x309f) || (0x30a0 ≤ n && n ≤ 0x30ff) || (0x31f0 ≤ n && n ≤ 0x31ff) ||
    (0xff65 ≤ n && n ≤ 0xff9f) || (0x2e80 ≤ n && n ≤ 0x2eff) || (0x3400 ≤ n && n ≤ 0x4dbf) ||
    (0x4e00 ≤ n && n ≤ 0x9fff) || (0xf900 ≤ n && n ≤ 0xfaff) || (0x20000 ≤ n && n ≤ 0x2a6df) ||
    (0x2a700 ≤ n && n ≤ 0x2ee5f) || (0x30000 ≤ n && n ≤ 0x33479) || (0x0e00 ≤ n && n ≤ 0x0fff) ||
    (0x1000 ≤ n && n ≤ 0x109f) || (0x1780 ≤ n && n ≤ 0x17ff) || (0x19e0 ≤ n && n ≤ 0x19ff) ||
    (0xa9e0 ≤ n && n ≤ 0xa9ff) || (0xaa60 ≤ n && n ≤ 0xaa7f)

def computeCjkBigramQuery (query : String) : Option String :=
  let kept := query.toList.filter isCjkOrThaiCodepoint
  if kept.length < 2 then none
  else some (String.intercalate " AND "
    ((kept.zip kept.tail).map fun e => "\"" ++ String.ofList [e.1, e.2] ++ "\""))

def mergeMinRank (bestRank : Table EvidenceId ℚ) (id : EvidenceId) (rank : ℚ) :
    Table EvidenceId ℚ :=
  match bestRank.lookup id with
  | some existing => bestRank.insert id (min existing rank)
  | none => bestRank.insert id rank

def mergeLane (weight : ℚ) (bestRank : Table EvidenceId ℚ) (rows : List (EvidenceId × ℚ)) :
    Table EvidenceId ℚ :=
  rows.foldl (fun bestRank e => mergeMinRank bestRank e.1 (e.2 * weight)) bestRank

def baselineLane (conn : Connection) (query : String) (scopeId : ScopeId) (limitSql : Int) :
    Except EvidenceError (List (EvidenceId × ℚ)) :=
  match conn.select .unicode61 query scopeId limitSql with
  | .error err => .error (classifyUnicode61FtsError err)
  | .ok rows => rows.mapM fun row => do return (← sliceToUuid row.1, row.2)

/-- A lane that only adds recall: without its answer, or a row with a broken id, the search
goes on. -/
def recallLane (conn : Connection) (lane : Lane) (operand : String) (scopeId : ScopeId)
    (limitSql : Int) : List (EvidenceId × ℚ) :=
  match conn.select lane operand scopeId limitSql with
  | .error _ => []
  | .ok rows => rows.filterMap fun row => (sliceToUuid row.1).toOption.map fun id => (id, row.2)

def hitLe (a b : EvidenceId × ℚ) : Prop := a.2 < b.2 ∨ a.2 = b.2 ∧ a.1.toNat ≤ b.1.toNat

instance : DecidableRel hitLe := fun a b =>
  inferInstanceAs (Decidable (a.2 < b.2 ∨ a.2 = b.2 ∧ a.1.toNat ≤ b.1.toNat))

instance : Std.Total hitLe := ⟨fun a b => by unfold hitLe; grind⟩

instance : IsTrans (EvidenceId × ℚ) hitLe := ⟨fun a b c hab hbc => by unfold hitLe at *; grind⟩

section

variable (weight : Lane → ℚ) (strip : String → String)

def mergedFtsSearch (conn : Connection) (scopeId : ScopeId) (query : String) (limit : Nat) :
    Except EvidenceError (List (EvidenceId × ℚ)) :=
  if limit = 0 then .ok []
  else do
    let limitSql := clampLimitToSqlite limit
    let strippedQuery := strip query
    let bestRank := mergeLane (weight .unicode61) ∅ (← baselineLane conn query scopeId limitSql)
    let bestRank :=
      if isBlank strippedQuery then bestRank
      else mergeLane (weight .cjkTrigram) bestRank
        (recallLane conn .cjkTrigram strippedQuery scopeId limitSql)
    let bestRank :=
      if isBlank strippedQuery then bestRank
      else
        match computeCjkBigramQuery strippedQuery with
        | some bigramMatch => mergeLane (weight .bigram) bestRank
            (recallLane conn .bigram bigramMatch scopeId limitSql)
        | none => bestRank
    return (bestRank.rows.insertionSort hitLe).take limit

end

section

theorem sliceToUuid_uuidBytes (id : Uuid) : sliceToUuid (uuidBytes id) = .ok id := by
  have hlen : (uuidBytes id).length = 16 := by
    rw [uuidBytes, toBeBytes, List.length_reverse, length_toLeBytes]
  have hread : ofBeBytes (uuidBytes id) = id.toNat := ofBeBytes_toBeBytes id.isLt
  simp [sliceToUuid, hlen, hread]

def indexRow (e : EvidenceId × ℚ) : Bytes × ℚ := (uuidBytes e.1, e.2)

variable {conn : Connection} {scopeId : ScopeId} {limitSql : Int} {operand : String}
  {part : List (EvidenceId × ℚ)}

theorem baselineLane_ok (h : conn.select .unicode61 operand scopeId limitSql =
    .ok (part.map indexRow)) : baselineLane conn operand scopeId limitSql = .ok part := by
  have hread : ∀ rows : List (EvidenceId × ℚ), ((rows.map indexRow).mapM fun row => do
      return (← sliceToUuid row.1, row.2) : Except EvidenceError _) = .ok rows := by
    intro rows
    induction rows with
    | nil => rfl
    | cons e rows ih =>
      rw [List.map_cons, List.mapM_cons, ih, indexRow, sliceToUuid_uuidBytes]
      rfl
  rw [baselineLane, h]
  exact hread part

theorem recallLane_ok {lane : Lane} (h : conn.select lane operand scopeId limitSql =
    .ok (part.map indexRow)) : recallLane conn lane operand scopeId limitSql = part := by
  have hread : (fun row : Bytes × ℚ => (sliceToUuid row.1).toOption.map fun id => (id, row.2)) ∘
      indexRow = some := by
    funext e
    simp [indexRow, sliceToUuid_uuidBytes, Except.toOption]
  rw [recallLane, h]
  simp only [List.filterMap_map, hread, List.filterMap_some]

theorem recallLane_error {lane : Lane} {err : SqlError}
    (h : conn.select lane operand scopeId limitSql = .error err) :
    recallLane conn lane operand scopeId limitSql = [] := by
  rw [recallLane, h]

def Tallies (bestRank : Table EvidenceId ℚ) (entries : List (EvidenceId × ℚ)) : Prop :=
  ∀ id r, bestRank.lookup id = some r ↔ IsLeast {s | (id, s) ∈ entries} r

theorem tallies_empty : Tallies ∅ [] := fun id r => by simp [IsLeast]

theorem Tallies.mergeMinRank {bestRank : Table EvidenceId ℚ} {entries : List (EvidenceId × ℚ)}
    (h : Tallies bestRank entries) (id : EvidenceId) (rank : ℚ) :
    Tallies (mergeMinRank bestRank id rank) (entries ++ [(id, rank)]) := by
  intro id' r
  have hlookup : (Retrieval.mergeMinRank bestRank id rank).lookup id' =
      if id' = id then some (((bestRank.lookup id).map fun s => min s rank).getD rank)
      else bestRank.lookup id' := by
    unfold Retrieval.mergeMinRank
    cases bestRank.lookup id with
    | some s => exact Table.lookup_insert_ite bestRank id id' (min s rank)
    | none => exact Table.lookup_insert_ite bestRank id id' rank
  rw [hlookup]
  by_cases hid : id' = id
  · subst hid
    have hset : {s | (id', s) ∈ entries ++ [(id', rank)]} = {s | (id', s) ∈ entries} ∪ {rank} := by
      ext s
      simp [or_comm]
    rw [if_pos rfl, hset, Option.some.injEq]
    suffices hleast : IsLeast ({s | (id', s) ∈ entries} ∪ {rank})
        (((bestRank.lookup id').map fun s => min s rank).getD rank) from
      ⟨fun heq => heq ▸ hleast, fun hr => hleast.unique hr⟩
    cases hold : bestRank.lookup id' with
    | some s => exact ((h id' s).mp hold).union isLeast_singleton
    | none =>
      have hnone : {s | (id', s) ∈ entries} = ∅ := by
        refine Set.eq_empty_iff_forall_notMem.mpr fun s hs => ?_
        obtain ⟨t, -, hleast⟩ := exists_isLeast hs
        rw [← h id' t, hold] at hleast
        cases hleast
      rw [hnone, Set.empty_union]
      exact isLeast_singleton
  · have hset : {s | (id', s) ∈ entries ++ [(id, rank)]} = {s | (id', s) ∈ entries} := by
      ext s
      simp [hid]
    rw [if_neg hid, hset]
    exact h id' r

theorem Tallies.mergeLane {bestRank : Table EvidenceId ℚ} {entries : List (EvidenceId × ℚ)}
    (h : Tallies bestRank entries) (weight : ℚ) (rows : List (EvidenceId × ℚ)) :
    Tallies (mergeLane weight bestRank rows)
      (entries ++ rows.map (Prod.map id fun rank => rank * weight)) := by
  induction rows generalizing bestRank entries with
  | nil => simpa [Retrieval.mergeLane] using h
  | cons e rows ih =>
    have hrest := ih (h.mergeMinRank e.1 (e.2 * weight))
    rwa [List.append_assoc] at hrest

def uuidLt (a b : Uuid) : Prop := a.toNat < b.toNat

instance : IsStrictOrder Uuid uuidLt where
  irrefl a := Nat.lt_irrefl a.toNat
  trans _ _ _ := Nat.lt_trans

theorem sorted_rows (bestRank : Table EvidenceId ℚ) :
    (bestRank.rows.insertionSort hitLe).Pairwise (Before uuidLt) ∧
      ((bestRank.rows.insertionSort hitLe).map Prod.fst).Nodup := by
  have hkeys : ((bestRank.rows.insertionSort hitLe).map Prod.fst).Nodup :=
    (Table.keys_nodup_rows bestRank).perm
      ((List.perm_insertionSort hitLe bestRank.rows).map Prod.fst).symm
  refine ⟨((List.pairwise_insertionSort hitLe _).and (List.pairwise_map.mp hkeys)).imp
    fun {a b} hab => ?_, hkeys⟩
  obtain ⟨hlt | ⟨heq, hle⟩, hne⟩ := hab
  · exact .inl hlt
  · exact .inr ⟨heq, hle.lt_of_ne fun h => hne (BitVec.eq_of_toNat_eq h)⟩

theorem Tallies.merged {bestRank : Table EvidenceId ℚ} {entries : List (EvidenceId × ℚ)}
    (h : Tallies bestRank entries) :
    Merged uuidLt entries (bestRank.rows.insertionSort hitLe) := by
  refine ⟨(sorted_rows bestRank).1, fun id r => ?_⟩
  rw [List.mem_insertionSort, Table.mem_rows_iff]
  exact h id r

end

section

variable (weight : Lane → ℚ) (strip : String → String) (conn : Connection) (scopeId : ScopeId)
  (query : String) (limit : Nat)

def laneOperand : Lane → Option String
  | .unicode61 => some query
  | .cjkTrigram => if isBlank (strip query) then none else some (strip query)
  | .bigram => if isBlank (strip query) then none else computeCjkBigramQuery (strip query)

/-- A lane answers a search with its best rows, of all that match in it. A lane that is not asked,
or one for recall that fails, has none. -/
def Answers (lane : Lane) (matching part : List (EvidenceId × ℚ)) : Prop :=
  match laneOperand strip query lane with
  | none => matching = [] ∧ part = []
  | some operand =>
    match conn.select lane operand scopeId (clampLimitToSqlite limit) with
    | .error _ => lane ≠ .unicode61 ∧ matching = [] ∧ part = []
    | .ok rows => Best limit matching part ∧ rows = part.map indexRow

def lanes : List Lane := [.unicode61, .cjkTrigram, .bigram]

def weighted (rows : Lane → List (EvidenceId × ℚ)) : List (EvidenceId × ℚ) :=
  lanes.flatMap fun lane => (rows lane).map (Prod.map id fun rank => rank * weight lane)

variable {weight strip conn scopeId query limit} {matching part : Lane → List (EvidenceId × ℚ)}

theorem Answers.baseline (h : Answers strip conn scopeId query limit .unicode61
    (matching .unicode61) (part .unicode61)) :
    baselineLane conn query scopeId (clampLimitToSqlite limit) = .ok (part .unicode61) := by
  simp only [Answers, laneOperand] at h
  cases hselect : conn.select .unicode61 query scopeId (clampLimitToSqlite limit) with
  | error err => simp [hselect] at h
  | ok rows =>
    simp only [hselect] at h
    exact baselineLane_ok (h.2 ▸ hselect)

theorem Answers.recall {lane : Lane} (h : Answers strip conn scopeId query limit lane
    (matching lane) (part lane)) :
    part lane = match laneOperand strip query lane with
      | none => []
      | some operand => recallLane conn lane operand scopeId (clampLimitToSqlite limit) := by
  unfold Answers at h
  cases hoperand : laneOperand strip query lane with
  | none =>
    simp only [hoperand] at h
    exact h.2
  | some operand =>
    simp only [hoperand] at h
    cases hselect : conn.select lane operand scopeId (clampLimitToSqlite limit) with
    | error err =>
      simp only [hselect] at h
      exact h.2.2.trans (recallLane_error hselect).symm
    | ok rows =>
      simp only [hselect] at h
      exact (recallLane_ok (h.2 ▸ hselect)).symm

theorem mergedFtsSearch_spec (weight : Lane → ℚ)
    (hread : ∀ lane, Answers strip conn scopeId query limit lane (matching lane) (part lane)) :
    ∃ ranking, Merged uuidLt (weighted weight part) ranking ∧
      mergedFtsSearch weight strip conn scopeId query limit = .ok (ranking.take limit) := by
  have htallies : Tallies (mergeLane (weight .bigram) (mergeLane (weight .cjkTrigram)
      (mergeLane (weight .unicode61) ∅ (part .unicode61)) (part .cjkTrigram)) (part .bigram))
      (weighted weight part) := by
    have hall := ((tallies_empty.mergeLane (weight .unicode61) (part .unicode61)).mergeLane
      (weight .cjkTrigram) (part .cjkTrigram)).mergeLane (weight .bigram) (part .bigram)
    simpa [weighted, lanes, List.append_assoc] using hall
  refine ⟨_, htallies.merged, ?_⟩
  rw [mergedFtsSearch]
  split
  · rename_i hzero
    rw [hzero, List.take_zero]
  · have hcjk := (hread .cjkTrigram).recall
    have hbigram := (hread .bigram).recall
    simp only [(hread .unicode61).baseline]
    simp only [laneOperand] at hcjk hbigram
    rw [hcjk, hbigram]
    cases isBlank (strip query) with
    | true => rfl
    | false =>
      cases computeCjkBigramQuery (strip query) with
      | none => rfl
      | some operand => rfl

theorem Answers.best {lane : Lane} (h : Answers strip conn scopeId query limit lane
    (matching lane) (part lane)) : Best limit (matching lane) (part lane) := by
  have hnone : Best limit ([] : List (EvidenceId × ℚ)) [] := ⟨by simp, by simp, by simp, by simp⟩
  unfold Answers at h
  split at h
  · rw [h.1, h.2]
    exact hnone
  · split at h
    · rw [h.2.1, h.2.2]
      exact hnone
    · exact h.1

theorem exists_merged (entries : List (EvidenceId × ℚ)) :
    ∃ ranking, Merged uuidLt entries ranking := by
  have hall := tallies_empty.mergeLane 1 entries
  have hsame : (Prod.map id fun rank : ℚ => rank * 1) = (id : EvidenceId × ℚ → EvidenceId × ℚ) :=
    funext fun e => Prod.ext rfl (mul_one e.2)
  rw [List.nil_append, hsame, List.map_id] at hall
  exact ⟨_, hall.merged⟩

/-- No row that a lane leaves out has the rank of one that it answers with. -/
def NoTieCut (matching part : Lane → List (EvidenceId × ℚ)) : Prop :=
  ∀ lane, ∀ e ∈ matching lane, e ∉ part lane → ∀ f ∈ part lane, f.2 ≠ e.2

/-- The answer is in order and holds the best rows of the whole merger, though every lane is cut
off before it is merged; it is the first rows of the merger where no cut separates a tie. -/
theorem merged_search_best (weight : Lane → ℚ) (strip : String → String) (conn : Connection)
    (scopeId : ScopeId) (query : String) (limit : Nat) (hweight : ∀ lane, 0 < weight lane)
    (hread : ∀ lane, Answers strip conn scopeId query limit lane (matching lane) (part lane)) :
    ∃ full hits, Merged uuidLt (weighted weight matching) full ∧
      mergedFtsSearch weight strip conn scopeId query limit = .ok hits ∧
      hits.Pairwise (Before uuidLt) ∧ Best limit full hits ∧
      (NoTieCut matching part → hits = full.take limit) := by
  obtain ⟨full, hfull⟩ := exists_merged (weighted weight matching)
  obtain ⟨cut, hcut, hsearch⟩ := mergedFtsSearch_spec weight hread
  have hbest : ∀ p ∈ lanes.map fun lane =>
      ((matching lane).map (Prod.map id fun rank => rank * weight lane),
        (part lane).map (Prod.map id fun rank => rank * weight lane)), Best limit p.1 p.2 := by
    intro p hp
    obtain ⟨lane, -, rfl⟩ := List.mem_map.mp hp
    exact (hread lane).best.map fun a b hab => mul_le_mul_of_nonneg_right hab (hweight lane).le
  have hfull' : Merged uuidLt ((lanes.map fun lane =>
      ((matching lane).map (Prod.map id fun rank => rank * weight lane),
        (part lane).map (Prod.map id fun rank => rank * weight lane))).flatMap Prod.fst) full := by
    rwa [List.flatMap_map]
  have hcut' : Merged uuidLt ((lanes.map fun lane =>
      ((matching lane).map (Prod.map id fun rank => rank * weight lane),
        (part lane).map (Prod.map id fun rank => rank * weight lane))).flatMap Prod.snd) cut := by
    rwa [List.flatMap_map]
  refine ⟨full, cut.take limit, hfull, hsearch, hcut.sorted.sublist (List.take_sublist _ _),
    best_take hbest hfull' hcut', fun hnotie => take_eq hbest hfull' hcut' ?_⟩
  intro p hp e he hout f hf
  obtain ⟨lane, -, rfl⟩ := List.mem_map.mp hp
  obtain ⟨a, ha, rfl⟩ := List.mem_map.mp he
  obtain ⟨b, hb, rfl⟩ := List.mem_map.mp hf
  have houta : a ∉ part lane := fun h => hout (List.mem_map_of_mem h)
  have hle := ((hread lane).best.left a ha houta).2 b hb
  exact mul_lt_mul_of_pos_right (hle.lt_of_ne (hnotie lane a ha houta b hb)) (hweight lane)

end

def sampleConnection (part : Lane → List (EvidenceId × ℚ)) (fails : Bool) : Connection where
  select lane _ _ _ :=
    if lane = .cjkTrigram ∧ fails then .error (.other "no such table")
    else .ok ((part lane).map indexRow)

def sampleMatching : Lane → List (EvidenceId × ℚ)
  | .unicode61 => [(1, -3)]
  | .cjkTrigram => []
  | .bigram => [(3, -1), (2, -5), (1, -2)]

def sampleAnswer : Lane → List (EvidenceId × ℚ)
  | .unicode61 => [(1, -3)]
  | .cjkTrigram => []
  | .bigram => [(2, -5), (1, -2)]

theorem sampleAnswer_read (lane : Lane) : Answers id (sampleConnection sampleAnswer true) 7 "日本" 2
    lane (sampleMatching lane) (sampleAnswer lane) := by
  cases lane with
  | unicode61 => exact ⟨⟨by simp [sampleAnswer, sampleMatching], by simp [sampleAnswer],
      by simp [sampleAnswer], by simp [sampleAnswer, sampleMatching]⟩, rfl⟩
  | cjkTrigram =>
    have hoperand : laneOperand id "日本" .cjkTrigram = some "日本" := by decide +kernel
    rw [Answers, hoperand]
    exact ⟨by decide, rfl, rfl⟩
  | bigram =>
    have hoperand : laneOperand id "日本" .bigram = some "\"日本\"" := by decide +kernel
    rw [Answers, hoperand]
    refine ⟨⟨by simp [sampleAnswer, sampleMatching], by simp [sampleAnswer], by simp [sampleAnswer],
      ?_⟩, rfl⟩
    decide +kernel

theorem merged_search_best_sample : ∃ full hits,
    Merged uuidLt (weighted laneWeight sampleMatching) full ∧
      mergedFtsSearch laneWeight id (sampleConnection sampleAnswer true) 7 "日本" 2 = .ok hits ∧
      hits.Pairwise (Before uuidLt) ∧ Best 2 full hits ∧ hits = full.take 2 := by
  have hweight : ∀ lane, 0 < laneWeight lane := by
    rintro (_ | _ | _)
    all_goals decide +kernel
  obtain ⟨full, hits, hfull, hsearch, hsorted, hbest, hexact⟩ := merged_search_best laneWeight id
    (sampleConnection sampleAnswer true) 7 "日本" 2 hweight sampleAnswer_read
  refine ⟨full, hits, hfull, hsearch, hsorted, hbest, hexact ?_⟩
  rintro (_ | _ | _)
  all_goals decide +kernel

/-- Two rows of one rank, of which a lane answers with the one whose id is the greater. -/
def tiedMatching : Lane → List (EvidenceId × ℚ)
  | .unicode61 => [(1, -1), (2, -1)]
  | _ => []

def tiedAnswer : Lane → List (EvidenceId × ℚ)
  | .unicode61 => [(2, -1)]
  | _ => []

/-- The cut of the lane separates a tie, and the row that comes first is lost. -/
theorem tie_cut_loses_first :
    (∀ lane, Answers id (sampleConnection tiedAnswer false) 7 "a" 1 lane (tiedMatching lane)
      (tiedAnswer lane)) ∧
    Merged uuidLt (weighted laneWeight tiedMatching) [(1, -1), (2, -1)] ∧
    mergedFtsSearch laneWeight id (sampleConnection tiedAnswer false) 7 "a" 1 = .ok [(2, -1)] ∧
    [(2, -1)] ≠ ([(1, -1), (2, -1)] : List (EvidenceId × ℚ)).take 1 := by
  refine ⟨fun lane => ?_, ?_, by decide +kernel, by decide⟩
  · cases lane with
    | unicode61 => exact ⟨⟨by simp [tiedAnswer, tiedMatching], by simp [tiedAnswer],
        by simp [tiedAnswer], by decide +kernel⟩, rfl⟩
    | cjkTrigram =>
      have hoperand : laneOperand id "a" .cjkTrigram = some "a" := by decide +kernel
      rw [Answers, hoperand]
      exact ⟨⟨by simp [tiedAnswer], by simp [tiedAnswer], by simp [tiedAnswer],
        by simp [tiedMatching]⟩, rfl⟩
    | bigram =>
      have hoperand : laneOperand id "a" .bigram = none := by decide +kernel
      rw [Answers, hoperand]
      exact ⟨rfl, rfl⟩
  · have hmerged := (tallies_empty.mergeLane 1 [(1, -1), (2, -1)]).merged
    have hentries : weighted laneWeight tiedMatching =
        [] ++ [(1, -1), (2, -1)].map (Prod.map id fun rank => rank * 1) := by decide +kernel
    have hsort : ((mergeLane 1 ∅ [(1, -1), (2, -1)]).rows.insertionSort hitLe) =
        [(1, -1), (2, -1)] := by decide +kernel
    rwa [← hentries, hsort] at hmerged

end Knowledge.Retrieval
