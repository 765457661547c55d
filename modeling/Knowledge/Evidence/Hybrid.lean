import Mathlib.Tactic.Linarith
import Mathlib.Tactic.Positivity
import Knowledge.Evidence.Lanes
import Knowledge.Lib.Collect
import Knowledge.Lib.StableSort

/-!
`HybridRetriever` of `crates/evidence_store/src/retrieval.rs`: the lexical and the hybrid search.
Scores are exact; the exponential of the recency curve and what the semantic lane scores a row are
parameters, and a hash map is gone through in any order.
-/

set_option autoImplicit false

namespace Knowledge.Retrieval
open Knowledge.Machine Knowledge.Ranking Knowledge.StableSort Knowledge.Collect
open Knowledge.Sync (Uuid)
open Knowledge.Memory (ScopeId)

structure RetrievalResult where
  evidenceId : EvidenceId
  score : ℚ
  ftsScore : ℚ
  recencyScore : ℚ
  vectorScore : ℚ
  deriving DecidableEq

open RetrievalResult

structure HybridWeights where
  fts : ℚ
  recency : ℚ
  vector : ℚ

def HybridWeights.default : HybridWeights := ⟨3/5, 3/10, 1/10⟩

/-- The file that a retriever reads, and the clock as it reads it. -/
structure EvidenceFile where
  conn : Connection
  strip : String → String
  mostRecent : ScopeId → Int → Except SqlError (List (Bytes × Int))
  createdAt : EvidenceId → Except SqlError (Option Int)
  now : Int
  nowFor : EvidenceId → Int

structure HybridRetriever where
  store : EvidenceFile
  weights : HybridWeights
  recencyHalfLifeSeconds : ℚ
  /-- `exp (-x ln 2)`. -/
  halving : ℚ → ℚ
  /-- The score of a row, where a model is wired in and embeds the query. -/
  semantic : Option (EvidenceId → Except EvidenceError (Option ℚ))

open HybridRetriever

def projectRank (rank : ℚ) : ℚ := 1 / (1 + max (-rank) 0)

namespace HybridRetriever

variable (r : HybridRetriever) (scopeId : ScopeId) (query : String) (limit : Nat)

def mergedFts : Except EvidenceError (List (EvidenceId × ℚ)) :=
  mergedFtsSearch laneWeight r.store.strip r.store.conn scopeId query limit

def searchFts : Except EvidenceError (List RetrievalResult) :=
  if limit = 0 then .ok []
  else do
    let merged ← r.mergedFts scopeId query limit
    return merged.map fun e =>
      ⟨e.1, projectRank e.2, projectRank e.2, 0, 0⟩

def sliceToUuid (b : Bytes) : Except EvidenceError Uuid :=
  if b.length ≠ 16 then .error (.schema "uuid column has wrong width")
  else .ok (BitVec.ofNat 128 (ofBeBytes b))

def recencyDecay (now createdAt : Int) : ℚ :=
  let elapsed : ℚ := max (now-createdAt) 0
  if r.recencyHalfLifeSeconds ≤ 0 then 0
  else min (max (r.halving (elapsed / r.recencyHalfLifeSeconds)) 0) 1

def searchRecency : Except EvidenceError (List RetrievalResult) :=
  if limit = 0 then .ok []
  else
    match r.store.mostRecent scopeId (clampLimitToSqlite limit) with
    | .error err => .error (.sqlite err)
    | .ok rows => rows.mapM fun row => do
      let id ← sliceToUuid row.1
      let recencyScore := r.recencyDecay r.store.now row.2
      return ⟨id, recencyScore, 0, recencyScore, 0⟩

def lookupRecency (id : EvidenceId) : Except EvidenceError (Option ℚ) :=
  match r.store.createdAt id with
  | .error err => .error (.sqlite err)
  | .ok createdAt => .ok (createdAt.map (r.recencyDecay (r.store.nowFor id)))

def layer (byId : Table EvidenceId RetrievalResult) (hit : RetrievalResult) :
    Table EvidenceId RetrievalResult :=
  match byId.lookup hit.evidenceId with
  | some existing =>
    byId.insert hit.evidenceId { existing with recencyScore := hit.recencyScore }
  | none => byId.insert hit.evidenceId hit

def fillRecency (entry : RetrievalResult) : Except EvidenceError RetrievalResult :=
  if entry.recencyScore = 0 then do
    match ← r.lookupRecency entry.evidenceId with
    | some score => return { entry with recencyScore := score }
    | none => return entry
  else .ok entry

def fillVector (entry : RetrievalResult) : Except EvidenceError RetrievalResult :=
  match r.semantic with
  | none => .ok entry
  | some score => do
    match ← score entry.evidenceId with
    | some vectorScore => return { entry with vectorScore := vectorScore }
    | none => return entry

def widened : Nat := max (min (limit * 4) usizeMax) 16

def candidates (iterate : List RetrievalResult → List RetrievalResult) :
    Except EvidenceError (List RetrievalResult) := do
  let ftsHits ← r.searchFts scopeId query (widened limit)
  let byId := ftsHits.foldl (fun byId hit => byId.insert hit.evidenceId hit) ∅
  let recencyHits ← r.searchRecency scopeId (widened limit)
  let byId := recencyHits.foldl layer byId
  let entries ← (iterate (byId.rows.map Prod.snd)).mapM r.fillRecency
  entries.mapM r.fillVector

end HybridRetriever

namespace HybridWeights

def fuse (w : HybridWeights) (entry : RetrievalResult) : RetrievalResult :=
  { entry with score :=
      w.fts * entry.ftsScore + w.recency * entry.recencyScore + w.vector * entry.vectorScore }

def top (w : HybridWeights) (limit : Nat) (candidates : List RetrievalResult) :
    List RetrievalResult :=
  (byScore RetrievalResult.score (candidates.map w.fuse)).take limit

end HybridWeights

/-- `iterate` is the order in which the map of the candidates is gone through. -/
def HybridRetriever.searchHybrid (r : HybridRetriever)
    (iterate : List RetrievalResult → List RetrievalResult) (scopeId : ScopeId) (query : String)
    (limit : Nat) : Except EvidenceError (List RetrievalResult) :=
  if limit = 0 then .ok []
  else do
    let candidates ← r.candidates scopeId query limit iterate
    return r.weights.top limit candidates

section

theorem mergedFtsSearch_ok {weight : Lane → ℚ} {strip : String → String} {conn : Connection}
    {scopeId : ScopeId} {query : String} {limit : Nat} {merged : List (EvidenceId × ℚ)}
    (h : mergedFtsSearch weight strip conn scopeId query limit = .ok merged) :
    ∃ bestRank : Table EvidenceId ℚ, merged = (bestRank.rows.insertionSort hitLe).take limit := by
  rw [mergedFtsSearch] at h
  split at h
  · rename_i hzero
    exact ⟨∅, by rw [← Except.ok.inj h, hzero, List.take_zero]⟩
  · cases hbase : baselineLane conn query scopeId (clampLimitToSqlite limit) with
    | error err => simp [hbase, bind, Except.bind] at h
    | ok rows =>
      simp only [hbase] at h
      exact ⟨_, (Except.ok.inj h).symm⟩

theorem mergedFts_sorted {r : HybridRetriever} {scopeId : ScopeId} {query : String} {limit : Nat}
    {merged : List (EvidenceId × ℚ)} (h : r.mergedFts scopeId query limit = .ok merged) :
    merged.Pairwise (Before uuidLt) ∧ (merged.map Prod.fst).Nodup := by
  obtain ⟨bestRank, rfl⟩ := mergedFtsSearch_ok h
  obtain ⟨hsorted, hkeys⟩ := sorted_rows bestRank
  exact ⟨hsorted.sublist (List.take_sublist _ _), hkeys.sublist ((List.take_sublist _ _).map _)⟩

variable {r : HybridRetriever} {scopeId : ScopeId} {query : String} {limit : Nat}
  {merged : List (EvidenceId × ℚ)}

theorem searchFts_ok (hlimit : limit ≠ 0) (h : r.mergedFts scopeId query limit = .ok merged) :
    r.searchFts scopeId query limit = .ok (merged.map fun e =>
      ⟨e.1, projectRank e.2, projectRank e.2, 0, 0⟩) := by
  rw [searchFts, if_neg hlimit, h]
  rfl

def KeyedBy (byId : Table EvidenceId RetrievalResult) : Prop :=
  ∀ id entry, byId.lookup id = some entry → entry.evidenceId = id

theorem KeyedBy.insert {byId : Table EvidenceId RetrievalResult} (h : KeyedBy byId)
    {entry : RetrievalResult} {id : EvidenceId} (hid : entry.evidenceId = id) :
    KeyedBy (byId.insert id entry) := by
  intro id' found hfound
  rw [Table.lookup_insert_ite] at hfound
  split at hfound
  · rename_i heq
    rw [← Option.some.inj hfound, heq, hid]
  · exact h id' found hfound

theorem byId_fts (hkeys : (merged.map Prod.fst).Nodup) :
    let hits : List RetrievalResult := merged.map fun e =>
      ⟨e.1, projectRank e.2, projectRank e.2, 0, 0⟩
    let byId := hits.foldl (fun byId hit => byId.insert hit.evidenceId hit)
      (∅ : Table EvidenceId RetrievalResult)
    KeyedBy byId ∧ ∀ e ∈ merged, ∃ entry, byId.lookup e.1 = some entry ∧
      entry.ftsScore = projectRank e.2 := by
  intro hits byId
  have hids : (hits.map evidenceId).Nodup := by
    simpa [hits, Function.comp_def] using hkeys
  refine ⟨List.foldlRecOn hits _ (fun _ _ h => by simp at h) fun byId h hit _ => h.insert rfl,
    fun e he => ?_⟩
  exact ⟨_, (Table.lookup_foldl_insert evidenceId hits hids ∅).1 _
    (List.mem_map_of_mem he), rfl⟩

theorem layer_spec {byId : Table EvidenceId RetrievalResult} (h : KeyedBy byId)
    (hit : RetrievalResult) : KeyedBy (layer byId hit) ∧
      ∀ id entry, byId.lookup id = some entry →
        ∃ entry', (layer byId hit).lookup id = some entry' ∧
          entry'.ftsScore = entry.ftsScore := by
  unfold layer
  cases hfound : byId.lookup hit.evidenceId with
  | none =>
    refine ⟨h.insert rfl, fun id entry hentry => ⟨entry, ?_, rfl⟩⟩
    have hne : id ≠ hit.evidenceId := by
      rintro rfl
      cases hfound.symm.trans hentry
    rw [Table.lookup_insert_ite, if_neg hne, hentry]
  | some existing =>
    refine ⟨?_, fun id entry hentry => ?_⟩
    · have hid : existing.evidenceId = hit.evidenceId := h _ _ hfound
      exact h.insert hid
    · rw [Table.lookup_insert_ite]
      by_cases heq : id = hit.evidenceId
      · rw [heq, hfound] at hentry
        exact ⟨_, if_pos heq, by rw [← Option.some.inj hentry]⟩
      · exact ⟨entry, by rw [if_neg heq, hentry], rfl⟩

theorem layers_spec {byId : Table EvidenceId RetrievalResult} (h : KeyedBy byId)
    (hits : List RetrievalResult) : KeyedBy (hits.foldl layer byId) ∧
      ∀ id entry, byId.lookup id = some entry →
        ∃ entry', (hits.foldl layer byId).lookup id = some entry' ∧
          entry'.ftsScore = entry.ftsScore := by
  induction hits generalizing byId with
  | nil => exact ⟨h, fun id entry hentry => ⟨entry, hentry, rfl⟩⟩
  | cons hit hits ih =>
    obtain ⟨hkeyed, hkept⟩ := layer_spec h hit
    obtain ⟨hall, hrest⟩ := ih hkeyed
    refine ⟨hall, fun id entry hentry => ?_⟩
    obtain ⟨entry', hentry', hscore⟩ := hkept id entry hentry
    obtain ⟨entry'', hentry'', hscore'⟩ := hrest id entry' hentry'
    exact ⟨entry'', hentry'', hscore'.trans hscore⟩

theorem fillRecency_ok {entry entry' : RetrievalResult} (h : r.fillRecency entry = .ok entry') :
    entry'.evidenceId = entry.evidenceId ∧ entry'.ftsScore = entry.ftsScore := by
  rw [fillRecency] at h
  split at h
  · cases hlookup : r.lookupRecency entry.evidenceId with
    | error err => simp [hlookup, bind, Except.bind] at h
    | ok score =>
      simp only [hlookup, bind, Except.bind] at h
      cases score with
      | none => rw [← Except.ok.inj h]; exact ⟨rfl, rfl⟩
      | some score => rw [← Except.ok.inj h]; exact ⟨rfl, rfl⟩
  · rw [← Except.ok.inj h]
    exact ⟨rfl, rfl⟩

theorem fillVector_ok {entry entry' : RetrievalResult} (h : r.fillVector entry = .ok entry') :
    entry'.evidenceId = entry.evidenceId ∧ entry'.ftsScore = entry.ftsScore := by
  rw [fillVector] at h
  cases hsemantic : r.semantic with
  | none =>
    simp only [hsemantic] at h
    rw [← Except.ok.inj h]
    exact ⟨rfl, rfl⟩
  | some score =>
    simp only [hsemantic] at h
    cases hscore : score entry.evidenceId with
    | error err => simp [hscore, bind, Except.bind] at h
    | ok vectorScore =>
      simp only [hscore, bind, Except.bind] at h
      cases vectorScore with
      | none => rw [← Except.ok.inj h]; exact ⟨rfl, rfl⟩
      | some score => rw [← Except.ok.inj h]; exact ⟨rfl, rfl⟩

theorem candidates_rows {iterate : List RetrievalResult → List RetrievalResult}
    {wide : List (EvidenceId × ℚ)}
    (hwide : r.mergedFts scopeId query (widened limit) = .ok wide)
    {cs : List RetrievalResult} (hcs : r.candidates scopeId query limit iterate = .ok cs) :
    ∃ rows : List RetrievalResult, (rows.map evidenceId).Nodup ∧
      (∀ e ∈ wide, ∀ entry ∈ rows, entry.evidenceId = e.1 → entry.ftsScore = projectRank e.2) ∧
      ∀ iterate' cs', r.candidates scopeId query limit iterate' = .ok cs' ↔
        List.Forall₂ (fun entry c => ∃ m, r.fillRecency entry = .ok m ∧ r.fillVector m = .ok c)
          (iterate' rows) cs' := by
  have hpos : widened limit ≠ 0 := by
    unfold widened
    omega
  obtain ⟨recencyHits, hrecency⟩ : ∃ recencyHits,
      r.searchRecency scopeId (widened limit) = .ok recencyHits := by
    rw [candidates, bind_ok_iff] at hcs
    obtain ⟨ftsHits, -, hcs⟩ := hcs
    obtain ⟨recencyHits, hrecency, -⟩ := bind_ok_iff.mp hcs
    exact ⟨recencyHits, hrecency⟩
  obtain ⟨hkeyed, hfts⟩ := byId_fts (mergedFts_sorted hwide).2
  obtain ⟨hkeyed, hkept⟩ := layers_spec hkeyed recencyHits
  generalize hbyId : recencyHits.foldl layer _ = byId at hkeyed hkept
  refine ⟨byId.rows.map Prod.snd, ?_, fun e he entry hentry hid => ?_, fun iterate' cs' => ?_⟩
  · have hkeys : (byId.rows.map Prod.snd).map evidenceId =
        byId.rows.map Prod.fst := by
      rw [List.map_map]
      exact List.map_congr_left fun row hrow => hkeyed _ _ (Table.mem_rows_iff.mp hrow)
    rw [hkeys]
    exact Table.keys_nodup_rows byId
  · obtain ⟨⟨id, _⟩, hrow, rfl⟩ := List.mem_map.mp hentry
    have hrow := Table.mem_rows_iff.mp hrow
    obtain ⟨first, hfirst, hscore⟩ := hfts e he
    obtain ⟨layered, hlayered, hscore'⟩ := hkept _ _ hfirst
    rw [← hid, hkeyed _ _ hrow, hrow] at hlayered
    rw [Option.some.inj hlayered, hscore', hscore]
  · rw [candidates, searchFts_ok hpos hwide, hrecency, ← hbyId]
    exact mapM_mapM_ok_iff

/-- A search that returns has the same candidates whatever the order of the map: one entry an id,
and one with the lexical score of every merged row. -/
theorem candidates_ok {iterate : List RetrievalResult → List RetrievalResult}
    (hiterate : ∀ l, (iterate l).Perm l) {wide : List (EvidenceId × ℚ)}
    (hwide : r.mergedFts scopeId query (widened limit) = .ok wide)
    {cs : List RetrievalResult} (hcs : r.candidates scopeId query limit iterate = .ok cs) :
    (cs.map evidenceId).Nodup ∧
    (∀ e ∈ wide, ∀ c ∈ cs, c.evidenceId = e.1 → c.ftsScore = projectRank e.2) ∧
    (∀ iterate', (∀ l, (iterate' l).Perm l) →
      ∃ cs', cs'.Perm cs ∧ r.candidates scopeId query limit iterate' = .ok cs') ∧
    ∀ cs' : List RetrievalResult, cs'.Perm cs →
      ∃ iterate', (∀ l, (iterate' l).Perm l) ∧
        r.candidates scopeId query limit iterate' = .ok cs' := by
  obtain ⟨rows, hids, hfts, hiff⟩ := candidates_rows hwide hcs
  have hread := (hiff iterate cs).mp hcs
  have hsame : ∀ entry c, (∃ m, r.fillRecency entry = .ok m ∧ r.fillVector m = .ok c) →
      c.evidenceId = entry.evidenceId ∧ c.ftsScore = entry.ftsScore := by
    rintro entry c ⟨m, hm, hc⟩
    obtain ⟨hid, hscore⟩ := fillRecency_ok hm
    obtain ⟨hid', hscore'⟩ := fillVector_ok hc
    exact ⟨hid'.trans hid, hscore'.trans hscore⟩
  refine ⟨?_, fun e he c hc hid => ?_, fun iterate' hiterate' => ?_, fun cs' hperm => ?_⟩
  · rw [map_eq hread fun entry _ c h => (hsame entry c h).1]
    exact ((hiterate rows).map _).nodup_iff.mpr hids
  · obtain ⟨entry, hentry, hR⟩ := exists_left hread hc
    obtain ⟨hid', hscore⟩ := hsame entry c hR
    rw [hscore]
    exact hfts e he entry ((hiterate rows).mem_iff.mp hentry) (hid'.symm.trans hid)
  · obtain ⟨cs', hcs', hperm⟩ := List.perm_comp_forall₂
      ((hiterate' rows).trans (hiterate rows).symm) hread
    exact ⟨cs', hperm, (hiff iterate' cs').mpr hcs'⟩
  · obtain ⟨order, horder, hw⟩ := List.perm_comp_forall₂ hperm hread.flip
    refine ⟨fun l => if l = rows then order else l, fun l => ?_, (hiff _ cs').mpr ?_⟩
    · by_cases hl : l = rows
      · simpa [hl] using hw.trans (hiterate rows)
      · simp [hl]
    · simpa using horder.flip

end

section

/-- The hit of the better rank scores no less, and the first hit is the closest to 1. -/
def FtsFollowsRank (merged : List (EvidenceId × ℚ)) (hits : List RetrievalResult) : Prop :=
  (∀ e ∈ merged, ∀ f ∈ merged, ∀ a ∈ hits, ∀ b ∈ hits,
    a.evidenceId = e.1 → b.evidenceId = f.1 → e.2 < f.2 → b.score ≤ a.score) ∧
  ∀ e ∈ merged.head?, ∀ a ∈ hits, a.evidenceId = e.1 → ∀ b ∈ hits, |1 - a.score| ≤ |1 - b.score|

/-- Two candidates that a search tells apart by their rank only. -/
def OnlyRankDiffers (wide : List (EvidenceId × ℚ)) (a b : RetrievalResult) (better worse : ℚ) :
    Prop :=
  (a.evidenceId, better) ∈ wide ∧ (b.evidenceId, worse) ∈ wide ∧ better < worse ∧
    a.recencyScore = b.recencyScore ∧ a.vectorScore = b.vectorScore

def HybridFollowsRank (w : HybridWeights) (wide : List (EvidenceId × ℚ))
    (cs : List RetrievalResult) : Prop :=
  ∀ a ∈ cs, ∀ b ∈ cs, ∀ better worse, OnlyRankDiffers wide a b better worse →
    (w.fuse b).score ≤ (w.fuse a).score

/-- The order of the map shows in no answer. -/
def OrderFree (r : HybridRetriever) (scopeId : ScopeId) (query : String) (limit : Nat) : Prop :=
  ∀ iterate₁ iterate₂, (∀ l, (iterate₁ l).Perm l) → (∀ l, (iterate₂ l).Perm l) →
    r.searchHybrid iterate₁ scopeId query limit = r.searchHybrid iterate₂ scopeId query limit

theorem projectRank_le_one (rank : ℚ) : projectRank rank ≤ 1 := by
  have hdenominator : 1 ≤ 1 + max (-rank) 0 := by simp
  exact div_le_one_of_le₀ hdenominator (by positivity)

theorem projectRank_le_iff {better worse : ℚ} (h : better < worse) :
    projectRank worse ≤ projectRank better ↔ 0 ≤ better := by
  have hdenominators : projectRank worse ≤ projectRank better ↔
      1 + max (-better) 0 ≤ 1 + max (-worse) 0 :=
    one_div_le_one_div (by positivity) (by positivity)
  rw [hdenominators, add_le_add_iff_left]
  constructor
  · intro hle
    by_contra hneg
    rw [max_eq_left (by linarith)] at hle
    rcases le_max_iff.mp hle with hle | hle
    · linarith
    · linarith
  · intro hnonneg
    rw [max_eq_right (by linarith)]
    exact le_max_right _ _

variable {merged wide : List (EvidenceId × ℚ)}

theorem ftsFollowsRank_iff (hsorted : merged.Pairwise (Before uuidLt))
    (hkeys : (merged.map Prod.fst).Nodup) :
    FtsFollowsRank merged (merged.map fun e => ⟨e.1, projectRank e.2, projectRank e.2, 0, 0⟩) ↔
      ∀ e ∈ merged, ∀ f ∈ merged, e.2 < f.2 → 0 ≤ e.2 := by
  have hfind : ∀ e ∈ merged, ∀ e' ∈ merged, e'.1 = e.1 → e' = e := by
    intro e he e' he' hid
    exact List.inj_on_of_nodup_map hkeys he' he hid
  constructor
  · intro h e he f hf hlt
    rw [← projectRank_le_iff hlt]
    exact h.1 e he f hf _ (List.mem_map_of_mem he) _ (List.mem_map_of_mem hf) rfl rfl hlt
  · intro h
    refine ⟨fun e he f hf a ha b hb hae hbf hlt => ?_, fun e he a ha hae b hb => ?_⟩
    · obtain ⟨e', he', rfl⟩ := List.mem_map.mp ha
      obtain ⟨f', hf', rfl⟩ := List.mem_map.mp hb
      rw [hfind e he e' he' hae, hfind f hf f' hf' hbf]
      exact (projectRank_le_iff hlt).mpr (h e he f hf hlt)
    · obtain ⟨rest, hmerged⟩ : ∃ rest, merged = e :: rest := by
        cases merged with
        | nil => simp at he
        | cons first rest => exact ⟨rest, by rw [Option.some.inj he]⟩
      have he : e ∈ merged := by simp [hmerged]
      obtain ⟨e', he', rfl⟩ := List.mem_map.mp ha
      obtain ⟨f, hf, rfl⟩ := List.mem_map.mp hb
      obtain rfl := hfind e he e' he' hae
      have hle : projectRank f.2 ≤ projectRank e'.2 := by
        rw [hmerged] at hsorted hf
        obtain rfl | hf' := List.mem_cons.mp hf
        · exact le_rfl
        · rcases (List.pairwise_cons.mp hsorted).1 f hf' with hlt | ⟨heq, -⟩
          · exact (projectRank_le_iff hlt).mpr (h e' he f (hmerged ▸ hf) hlt)
          · rw [heq]
      rw [abs_of_nonneg (by linarith [projectRank_le_one e'.2]),
        abs_of_nonneg (by linarith [projectRank_le_one f.2])]
      linarith

theorem hybridFollowsRank_iff {w : HybridWeights} (hweight : 0 ≤ w.fts) {cs : List RetrievalResult}
    (hscores : ∀ e ∈ wide, ∀ c ∈ cs, c.evidenceId = e.1 → c.ftsScore = projectRank e.2) :
    HybridFollowsRank w wide cs ↔
      ∀ a ∈ cs, ∀ b ∈ cs, ∀ better worse, OnlyRankDiffers wide a b better worse →
        w.fts = 0 ∨ 0 ≤ better := by
  refine forall₂_congr fun a ha => forall₂_congr fun b hb => forall₂_congr fun better worse =>
    forall_congr' fun h => ?_
  obtain ⟨hbetter, hworse, hlt, hrecency, hvector⟩ := h
  rw [← projectRank_le_iff hlt]
  simp only [HybridWeights.fuse, hrecency, hvector, add_le_add_iff_right,
    hscores _ hbetter a ha rfl, hscores _ hworse b hb rfl]
  obtain hzero | hpos := hweight.eq_or_lt
  · simp [← hzero]
  · rw [mul_le_mul_iff_right₀ hpos]
    exact (or_iff_right hpos.ne').symm

variable {r : HybridRetriever} {scopeId : ScopeId} {query : String} {limit : Nat}

theorem orderFree_iff {iterate : List RetrievalResult → List RetrievalResult}
    (hiterate : ∀ l, (iterate l).Perm l)
    (hwide : r.mergedFts scopeId query (widened limit) = .ok wide)
    {cs : List RetrievalResult} (hcs : r.candidates scopeId query limit iterate = .ok cs) :
    OrderFree r scopeId query limit ↔
      TiesBehind score limit (cs.map r.weights.fuse) := by
  obtain ⟨hids, -, hread, hall⟩ := candidates_ok hiterate hwide hcs
  have hnodup : (cs.map r.weights.fuse).Nodup := by
    refine List.Nodup.of_map evidenceId ?_
    simpa [Function.comp_def, HybridWeights.fuse] using hids
  rw [← take_byScore_iff _ _ hnodup]
  by_cases hlimit : limit = 0
  · simp [OrderFree, searchHybrid, hlimit]
  have hsearch : ∀ iterate cs, r.candidates scopeId query limit iterate = .ok cs →
      r.searchHybrid iterate scopeId query limit = .ok (r.weights.top limit cs) := by
    intro iterate cs hcs
    rw [searchHybrid, if_neg hlimit, hcs]
    rfl
  constructor
  · intro h l₁ l₂ hl₁ hl₂
    obtain ⟨cs₁, rfl, hperm₁⟩ := exists_of_perm_map hl₁
    obtain ⟨cs₂, rfl, hperm₂⟩ := exists_of_perm_map hl₂
    obtain ⟨iterate₁, hiterate₁, hcs₁⟩ := hall cs₁ hperm₁
    obtain ⟨iterate₂, hiterate₂, hcs₂⟩ := hall cs₂ hperm₂
    have hsame := h iterate₁ iterate₂ hiterate₁ hiterate₂
    rw [hsearch _ _ hcs₁, hsearch _ _ hcs₂] at hsame
    exact Except.ok.inj hsame
  · intro h iterate₁ iterate₂ hiterate₁ hiterate₂
    obtain ⟨cs₁, hperm₁, hcs₁⟩ := hread iterate₁ hiterate₁
    obtain ⟨cs₂, hperm₂, hcs₂⟩ := hread iterate₂ hiterate₂
    rw [hsearch _ _ hcs₁, hsearch _ _ hcs₂]
    exact congrArg _ (h _ _ (hperm₁.map _) (hperm₂.map _))

theorem relevance_iff (hweights : 0 ≤ r.weights.fts ∧ 0 ≤ r.weights.recency ∧ 0 ≤ r.weights.vector)
    {iterate : List RetrievalResult → List RetrievalResult} (hiterate : ∀ l, (iterate l).Perm l)
    (hmerged : r.mergedFts scopeId query limit = .ok merged)
    (hwide : r.mergedFts scopeId query (widened limit) = .ok wide)
    {cs : List RetrievalResult} (hcs : r.candidates scopeId query limit iterate = .ok cs) :
    ((∃ hits, r.searchFts scopeId query limit = .ok hits ∧ FtsFollowsRank merged hits) ∧
      HybridFollowsRank r.weights wide cs ∧ OrderFree r scopeId query limit) ↔
    (∀ e ∈ merged, ∀ f ∈ merged, e.2 < f.2 → 0 ≤ e.2) ∧
    (∀ a ∈ cs, ∀ b ∈ cs, ∀ better worse, OnlyRankDiffers wide a b better worse →
      r.weights.fts = 0 ∨ 0 ≤ better) ∧
    TiesBehind score limit (cs.map r.weights.fuse) := by
  rw [hybridFollowsRank_iff hweights.1 (candidates_ok hiterate hwide hcs).2.1,
    orderFree_iff hiterate hwide hcs]
  refine and_congr_left' ?_
  obtain ⟨hsorted, hkeys⟩ := mergedFts_sorted hmerged
  by_cases hlimit : limit = 0
  · have hnone : merged = [] := by
      obtain ⟨bestRank, rfl⟩ := mergedFtsSearch_ok hmerged
      simp [hlimit]
    simp [hnone, hlimit, searchFts, FtsFollowsRank]
  · rw [searchFts_ok hlimit hmerged, ← ftsFollowsRank_iff hsorted hkeys]
    constructor
    · rintro ⟨hits, hhits, h⟩
      rwa [Except.ok.inj hhits]
    · intro h
      exact ⟨_, rfl, h⟩

end

def sampleRetriever (hits : List (EvidenceId × ℚ)) (recent : List (EvidenceId × Int)) :
    HybridRetriever where
  store :=
    { conn := ⟨fun lane _ _ _ => .ok (if lane = .unicode61 then hits.map indexRow else [])⟩
      strip := id
      mostRecent := fun _ _ => .ok (recent.map fun e => (uuidBytes e.1, e.2))
      createdAt := fun id => .ok (recent.lookup id)
      now := 8
      nowFor := fun _ => 8 }
  weights := .default
  recencyHalfLifeSeconds := 1
  halving := fun x => if x ≤ 0 then 1 else 1/2
  semantic := none

/-- Two rows of one rank, of which the second is the more recent. -/
def evenHits : HybridRetriever := sampleRetriever [(1, -5), (2, -5)] [(2, 8)]

theorem relevance_evenHits :
    (∃ hits, evenHits.searchFts 7 "a" 2 = .ok hits ∧ FtsFollowsRank [(1, -5), (2, -5)] hits) ∧
      HybridFollowsRank .default [(1, -5), (2, -5)] [⟨2, 1/6, 1/6, 1, 0⟩, ⟨1, 1/6, 1/6, 0, 0⟩] ∧
      OrderFree evenHits 7 "a" 2 := by
  have hranks : ∀ e ∈ ([(1, -5), (2, -5)] : List (EvidenceId × ℚ)), e.2 = -5 := by
    decide +kernel
  refine (relevance_iff ⟨?_, ?_, ?_⟩ (fun l => .refl l) ?_ ?_ ?_).mpr ⟨?_, ?_, ?_⟩
  any_goals decide +kernel
  · rintro a - b - better worse ⟨hbetter, hworse, hlt, -⟩
    have heq : better = worse := (hranks _ hbetter).trans (hranks _ hworse).symm
    exact absurd hlt (heq ▸ lt_irrefl _)
  · unfold TiesBehind
    decide +kernel

/-- The better rank scores less, and of two equal scores the map decides which is returned. -/
theorem better_rank_scores_less :
    (sampleRetriever [(1, -5), (2, -1)] []).searchFts 7 "a" 2 =
      .ok [⟨1, 1/6, 1/6, 0, 0⟩, ⟨2, 1/2, 1/2, 0, 0⟩] ∧
    (sampleRetriever [(1, -5), (2, -1)] []).searchHybrid id 7 "a" 2 =
      .ok [⟨2, 3/10, 1/2, 0, 0⟩, ⟨1, 1/10, 1/6, 0, 0⟩] ∧
    (sampleRetriever [(1, -1), (2, -1)] []).searchHybrid id 7 "a" 1 ≠
      (sampleRetriever [(1, -1), (2, -1)] []).searchHybrid List.reverse 7 "a" 1 := by
  refine ⟨?_, ?_, ?_⟩
  all_goals decide +kernel

end Knowledge.Retrieval
