import Knowledge.Evidence.Hybrid
import Knowledge.Lib.Grouping

/-!
`cluster_by_content_hash` of `crates/evidence_store/src/retrieval.rs`: search results are put
together by the content hash that is stored for them. What a row holds is what SQLite answers, and
a hash map is gone through in any order.
-/

set_option autoImplicit false

namespace Knowledge.Retrieval
open Knowledge.Grouping Knowledge.StableSort Knowledge.Collect
open RetrievalResult

abbrev ContentHash := { bytes : Bytes // bytes.length = 32 }

def unknownHash : ContentHash := ⟨List.replicate 32 0, List.length_replicate⟩

structure ClusteredRetrievalResult where
  representative : RetrievalResult
  clusterMembers : List EvidenceId
  contentHash : ContentHash
  sourceCount : Nat

open ClusteredRetrievalResult

abbrev StoredMeta := Bytes × Option String

abbrev MetaMap := Table EvidenceId (ContentHash × Option String)

def checkedMeta : Option StoredMeta → Option (ContentHash × Option String)
  | none => none
  | some (hashBytes, sourceRef) =>
    if h : hashBytes.length = 32 then some (⟨hashBytes, h⟩, sourceRef) else none

def noteMeta (metaMap : MetaMap) (id : EvidenceId) (row : Option StoredMeta) : MetaMap :=
  match checkedMeta row with
  | none => metaMap
  | some entry => metaMap.insert id entry

def fetchMeta (select : EvidenceId → Except SqlError (Option StoredMeta)) :
    MetaMap → List RetrievalResult → Except EvidenceError MetaMap
  | metaMap, [] => .ok metaMap
  | metaMap, r :: results =>
    match select r.evidenceId with
    | .error err => .error (.sqlite err)
    | .ok row => fetchMeta select (noteMeta metaMap r.evidenceId row) results

namespace MetaMap

def hashOf (metaMap : MetaMap) (r : RetrievalResult) : ContentHash :=
  ((metaMap.lookup r.evidenceId).map Prod.fst).getD unknownHash

def sourceRefs (metaMap : MetaMap) (members : List RetrievalResult) : List String :=
  members.filterMap fun m => (metaMap.lookup m.evidenceId).bind Prod.snd

end MetaMap

def sortMembers (group : Bucket RetrievalResult) : Bucket RetrievalResult where
  members := byScore RetrievalResult.score group.members
  nonempty h := group.nonempty ((perm_byScore _).symm.trans (.of_eq h)).eq_nil

def clustered (metaMap : MetaMap) (entry : ContentHash × Bucket RetrievalResult) :
    ClusteredRetrievalResult :=
  let group := sortMembers entry.2
  { representative := group.members.head group.nonempty
    clusterMembers := group.members.map RetrievalResult.evidenceId
    contentHash := entry.1
    sourceCount := max (metaMap.sourceRefs group.members).dedup.length 1 }

/-- `iterate` is the order in which the map of the clusters is gone through. -/
def clusterByContentHash (select : EvidenceId → Except SqlError (Option StoredMeta))
    (iterate : List (ContentHash × Bucket RetrievalResult) →
      List (ContentHash × Bucket RetrievalResult))
    (results : List RetrievalResult) : Except EvidenceError (List ClusteredRetrievalResult) :=
  if results.isEmpty then .ok []
  else do
    let metaMap ← fetchMeta select ∅ results
    let clusters := groupBy metaMap.hashOf results
    return byScore (fun c : ClusteredRetrievalResult => c.representative.score)
      ((iterate clusters.rows).map (clustered metaMap))

section

/-- What the rows of the results hold, all of which can be read. -/
def Reads (select : EvidenceId → Except SqlError (Option StoredMeta))
    (stored : EvidenceId → Option StoredMeta) (results : List RetrievalResult) : Prop :=
  ∀ r ∈ results, select r.evidenceId = .ok (stored r.evidenceId)

variable (stored : EvidenceId → Option StoredMeta)

def SameHash (a b : EvidenceId) : Prop :=
  ∃ hash, (stored a).map Prod.fst = some hash ∧ (stored b).map Prod.fst = some hash

def SameContent (a b : EvidenceId) : Prop := a = b ∨ SameHash stored a b

def storedSource (id : EvidenceId) : Option String := (stored id).bind Prod.snd

structure PartitionedByContent (results : List RetrievalResult)
    (out : List ClusteredRetrievalResult) : Prop where
  partition : (out.flatMap ClusteredRetrievalResult.clusterMembers).Perm
    (results.map RetrievalResult.evidenceId)
  apart : out.Pairwise fun c c' => c.clusterMembers.Disjoint c'.clusterMembers
  together : ∀ a ∈ results, ∀ b ∈ results,
    (∃ c ∈ out, a.evidenceId ∈ c.clusterMembers ∧ b.evidenceId ∈ c.clusterMembers) ↔
      SameContent stored a.evidenceId b.evidenceId
  best : ∀ c ∈ out, c.representative ∈ results ∧
    c.representative.evidenceId ∈ c.clusterMembers ∧
    ∀ r ∈ results, r.evidenceId ∈ c.clusterMembers → r.score ≤ c.representative.score
  ordered : out.Pairwise fun c c' => c'.representative.score ≤ c.representative.score
  sources : ∀ c ∈ out,
    c.sourceCount = max (c.clusterMembers.filterMap (storedSource stored)).dedup.length 1

def WellFormed (id : EvidenceId) : Prop := ∃ row, stored id = some row ∧ row.1.length = 32

/-- A result without a well-formed row meets no other one under the key of the unknown hashes,
unless both rows hold the same malformed hash and do not name two sources. -/
def UnknownApart (results : List RetrievalResult) : Prop :=
  ∀ a ∈ results, ∀ b ∈ results, a.evidenceId ≠ b.evidenceId →
    ¬WellFormed stored a.evidenceId →
    (∀ row, stored b.evidenceId = some row → row.1 ≠ unknownHash.val) ∧
    (¬WellFormed stored b.evidenceId → SameHash stored a.evidenceId b.evidenceId ∧
      ∀ s ∈ storedSource stored a.evidenceId, ∀ s' ∈ storedSource stored b.evidenceId, s = s')

end

section

variable {stored : EvidenceId → Option StoredMeta} {results : List RetrievalResult}
  {out : List ClusteredRetrievalResult}

def rowKey (stored : EvidenceId → Option StoredMeta) (id : EvidenceId) : ContentHash :=
  ((checkedMeta (stored id)).map Prod.fst).getD unknownHash

def knownSource (stored : EvidenceId → Option StoredMeta) (id : EvidenceId) : Option String :=
  (checkedMeta (stored id)).bind Prod.snd

theorem lookup_noteMeta (metaMap : MetaMap) (id id' : EvidenceId) (row : Option StoredMeta) :
    (noteMeta metaMap id row).lookup id' =
      if id' = id then (checkedMeta row).or (metaMap.lookup id) else metaMap.lookup id' := by
  unfold noteMeta
  cases checkedMeta row with
  | none =>
    by_cases h : id' = id
    · subst h
      simp
    · simp [h]
  | some entry => rw [Table.lookup_insert_ite]; simp

theorem fetchMeta_ok {select : EvidenceId → Except SqlError (Option StoredMeta)}
    (hread : Reads select stored results) (metaMap : MetaMap) :
    ∃ metaMap', fetchMeta select metaMap results = .ok metaMap' ∧ ∀ id, metaMap'.lookup id =
      if id ∈ results.map evidenceId then
        (checkedMeta (stored id)).or (metaMap.lookup id) else metaMap.lookup id := by
  induction results generalizing metaMap with
  | nil => exact ⟨metaMap, rfl, fun id => by simp⟩
  | cons r results ih =>
    obtain ⟨hfirst, hrest⟩ := List.forall_mem_cons.mp hread
    obtain ⟨metaMap', hfetch, hlookup⟩ :=
      ih hrest (noteMeta metaMap r.evidenceId (stored r.evidenceId))
    refine ⟨metaMap', by rw [fetchMeta, hfirst]; exact hfetch, fun id => ?_⟩
    rw [hlookup, lookup_noteMeta]
    by_cases hid : id = r.evidenceId
    · subst hid
      cases checkedMeta (stored r.evidenceId) <;> simp
    · simp [hid]

/-- Clusters of one key each, in the order of their best members. -/
structure Grouped (key : EvidenceId → ContentHash) (source : EvidenceId → Option String)
    (results : List RetrievalResult) (out : List ClusteredRetrievalResult) : Prop where
  keys : (out.map ClusteredRetrievalResult.contentHash).Nodup
  covered : ∀ r ∈ results, key r.evidenceId ∈ out.map ClusteredRetrievalResult.contentHash
  cluster : ∀ c ∈ out, ∃ members,
    members = byScore RetrievalResult.score
      (part (fun r => key r.evidenceId) results c.contentHash) ∧
    members.head? = some c.representative ∧
    c.clusterMembers = members.map RetrievalResult.evidenceId ∧
    c.sourceCount = max (members.filterMap fun m => source m.evidenceId).dedup.length 1
  ordered : out.Pairwise fun c c' => c'.representative.score ≤ c.representative.score

theorem clusterByContentHash_ok {select : EvidenceId → Except SqlError (Option StoredMeta)}
    {iterate : List (ContentHash × Bucket RetrievalResult) →
      List (ContentHash × Bucket RetrievalResult)}
    (hread : Reads select stored results) (hiterate : ∀ l, (iterate l).Perm l) :
    ∃ out, clusterByContentHash select iterate results = .ok out ∧
      Grouped (rowKey stored) (knownSource stored) results out := by
  by_cases hempty : results = []
  · exact ⟨[], by simp [clusterByContentHash, hempty],
      { keys := by simp
        covered := by simp [hempty]
        cluster := by simp
        ordered := .nil }⟩
  obtain ⟨metaMap, hfetch, hlookup⟩ := fetchMeta_ok hread ∅
  have hlookup : ∀ r ∈ results, metaMap.lookup r.evidenceId = checkedMeta (stored r.evidenceId) := by
    intro r hr
    rw [hlookup, if_pos (List.mem_map_of_mem hr)]
    simp
  have hkey : ∀ r ∈ results, metaMap.hashOf r = rowKey stored r.evidenceId := by
    intro r hr
    simp only [MetaMap.hashOf, rowKey, hlookup r hr]
  have hpart : ∀ k, part metaMap.hashOf results k =
      part (fun r => rowKey stored r.evidenceId) results k := by
    intro k
    exact List.filter_congr fun r hr => congrArg (fun hash => decide (hash = k)) (hkey r hr)
  refine ⟨_, by rw [clusterByContentHash, if_neg (by simpa using hempty), hfetch]; rfl, ?_⟩
  generalize hclusters : (iterate (groupBy metaMap.hashOf results).rows) = clusters
  have hperm := hiterate (groupBy metaMap.hashOf results).rows
  rw [hclusters] at hperm
  have hout := @perm_byScore _ _ _ (fun c : ClusteredRetrievalResult => c.representative.score)
    (clusters.map (clustered metaMap))
  have hhashes : ((clusters.map (clustered metaMap)).map contentHash).Perm
      ((groupBy metaMap.hashOf results).rows.map Prod.fst) := by
    rw [List.map_map]
    exact hperm.map _
  constructor
  · rw [((hout.map _).trans hhashes).nodup_iff]
    exact Table.keys_nodup_rows _
  · intro r hr
    rw [((hout.map _).trans hhashes).mem_iff]
    obtain ⟨bucket, hbucket⟩ := Option.isSome_iff_exists.mp
      (lookup_groupBy_isSome.mpr ⟨r, hr, hkey r hr⟩)
    exact List.mem_map_of_mem (Table.mem_rows_iff.mpr hbucket)
  · intro c hc
    obtain ⟨⟨k, bucket⟩, hrow, rfl⟩ := List.mem_map.mp (hout.mem_iff.mp hc)
    have hmembers := lookup_groupBy (Table.mem_rows_iff.mp (hperm.mem_iff.mp hrow))
    rw [hpart] at hmembers
    refine ⟨(sortMembers bucket).members, congrArg _ hmembers, List.head?_eq_some_head _, rfl, ?_⟩
    have hrefs : metaMap.sourceRefs (sortMembers bucket).members =
        (sortMembers bucket).members.filterMap fun m => knownSource stored m.evidenceId := by
      refine List.filterMap_congr fun m hm => ?_
      have hm : m ∈ bucket.members := (perm_byScore _).mem_iff.mp hm
      rw [hmembers] at hm
      rw [knownSource, hlookup m (mem_part.mp hm).1]
    rw [← hrefs]
    rfl
  · exact sorted_byScore _

namespace Grouped

variable {key : EvidenceId → ContentHash} {source : EvidenceId → Option String}

theorem clusterMembers_perm (h : Grouped key source results out) {c : ClusteredRetrievalResult}
    (hc : c ∈ out) : c.clusterMembers.Perm
      ((part (fun r => key r.evidenceId) results c.contentHash).map evidenceId) := by
  obtain ⟨members, rfl, -, hids, -⟩ := h.cluster c hc
  rw [hids]
  exact (perm_byScore _).map _

theorem mem_clusterMembers (h : Grouped key source results out) {c : ClusteredRetrievalResult}
    (hc : c ∈ out) {r : RetrievalResult} (hr : r ∈ results) :
    r.evidenceId ∈ c.clusterMembers ↔ key r.evidenceId = c.contentHash := by
  rw [(h.clusterMembers_perm hc).mem_iff, List.mem_map]
  constructor
  · rintro ⟨r', hr', hid⟩
    rw [← hid]
    exact (mem_part.mp hr').2
  · exact fun hkey => ⟨r, mem_part.mpr ⟨hr, hkey⟩, rfl⟩

theorem exists_of_mem (h : Grouped key source results out) {c : ClusteredRetrievalResult}
    (hc : c ∈ out) {id : EvidenceId} (hid : id ∈ c.clusterMembers) :
    ∃ r ∈ results, r.evidenceId = id ∧ key id = c.contentHash := by
  rw [(h.clusterMembers_perm hc).mem_iff, List.mem_map] at hid
  obtain ⟨r, hr, rfl⟩ := hid
  obtain ⟨hr, hkey⟩ := mem_part.mp hr
  exact ⟨r, hr, rfl, hkey⟩

theorem partition (h : Grouped key source results out) :
    (out.flatMap clusterMembers).Perm
      (results.map evidenceId) := by
  have hparts : (out.flatMap clusterMembers).Perm
      (((out.map contentHash).flatMap
        (part (fun r => key r.evidenceId) results)).map evidenceId) := by
    rw [List.map_flatMap, List.flatMap_map]
    exact List.Perm.flatMap_left out fun c hc => h.clusterMembers_perm hc
  exact hparts.trans ((perm_flatMap_part h.keys h.covered).map _)

theorem apart (h : Grouped key source results out) :
    out.Pairwise fun c c' => c.clusterMembers.Disjoint c'.clusterMembers := by
  refine (List.pairwise_map.mp h.keys).imp_of_mem fun {c c'} hc hc' hne id hid hid' => hne ?_
  obtain ⟨-, -, -, hkey⟩ := h.exists_of_mem hc hid
  obtain ⟨-, -, -, hkey'⟩ := h.exists_of_mem hc' hid'
  exact hkey.symm.trans hkey'

theorem together (h : Grouped key source results out) {a b : RetrievalResult} (ha : a ∈ results)
    (hb : b ∈ results) :
    (∃ c ∈ out, a.evidenceId ∈ c.clusterMembers ∧ b.evidenceId ∈ c.clusterMembers) ↔
      key a.evidenceId = key b.evidenceId := by
  constructor
  · rintro ⟨c, hc, hac, hbc⟩
    rw [(h.mem_clusterMembers hc ha).mp hac, (h.mem_clusterMembers hc hb).mp hbc]
  · intro hkey
    obtain ⟨c, hc, hhash⟩ := List.mem_map.mp (h.covered a ha)
    exact ⟨c, hc, (h.mem_clusterMembers hc ha).mpr hhash.symm,
      (h.mem_clusterMembers hc hb).mpr (hkey.symm.trans hhash.symm)⟩

theorem best (h : Grouped key source results out) : ∀ c ∈ out, c.representative ∈ results ∧
    c.representative.evidenceId ∈ c.clusterMembers ∧
    ∀ r ∈ results, r.evidenceId ∈ c.clusterMembers → r.score ≤ c.representative.score := by
  intro c hc
  obtain ⟨members, hmembers, hhead, hids, -⟩ := h.cluster c hc
  have hmem := List.mem_of_mem_head? hhead
  have hpart : ∀ r, r ∈ members ↔ r ∈ results ∧ key r.evidenceId = c.contentHash := by
    intro r
    rw [hmembers, (perm_byScore _).mem_iff, mem_part]
  refine ⟨((hpart _).mp hmem).1, hids ▸ List.mem_map_of_mem hmem, fun r hr hrc => ?_⟩
  have hr : r ∈ members := (hpart r).mpr ⟨hr, (h.mem_clusterMembers hc hr).mp hrc⟩
  have hsorted := @sorted_byScore _ _ _ score
    (part (fun r => key r.evidenceId) results c.contentHash)
  rw [← hmembers] at hsorted
  obtain ⟨rest, rfl⟩ := List.head?_eq_some_iff.mp hhead
  obtain rfl | hr := List.mem_cons.mp hr
  · exact le_rfl
  · exact (List.pairwise_cons.mp hsorted).1 r hr

theorem sourceCount (h : Grouped key source results out) {c : ClusteredRetrievalResult}
    (hc : c ∈ out) : c.sourceCount = max (c.clusterMembers.filterMap source).dedup.length 1 := by
  obtain ⟨members, -, -, hids, hcount⟩ := h.cluster c hc
  rw [hcount, hids, List.filterMap_map]
  rfl

end Grouped

theorem rowKey_of_wellFormed {id : EvidenceId} {row : StoredMeta} (hrow : stored id = some row)
    (hlength : row.1.length = 32) : rowKey stored id = ⟨row.1, hlength⟩ := by
  simp [rowKey, hrow, checkedMeta, hlength]

theorem checkedMeta_of_not_wellFormed {id : EvidenceId} (h : ¬WellFormed stored id) :
    checkedMeta (stored id) = none := by
  cases hrow : stored id with
  | none => rfl
  | some row =>
    have hlength : row.1.length ≠ 32 := fun hlength => h ⟨row, hrow, hlength⟩
    simp [checkedMeta, hlength]

theorem rowKey_of_not_wellFormed {id : EvidenceId} (h : ¬WellFormed stored id) :
    rowKey stored id = unknownHash := by
  rw [rowKey, checkedMeta_of_not_wellFormed h]
  rfl

theorem knownSource_of_not_wellFormed {id : EvidenceId} (h : ¬WellFormed stored id) :
    knownSource stored id = none := by
  rw [knownSource, checkedMeta_of_not_wellFormed h]
  rfl

theorem knownSource_of_wellFormed {id : EvidenceId} (h : WellFormed stored id) :
    knownSource stored id = storedSource stored id := by
  obtain ⟨row, hrow, hlength⟩ := h
  simp [knownSource, storedSource, hrow, checkedMeta, hlength]

theorem wellFormed_iff_of_sameHash {a b : EvidenceId} (h : SameHash stored a b) :
    WellFormed stored a ↔ WellFormed stored b := by
  obtain ⟨hash, ha, hb⟩ := h
  obtain ⟨rowA, hrowA, rfl⟩ := Option.map_eq_some_iff.mp ha
  obtain ⟨rowB, hrowB, hsame⟩ := Option.map_eq_some_iff.mp hb
  simp [WellFormed, hrowA, hrowB, hsame]

theorem rowKey_of_sameHash {a b : EvidenceId} (h : SameHash stored a b) :
    rowKey stored a = rowKey stored b := by
  by_cases hwell : WellFormed stored a
  · obtain ⟨hash, ha, hb⟩ := h
    obtain ⟨row, hrow, hlength⟩ := hwell
    obtain rfl : row.1 = hash := by simpa [hrow] using ha
    obtain ⟨rowB, hrowB, hsame⟩ := Option.map_eq_some_iff.mp hb
    rw [rowKey_of_wellFormed hrow hlength, rowKey_of_wellFormed hrowB (hsame ▸ hlength)]
    exact Subtype.ext hsame.symm
  · rw [rowKey_of_not_wellFormed hwell,
      rowKey_of_not_wellFormed (mt (wellFormed_iff_of_sameHash h).mpr hwell)]

theorem sameHash_of_rowKey {a b : EvidenceId} (ha : WellFormed stored a)
    (hb : WellFormed stored b) (hkey : rowKey stored a = rowKey stored b) :
    SameHash stored a b := by
  obtain ⟨rowA, hrowA, hlengthA⟩ := ha
  obtain ⟨rowB, hrowB, hlengthB⟩ := hb
  rw [rowKey_of_wellFormed hrowA hlengthA, rowKey_of_wellFormed hrowB hlengthB] at hkey
  exact ⟨rowA.1, by simp [hrowA], by simp [hrowB, (Subtype.mk.inj hkey).symm]⟩

theorem length_dedup_le_one_iff {α : Type} [DecidableEq α] {l : List α} :
    l.dedup.length ≤ 1 ↔ ∀ a ∈ l, ∀ b ∈ l, a = b := by
  constructor
  · intro h a ha b hb
    have ha := List.mem_dedup.mpr ha
    have hb := List.mem_dedup.mpr hb
    obtain ⟨c, hc⟩ | hnil := (Nat.le_one_iff_eq_zero_or_eq_one.mp h).symm.imp
      List.length_eq_one_iff.mp List.length_eq_zero_iff.mp
    · simp only [hc, List.mem_singleton] at ha hb
      rw [ha, hb]
    · simp [hnil] at ha
  · intro h
    have hnodup := l.nodup_dedup
    cases hdedup : l.dedup with
    | nil => simp
    | cons a rest =>
      cases rest with
      | nil => simp
      | cons b rest =>
        have ha : a ∈ l := List.mem_dedup.mp (by simp [hdedup])
        have hb : b ∈ l := List.mem_dedup.mp (by simp [hdedup])
        rw [hdedup, h a ha b hb] at hnodup
        simp at hnodup

theorem UnknownApart.meets (hcond : UnknownApart stored results) {a b : RetrievalResult}
    (ha : a ∈ results) (hb : b ∈ results) (hunknown : ¬WellFormed stored a.evidenceId)
    (hkey : rowKey stored a.evidenceId = rowKey stored b.evidenceId) :
    a.evidenceId = b.evidenceId ∨ ¬WellFormed stored b.evidenceId ∧
      SameHash stored a.evidenceId b.evidenceId ∧
      ∀ s ∈ storedSource stored a.evidenceId, ∀ s' ∈ storedSource stored b.evidenceId, s = s' := by
  by_cases hne : a.evidenceId = b.evidenceId
  · exact .inl hne
  obtain ⟨hzero, hmalformed⟩ := hcond a ha b hb hne hunknown
  by_cases hwell : WellFormed stored b.evidenceId
  · obtain ⟨row, hrow, hlength⟩ := hwell
    rw [rowKey_of_not_wellFormed hunknown, rowKey_of_wellFormed hrow hlength] at hkey
    exact absurd (Subtype.mk.inj hkey).symm (hzero row hrow)
  · exact .inr ⟨hwell, hmalformed hwell⟩

theorem UnknownApart.sameContent (hcond : UnknownApart stored results) {a b : RetrievalResult}
    (ha : a ∈ results) (hb : b ∈ results)
    (hkey : rowKey stored a.evidenceId = rowKey stored b.evidenceId) :
    SameContent stored a.evidenceId b.evidenceId := by
  by_cases hwell : WellFormed stored a.evidenceId
  · by_cases hwell' : WellFormed stored b.evidenceId
    · exact .inr (sameHash_of_rowKey hwell hwell' hkey)
    · rcases hcond.meets hb ha hwell' hkey.symm with heq | ⟨hnot, -⟩
      · exact .inl heq.symm
      · exact absurd hwell hnot
  · exact (hcond.meets ha hb hwell hkey).imp_right fun h => h.2.1

/-- The clusters are told apart by content, and count the sources, just in case no unknown hash
meets another key. -/
theorem Grouped.partitionedByContent_iff
    (h : Grouped (rowKey stored) (knownSource stored) results out) :
    PartitionedByContent stored results out ↔ UnknownApart stored results := by
  constructor
  · intro hpart a ha b hb hne hunknown
    have hmeet : ∀ r ∈ results, rowKey stored r.evidenceId = unknownHash →
        a.evidenceId = r.evidenceId ∨ SameHash stored a.evidenceId r.evidenceId := by
      intro r hr hkey
      refine (hpart.together a ha r hr).mp ((h.together ha hr).mpr ?_)
      rw [hkey, rowKey_of_not_wellFormed hunknown]
    have hdark : ∀ r ∈ results, rowKey stored r.evidenceId = unknownHash →
        ¬WellFormed stored r.evidenceId := by
      intro r hr hkey
      rcases hmeet r hr hkey with heq | hsame
      · rw [← heq]
        exact hunknown
      · exact mt (wellFormed_iff_of_sameHash hsame).mpr hunknown
    refine ⟨fun row hrow hzero => ?_, fun hb' => ?_⟩
    · have hlength : row.1.length = 32 := hzero ▸ unknownHash.property
      refine hdark b hb ?_ ⟨row, hrow, hlength⟩
      rw [rowKey_of_wellFormed hrow hlength]
      exact Subtype.ext hzero
    · have hkey := rowKey_of_not_wellFormed hb'
      refine ⟨(hmeet b hb hkey).resolve_left hne, ?_⟩
      obtain ⟨c, hc, hac, hbc⟩ := (h.together ha hb).mpr
        ((rowKey_of_not_wellFormed hunknown).trans hkey.symm)
      have hnone : c.clusterMembers.filterMap (knownSource stored) = [] := by
        rw [List.filterMap_eq_nil_iff]
        intro id hid
        obtain ⟨r, hr, rfl, hrc⟩ := h.exists_of_mem hc hid
        refine knownSource_of_not_wellFormed (hdark r hr ?_)
        rw [hrc, ← (h.mem_clusterMembers hc hb).mp hbc, hkey]
      have hcount := hpart.sources c hc
      rw [h.sourceCount hc, hnone] at hcount
      have hone : (c.clusterMembers.filterMap (storedSource stored)).dedup.length ≤ 1 := by
        simp at hcount
        omega
      intro s hs s' hs'
      exact length_dedup_le_one_iff.mp hone s (List.mem_filterMap.mpr ⟨_, hac, hs⟩) s'
        (List.mem_filterMap.mpr ⟨_, hbc, hs'⟩)
  · intro hcond
    have htogether : ∀ a ∈ results, ∀ b ∈ results,
        (∃ c ∈ out, a.evidenceId ∈ c.clusterMembers ∧ b.evidenceId ∈ c.clusterMembers) ↔
          SameContent stored a.evidenceId b.evidenceId := by
      intro a ha b hb
      rw [h.together ha hb]
      refine ⟨hcond.sameContent ha hb, fun hsame => ?_⟩
      rcases hsame with heq | hsame
      · rw [heq]
      · exact rowKey_of_sameHash hsame
    refine ⟨h.partition, h.apart, htogether, h.best, h.ordered, fun c hc => ?_⟩
    rw [h.sourceCount hc]
    by_cases hall : ∀ id ∈ c.clusterMembers, WellFormed stored id
    · rw [List.filterMap_congr fun id hid => knownSource_of_wellFormed (hall id hid)]
    · -- a cluster with a malformed row has no other rows, none of which is counted
      push Not at hall
      obtain ⟨id, hid, hunknown⟩ := hall
      obtain ⟨a, ha, rfl, hac⟩ := h.exists_of_mem hc hid
      have hdark : ∀ id ∈ c.clusterMembers, ¬WellFormed stored id := by
        intro id hid
        obtain ⟨b, hb, rfl, hbc⟩ := h.exists_of_mem hc hid
        rcases hcond.meets ha hb hunknown (hac.trans hbc.symm) with heq | ⟨hnot, -⟩
        · exact heq ▸ hunknown
        · exact hnot
      have hnone : c.clusterMembers.filterMap (knownSource stored) = [] :=
        List.filterMap_eq_nil_iff.mpr fun id hid => knownSource_of_not_wellFormed (hdark id hid)
      have hone : (c.clusterMembers.filterMap (storedSource stored)).dedup.length ≤ 1 := by
        rw [length_dedup_le_one_iff]
        intro s hs s' hs'
        obtain ⟨id, hid, hs⟩ := List.mem_filterMap.mp hs
        obtain ⟨id', hid', hs'⟩ := List.mem_filterMap.mp hs'
        obtain ⟨b, hb, rfl, hbc⟩ := h.exists_of_mem hc hid
        obtain ⟨b', hb', rfl, hbc'⟩ := h.exists_of_mem hc hid'
        rcases hcond.meets hb hb' (hdark _ hid) (hbc.trans hbc'.symm) with heq | ⟨-, -, hsource⟩
        · rw [heq] at hs
          exact Option.mem_unique hs hs'
        · exact hsource s hs s' hs'
      rw [hnone, max_eq_right hone]
      rfl

def hit (id : EvidenceId) : RetrievalResult := ⟨id, 1, 1, 0, 0⟩

def oneRow (id : EvidenceId) : Option StoredMeta :=
  if id = 1 then some (List.replicate 32 7, some "slack") else none

end

end Knowledge.Retrieval
