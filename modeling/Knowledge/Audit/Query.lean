import Knowledge.Audit.Log
import Knowledge.Lib.Postings

/-!
`crates/audit_service/src/log.rs`: the indexes of the log and the queries they serve. A `BTreeSet`
is a `Finset`, listed in order; `none` stands for the panic of a position beyond the entries.
-/

set_option autoImplicit false

namespace Knowledge.AuditService.Indexed
open Knowledge.Machine
open Knowledge.Postings
open Knowledge.Sync (Uuid)
open Knowledge.Transition

structure AuditQuery where
  scopeId : Option Uuid
  actionTypes : List AuditActionType
  since : Option Int
  «until» : Option Int
  actorId : Option Uuid

def AuditQuery.matchesEntry (q : AuditQuery) (entry : AuditEntry) : Bool :=
  if q.scopeId.any fun scope => entry.scopeId ≠ some scope then false
  else if !q.actionTypes.isEmpty && !q.actionTypes.contains entry.actionType then false
  else if q.since.any fun since => entry.timestamp < since then false
  else if q.«until».any fun bound => entry.timestamp > bound then false
  else
    match q.actorId with
    | none => true
    | some actorId =>
      match entry.actor with
      | .user id | .agent id => id = actorId
      | .system => false

structure Indexes where
  scopeIndex : Table Uuid (List Nat)
  actionIndex : Table AuditActionType (List Nat)
  actorIndex : Table Uuid (List Nat)
  idIndex : Table AuditEntryId Nat

def Indexes.new : Indexes := ⟨∅, ∅, ∅, ∅⟩

def indexEntryInto (indexes : Indexes) (entry : AuditEntry) (position : Nat) : Indexes where
  scopeIndex :=
    match entry.scopeId with
    | some scope => post indexes.scopeIndex scope position
    | none => indexes.scopeIndex
  actionIndex := post indexes.actionIndex entry.actionType position
  actorIndex :=
    match entry.actor with
    | .user id | .agent id => post indexes.actorIndex id position
    | .system => indexes.actorIndex
  idIndex := indexes.idIndex.insert entry.id position

/-- The log of the other modules with its indexes. -/
structure AuditLog extends AuditService.AuditLog, Indexes

namespace AuditLog

def new : AuditLog := ⟨.new, .new⟩

def append (log : AuditLog) (entry : AuditEntry) : AuditLog × AuditEntryId :=
  let entry := { entry with sequence := log.nextSequence }
  (⟨⟨log.entries ++ [entry], saturatingSucc log.nextSequence⟩,
    indexEntryInto log.toIndexes entry log.entries.length⟩, entry.id)

def replayPersisted (log : AuditLog) (entry : AuditEntry) : Except AuditError AuditLog :=
  if entry.sequence ≠ log.nextSequence then
    .error (.persistence "replayed audit entry sequence is not contiguous with next_sequence")
  else
    .ok ⟨⟨log.entries ++ [entry], saturatingSucc log.nextSequence⟩,
      indexEntryInto log.toIndexes entry log.entries.length⟩

def get (log : AuditLog) (id : AuditEntryId) : Option AuditEntry :=
  (log.idIndex.lookup id).bind (log.entries[·]?)

/-- Both loops over the other sets stop where nothing is left. -/
def intersectUntilEmpty (acc : Finset Nat) : List (List Nat) → Finset Nat
  | [] => acc
  | set :: rest =>
    let acc := acc ∩ set.toFinset
    if acc = ∅ then ∅ else intersectUntilEmpty acc rest

def intersectWith (log : AuditLog) (seed : List Nat) (extra : List (List Nat))
    (actorId : Option Uuid) : List Nat :=
  let acc := intersectUntilEmpty seed.toFinset extra
  if extra ≠ [] ∧ acc = ∅ then []
  else
    match actorId with
    | none => acc.sort
    | some actorId =>
      match log.actorIndex.lookup actorId with
      | some positions => (acc ∩ positions.toFinset).sort
      | none => []

def candidatePositions (log : AuditLog) (q : AuditQuery) : Option (List Nat) :=
  let sets :=
    match q.scopeId with
    | some scope => [posted log.scopeIndex scope]
    | none => []
  if q.actionTypes ≠ [] then
    let union := q.actionTypes.foldl (fun (union : Finset Nat) action =>
      match log.actionIndex.lookup action with
      | some positions => union ∪ positions.toFinset
      | none => union) ∅
    some (log.intersectWith union.sort sets q.actorId)
  else
    let sets :=
      match q.actorId with
      | some actorId => sets ++ [posted log.actorIndex actorId]
      | none => sets
    match sets.insertionSort fun (a b : List Nat) => a.length ≤ b.length with
    | [] => none
    | smallest :: rest => some (intersectUntilEmpty smallest.toFinset rest).sort

def query (log : AuditLog) (q : AuditQuery) : Option (List AuditEntry) :=
  match log.candidatePositions q with
  | some positions => (positions.mapM (log.entries[·]?)).map (List.filter q.matchesEntry)
  | none => some (log.entries.filter q.matchesEntry)

def rebuildIndexes (log : AuditLog) : AuditLog where
  toAuditLog := log.toAuditLog
  toIndexes := log.entries.zipIdx.foldl (fun indexes (entry, position) =>
    indexEntryInto indexes entry position) .new

end AuditLog

structure Wire (Text : Type) where
  entries : List Text
  nextSequence : Nat

section Serde

variable {Text : Type} (json : Json Text)

def serialize (log : AuditLog) : Option (Wire Text) :=
  (log.entries.mapM json.toVec).map fun entries => ⟨entries, log.nextSequence⟩

def deserialize (wire : Wire Text) : Option AuditLog :=
  (wire.entries.mapM json.fromSlice).map fun entries =>
    AuditLog.rebuildIndexes ⟨⟨entries, wire.nextSequence⟩, .new⟩

inductive Event where
  | append (entry : AuditEntry)
  | replayPersisted (entry : AuditEntry)
  | roundTrip

/-- A call that fails leaves the log, and a log that cannot be written or read is kept. -/
def AuditLog.next (log : AuditLog) : Event → AuditLog
  | .append entry => (log.append entry).1
  | .replayPersisted entry => (log.replayPersisted entry).toOption.getD log
  | .roundTrip => ((serialize json log).bind (deserialize json)).getD log

def system : System AuditLog Event :=
  .ofNext (· = .new) (fun _ _ => True) (AuditLog.next json)

/-- What is read from an entry's text may differ from it, but not in its sequence number. -/
def KeepsSequence : Prop :=
  ∀ entry text found, json.toVec entry = some text → json.fromSlice text = some found →
    found.sequence = entry.sequence

end Serde

def actorUuid : Actor → Option Uuid
  | .user id | .agent id => some id
  | .system => none

/-- The indexes of a list of entries; an id stands for the last entry that has it. -/
structure Indexes.Of (indexes : Indexes) (entries : List AuditEntry) : Prop where
  scope : Lists AuditEntry.scopeId indexes.scopeIndex entries
  action : Lists (fun entry => some entry.actionType) indexes.actionIndex entries
  actor : Lists (fun entry => actorUuid entry.actor) indexes.actorIndex entries
  known : ∀ id position, indexes.idIndex.lookup id = some position → position < entries.length
  latest : ∀ id, (indexes.idIndex.lookup id).bind (entries[·]?)
    = entries.reverse.find? (·.id = id)

theorem Indexes.Of.new : Indexes.new.Of [] where
  scope := .nil _
  action := .nil _
  actor := .nil _
  known := by simp [Indexes.new]
  latest := by simp [Indexes.new]

theorem Indexes.Of.snoc {indexes : Indexes} {entries : List AuditEntry} (h : indexes.Of entries)
    (entry : AuditEntry) :
    (indexEntryInto indexes entry entries.length).Of (entries ++ [entry]) where
  scope := by
    cases hscope : entry.scopeId with
    | none => simpa only [indexEntryInto, hscope] using h.scope.snoc_unkeyed hscope
    | some scope => simpa only [indexEntryInto, hscope] using h.scope.snoc_keyed hscope
  action := h.action.snoc_keyed rfl
  actor := by
    cases hactor : entry.actor with
    | user id => simpa only [indexEntryInto, hactor] using h.actor.snoc_keyed (by rw [hactor]; rfl)
    | agent id => simpa only [indexEntryInto, hactor] using h.actor.snoc_keyed (by rw [hactor]; rfl)
    | system => simpa only [indexEntryInto, hactor] using h.actor.snoc_unkeyed (by rw [hactor]; rfl)
  known := by
    intro id position hposition
    rw [indexEntryInto, Table.lookup_insert_ite] at hposition
    rw [List.length_append, List.length_singleton]
    split at hposition
    · cases hposition
      omega
    · have hlt := h.known id position hposition
      omega
  latest := by
    intro id
    rw [indexEntryInto, Table.lookup_insert_ite, List.reverse_append, List.reverse_singleton,
      List.singleton_append, List.find?_cons]
    by_cases hid : id = entry.id
    · subst hid
      simp
    · have hold : (indexes.idIndex.lookup id).bind ((entries ++ [entry])[·]?)
          = (indexes.idIndex.lookup id).bind (entries[·]?) := by
        cases hposition : indexes.idIndex.lookup id with
        | none => rfl
        | some position =>
          exact List.getElem?_append_left (h.known id position hposition)
      simp [hid, Ne.symm hid, hold, h.latest id]

theorem rebuildIndexes_of (log : AuditLog) : log.rebuildIndexes.Of log.entries := by
  have hall : ∀ entries : List AuditEntry, (entries.zipIdx.foldl (fun indexes (entry, position) =>
      indexEntryInto indexes entry position) Indexes.new).Of entries := by
    intro entries
    induction entries using List.reverseRecOn with
    | nil => exact .new
    | append_singleton entries entry ih =>
      rw [List.zipIdx_append, List.foldl_append]
      simpa using ih.snoc entry
  exact hall log.entries

theorem AuditQuery.matchesEntry_iff (q : AuditQuery) (entry : AuditEntry) :
    q.matchesEntry entry ↔ (∀ scope, q.scopeId = some scope → entry.scopeId = some scope) ∧
      (q.actionTypes ≠ [] → entry.actionType ∈ q.actionTypes) ∧
      (∀ since, q.since = some since → since ≤ entry.timestamp) ∧
      (∀ bound, q.«until» = some bound → entry.timestamp ≤ bound) ∧
      ∀ actorId, q.actorId = some actorId → actorUuid entry.actor = some actorId := by
  obtain ⟨scopeId, actionTypes, since, bound, actorId⟩ := q
  have hactor : (match actorId with
      | none => true
      | some actorId =>
        match entry.actor with
        | .user id | .agent id => decide (id = actorId)
        | .system => false) = true ↔
      ∀ a, actorId = some a → actorUuid entry.actor = some a := by
    cases actorId <;> cases entry.actor <;> simp [actorUuid]
  rw [← hactor]
  unfold matchesEntry
  dsimp only
  cases scopeId <;> cases since <;> cases bound <;> simp [or_iff_not_imp_left]

namespace AuditLog

theorem mem_intersectUntilEmpty (sets : List (List Nat)) (acc : Finset Nat) (i : Nat) :
    i ∈ intersectUntilEmpty acc sets ↔ i ∈ acc ∧ ∀ set ∈ sets, i ∈ set := by
  induction sets generalizing acc with
  | nil => simp [intersectUntilEmpty]
  | cons set rest ih =>
    have hmem : i ∈ acc ∩ set.toFinset ↔ i ∈ acc ∧ i ∈ set := by simp
    rw [intersectUntilEmpty]
    split
    · rename_i hempty
      rw [hempty] at hmem
      simp at hmem ⊢
      tauto
    · rw [ih, hmem, List.forall_mem_cons, and_assoc]

theorem mem_intersectWith (log : AuditLog) (seed : List Nat) (extra : List (List Nat))
    (actorId : Option Uuid) (i : Nat) : i ∈ log.intersectWith seed extra actorId ↔
      i ∈ seed ∧ (∀ set ∈ extra, i ∈ set) ∧
        ∀ id, actorId = some id → i ∈ posted log.actorIndex id := by
  have hleft : i ∈ intersectUntilEmpty seed.toFinset extra ↔ i ∈ seed ∧ ∀ set ∈ extra, i ∈ set := by
    rw [mem_intersectUntilEmpty, List.mem_toFinset]
  rw [← and_assoc, ← hleft]
  unfold intersectWith
  dsimp only
  split
  · rename_i hempty
    simp [hempty.2]
  · cases actorId with
    | none => simp
    | some id =>
      cases hposted : log.actorIndex.lookup id with
      | none => simp [posted, hposted]
      | some positions => simp [posted, hposted]

theorem sorted_intersectWith (log : AuditLog) (seed : List Nat) (extra : List (List Nat))
    (actorId : Option Uuid) : (log.intersectWith seed extra actorId).Pairwise (· < ·) := by
  unfold intersectWith
  dsimp only
  split
  · exact .nil
  · cases actorId with
    | none => exact (Finset.sortedLT_sort _).pairwise
    | some id =>
      dsimp only
      cases log.actorIndex.lookup id with
      | none => exact .nil
      | some positions => exact (Finset.sortedLT_sort _).pairwise

theorem mem_union (log : AuditLog) (actions : List AuditActionType) (acc : Finset Nat) (i : Nat) :
    i ∈ actions.foldl (fun (union : Finset Nat) action =>
      match log.actionIndex.lookup action with
      | some positions => union ∪ positions.toFinset
      | none => union) acc ↔ i ∈ acc ∨ ∃ action ∈ actions, i ∈ posted log.actionIndex action := by
  induction actions generalizing acc with
  | nil => simp
  | cons action rest ih =>
    rw [List.foldl_cons, ih]
    cases hposted : log.actionIndex.lookup action with
    | none => simp [posted, hposted]
    | some positions => simp [posted, hposted, or_assoc]

/-- The positions that a query is left with are in order and those that each of its indexes has. -/
theorem candidatePositions_some {log : AuditLog} {q : AuditQuery} {positions : List Nat}
    (h : log.candidatePositions q = some positions) :
    positions.Pairwise (· < ·) ∧
      (∀ i, i ∈ positions ↔
        (∀ scope, q.scopeId = some scope → i ∈ posted log.scopeIndex scope) ∧
        (q.actionTypes ≠ [] → ∃ action ∈ q.actionTypes, i ∈ posted log.actionIndex action) ∧
        ∀ actorId, q.actorId = some actorId → i ∈ posted log.actorIndex actorId) ∧
      (q.scopeId ≠ none ∨ q.actionTypes ≠ [] ∨ q.actorId ≠ none) := by
  unfold candidatePositions at h
  dsimp only at h
  have hscope : ∀ i, (∀ set ∈ (match q.scopeId with
      | some scope => [posted log.scopeIndex scope]
      | none => []), i ∈ set) ↔
      ∀ scope, q.scopeId = some scope → i ∈ posted log.scopeIndex scope := by
    intro i
    cases q.scopeId <;> simp
  split at h
  · rename_i htypes
    cases h
    refine ⟨sorted_intersectWith .., ?_, .inr (.inl htypes)⟩
    intro i
    rw [mem_intersectWith, Finset.mem_sort, mem_union, hscope]
    simp [htypes]
    tauto
  · rename_i htypes
    have hboth : ∀ i, (∀ set ∈ (match q.actorId with
        | some actorId => (match q.scopeId with
          | some scope => [posted log.scopeIndex scope]
          | none => []) ++ [posted log.actorIndex actorId]
        | none => match q.scopeId with
          | some scope => [posted log.scopeIndex scope]
          | none => []), i ∈ set) ↔
        (∀ scope, q.scopeId = some scope → i ∈ posted log.scopeIndex scope) ∧
          ∀ actorId, q.actorId = some actorId → i ∈ posted log.actorIndex actorId := by
      intro i
      cases q.actorId <;> cases q.scopeId <;> simp
    split at h
    · cases h
    · rename_i smallest rest hsets
      cases h
      refine ⟨(Finset.sortedLT_sort _).pairwise, ?_, ?_⟩
      · intro i
        have hsorted := List.forall_mem_cons (p := fun set : List Nat => i ∈ set) (a := smallest)
          (l := rest)
        rw [← hsets] at hsorted
        simp only [List.mem_insertionSort] at hsorted
        rw [Finset.mem_sort, mem_intersectUntilEmpty, List.mem_toFinset, ← hsorted, hboth]
        simp [htypes]
      · by_contra hnone
        push Not at hnone
        simp [hnone] at hsets

theorem query_eq_filter {log : AuditLog} (h : log.Of log.entries) (q : AuditQuery) :
    log.query q = some (log.entries.filter q.matchesEntry) := by
  unfold query
  split
  · rename_i positions hpositions
    obtain ⟨hsorted, hmem, hset⟩ := candidatePositions_some hpositions
    apply filter_read hsorted
    · -- a query that uses an index has its positions from there
      intro i hi
      obtain ⟨hscope, htypes, hactor⟩ := (hmem i).mp hi
      have hfound : ∃ entry, log.entries[i]? = some entry := by
        rcases hset with hset | hset | hset
        · obtain ⟨scope, hq⟩ := Option.ne_none_iff_exists'.mp hset
          obtain ⟨entry, hentry, -⟩ := h.scope.mem_iff.mp (hscope scope hq)
          exact ⟨entry, hentry⟩
        · obtain ⟨action, -, hposted⟩ := htypes hset
          obtain ⟨entry, hentry, -⟩ := h.action.mem_iff.mp hposted
          exact ⟨entry, hentry⟩
        · obtain ⟨actorId, hq⟩ := Option.ne_none_iff_exists'.mp hset
          obtain ⟨entry, hentry, -⟩ := h.actor.mem_iff.mp (hactor actorId hq)
          exact ⟨entry, hentry⟩
      obtain ⟨entry, hentry⟩ := hfound
      exact (List.getElem?_eq_some_iff.mp hentry).1
    · intro i entry hentry hmatches
      obtain ⟨hscope, htypes, -, -, hactor⟩ := (q.matchesEntry_iff entry).mp hmatches
      rw [hmem]
      refine ⟨?_, ?_, ?_⟩
      · intro scope hq
        exact h.scope.mem_iff.mpr ⟨entry, hentry, hscope scope hq⟩
      · intro hq
        exact ⟨entry.actionType, htypes hq, h.action.mem_iff.mpr ⟨entry, hentry, rfl⟩⟩
      · intro actorId hq
        exact h.actor.mem_iff.mpr ⟨entry, hentry, hactor actorId hq⟩
  · rfl

/-- The indexes of the log are those of its entries, and these are numbered from 0 on, as far as a
sequence number goes. -/
structure Sound (log : AuditLog) : Prop where
  indexed : log.Of log.entries
  numbered : ∀ i entry, log.entries[i]? = some entry → entry.sequence = min i u64Max
  nextSequence : log.nextSequence = min log.entries.length u64Max

theorem Sound.new : Sound .new where
  indexed := .new
  numbered := by simp [AuditLog.new, AuditService.AuditLog.new]
  nextSequence := by simp [AuditLog.new, AuditService.AuditLog.new]

theorem Sound.snoc {log : AuditLog} (h : log.Sound) {entry : AuditEntry}
    (hsequence : entry.sequence = log.nextSequence) :
    Sound ⟨⟨log.entries ++ [entry], saturatingSucc log.nextSequence⟩,
      indexEntryInto log.toIndexes entry log.entries.length⟩ where
  indexed := h.indexed.snoc entry
  numbered := by
    intro i found hfound
    rw [List.getElem?_append] at hfound
    split at hfound
    · exact h.numbered i found hfound
    · obtain ⟨hi, heq⟩ := List.getElem?_eq_some_iff.mp hfound
      rw [List.length_singleton] at hi
      rw [List.getElem_singleton] at heq
      subst heq
      rw [hsequence, h.nextSequence]
      congr 1
      omega
  nextSequence := by
    simp only [saturatingSucc, h.nextSequence, List.length_append, List.length_singleton]
    omega

theorem Sound.ordered {log : AuditLog} (h : log.Sound) : log.entries.Pairwise fun a b =>
    a.sequence ≤ b.sequence ∧ (a.sequence < u64Max → a.sequence < b.sequence) := by
  rw [List.pairwise_iff_getElem]
  intro i j hi hj hij
  have hfirst := h.numbered i _ (List.getElem?_eq_getElem hi)
  have hsecond := h.numbered j _ (List.getElem?_eq_getElem hj)
  omega

end AuditLog

section Runs

variable {Text : Type} {json : Json Text}

theorem mapM_toVec_fromSlice (hjson : KeepsSequence json) {entries : List AuditEntry}
    {texts : List Text} {found : List AuditEntry} (hwrite : entries.mapM json.toVec = some texts)
    (hread : texts.mapM json.fromSlice = some found) :
    found.map AuditEntry.sequence = entries.map AuditEntry.sequence := by
  induction entries generalizing texts found with
  | nil =>
    cases hwrite
    cases hread
    rfl
  | cons entry entries ih =>
    simp only [List.mapM_cons, Option.bind_eq_bind, Option.pure_def, Option.bind_eq_some_iff]
      at hwrite
    obtain ⟨text, htext, texts, htexts, heq⟩ := hwrite
    cases heq
    simp only [List.mapM_cons, Option.bind_eq_bind, Option.pure_def, Option.bind_eq_some_iff]
      at hread
    obtain ⟨first, hfirst, rest, hrest, heq⟩ := hread
    cases heq
    rw [List.map_cons, List.map_cons, ih htexts hrest, hjson entry text first htext hfirst]

theorem AuditLog.Sound.roundTrip (hjson : KeepsSequence json) {log found : AuditLog}
    (h : log.Sound) (hfound : (serialize json log).bind (deserialize json) = some found) :
    found.Sound := by
  simp only [serialize, deserialize, Option.bind_eq_some_iff, Option.map_eq_some_iff] at hfound
  obtain ⟨wire, ⟨texts, hwrite, rfl⟩, entries, hread, rfl⟩ := hfound
  have hsame := mapM_toVec_fromSlice hjson hwrite hread
  have hlength : entries.length = log.entries.length := by simpa using congrArg List.length hsame
  exact {
    indexed := rebuildIndexes_of _
    numbered := by
      intro i entry hentry
      have hat : (log.entries.map AuditEntry.sequence)[i]? = some entry.sequence := by
        rw [← hsame, List.getElem?_map]
        exact congrArg _ hentry
      rw [List.getElem?_map, Option.map_eq_some_iff] at hat
      obtain ⟨old, hold, heq⟩ := hat
      rw [← heq]
      exact h.numbered i old hold
    nextSequence := by
      rw [AuditLog.rebuildIndexes, hlength]
      exact h.nextSequence }

theorem AuditLog.Sound.next (hjson : KeepsSequence json) {log : AuditLog} (h : log.Sound)
    (event : Event) : (log.next json event).Sound := by
  cases event with
  | append entry => exact h.snoc rfl
  | replayPersisted entry =>
    unfold AuditLog.next replayPersisted
    dsimp only
    split
    · exact h
    · rename_i hsequence
      exact h.snoc (not_not.mp hsequence)
  | roundTrip =>
    unfold AuditLog.next
    dsimp only
    cases hfound : (serialize json log).bind (deserialize json) with
    | none => exact h
    | some found => exact h.roundTrip hjson hfound

theorem sound_of_reachable (hjson : KeepsSequence json) {log : AuditLog}
    (h : (system json).Reachable log) : log.Sound := by
  refine h.invariant AuditLog.Sound ?_ ?_
  · rintro log rfl
    exact .new
  · rintro log event next - hlog ⟨-, rfl⟩
    exact hlog.next hjson event

/-- A query yields what a scan of all entries does, in the order of their sequence numbers. -/
theorem query_full_scan (json : Json Text) (hjson : KeepsSequence json) {log : AuditLog}
    (h : (system json).Reachable log) (q : AuditQuery) :
    log.query q = some (log.entries.filter q.matchesEntry) ∧
      (log.entries.filter q.matchesEntry).Pairwise fun a b =>
        a.sequence ≤ b.sequence ∧ (a.sequence < u64Max → a.sequence < b.sequence) := by
  have hsound := sound_of_reachable hjson h
  exact ⟨AuditLog.query_eq_filter hsound.indexed q, hsound.ordered.filter _⟩

def exported (scope : Option Uuid) (actor : Actor) : AuditEntry :=
  ⟨1, 9, 1700000000000000000, actor, .export, ⟨.policy, 7⟩, scope, .null⟩

def sampleLog : AuditLog :=
  [.append (exported (some 4) (.user 2)), .replayPersisted (sampleEntry 1 .null),
    .replayPersisted { exported none (.agent 2) with sequence := 1 }, .roundTrip,
    .append (exported (some 4) (.agent 2))].foldl (AuditLog.next serdeJson) .new

def sampleQuery : AuditQuery := ⟨some 4, [.export, .policyChange, .export], none, none, some 2⟩

theorem query_full_scan_sample :
    sampleLog.query sampleQuery = some (sampleLog.entries.filter sampleQuery.matchesEntry) ∧
      (sampleLog.entries.filter sampleQuery.matchesEntry).map AuditEntry.sequence = [0, 2] := by
  have hkeeps : KeepsSequence serdeJson := by
    intro entry text found hwrite hread
    cases hwrite
    unfold serdeJson at hread
    dsimp only at hread
    split at hread <;> cases hread
    rfl
  have hreachable : (system serdeJson).Reachable sampleLog := by
    have hlegal : Legal (fun _ _ => True) (AuditLog.next serdeJson) .new
        [.append (exported (some 4) (.user 2)), .replayPersisted (sampleEntry 1 .null),
          .replayPersisted { exported none (.agent 2) with sequence := 1 }, .roundTrip,
          .append (exported (some 4) (.agent 2))] := by simp [Legal]
    exact hlegal.reachable (.init rfl)
  exact ⟨(query_full_scan serdeJson hkeeps hreachable sampleQuery).1, by decide +kernel⟩

end Runs

end Knowledge.AuditService.Indexed
