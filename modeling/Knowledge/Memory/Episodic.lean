import Knowledge.Lib.Collect
import Knowledge.Lib.Runs
import Knowledge.Memory.Policy
import Mathlib.Algebra.Order.Field.Rat

/-!
`crates/memory_manager/src/episodic.rs`: the sessions of a stream of observations, and the ingest
that summarises them one after another into the store. Times and the gap are on one integer axis.
-/

set_option autoImplicit false

namespace Knowledge.Memory.Episodic
open Knowledge.Runs
open Knowledge.Sync (Uuid)

structure Observation where
  evidenceId : Uuid
  scopeId : ScopeId
  occurredAt : Int
  body : String

inductive SessionBoundary where
  | timeGap
  | explicitAction
  | topicShift

structure Session where
  id : Uuid
  scopeId : ScopeId
  startedAt : Int
  endedAt : Int
  boundary : SessionBoundary
  observations : List Observation

def defaultMinObservations : Nat := 2

def Session.isSummarisable (session : Session) : Bool :=
  session.observations.length ≥ defaultMinObservations

structure EpisodicSummary where
  id : Uuid
  scopeId : ScopeId
  sessionId : Uuid
  summaryText : String
  keyObservations : List Uuid
  timeRangeStart : Int
  timeRangeEnd : Int
  createdAt : Int
  state : MemoryState
  retentionScore : ℚ
  sensitivityClass : SensitivityClass
  deriving DecidableEq

/-- What the random ids and the clock give in one call, each time they are asked. -/
structure Draws where
  sessionId : Nat → Uuid
  summaryId : Nat → Uuid
  now : Nat → Int

structure Buffer where
  first : Observation
  more : List Observation

namespace Buffer

def observations (current : Buffer) : List Observation := current.first :: current.more

def last (current : Buffer) : Observation := current.more.getLastD current.first

def push (current : Buffer) (obs : Observation) : Buffer := ⟨current.first, current.more ++ [obs]⟩

end Buffer

def close (buf : Buffer) (boundary : SessionBoundary) (id : Uuid) : Session where
  id := id
  scopeId := buf.first.scopeId
  startedAt := buf.first.occurredAt
  endedAt := buf.last.occurredAt
  boundary := boundary
  observations := buf.observations

structure SessionDetector where
  gap : Int
  explicitMarkers : List String

open SessionDetector

structure Detection where
  sessions : List Session
  current : Buffer
  lastTime : Int

namespace SessionDetector

def marked (detector : SessionDetector) (obs : Observation) : Bool :=
  detector.explicitMarkers.any fun m => m.toList <:+: obs.body.toList.map Char.toLower

def observe (detector : SessionDetector) (draws : Draws) (state : Detection) (obs : Observation) :
    Detection :=
  let scopeChanged := obs.scopeId ≠ state.current.first.scopeId
  let gapTooBig := obs.occurredAt-state.lastTime ≥ detector.gap
  let explicit := detector.marked state.current.last
  if scopeChanged ∨ gapTooBig ∨ explicit then
    let boundary : SessionBoundary :=
      if explicit then .explicitAction else if scopeChanged then .topicShift else .timeGap
    ⟨state.sessions ++ [close state.current boundary (draws.sessionId state.sessions.length)],
      ⟨obs, []⟩, obs.occurredAt⟩
  else ⟨state.sessions, state.current.push obs, obs.occurredAt⟩

def detect (detector : SessionDetector) (draws : Draws) : List Observation → List Session
  | [] => []
  | first :: rest =>
    let state := rest.foldl (detector.observe draws) ⟨[], ⟨first, []⟩, first.occurredAt⟩
    state.sessions ++ [close state.current .timeGap (draws.sessionId state.sessions.length)]

end SessionDetector

def EpisodicSummary.newCandidate (id : Uuid) (createdAt : Int) (session : Session)
    (summaryText : String) : EpisodicSummary where
  id := id
  scopeId := session.scopeId
  sessionId := session.id
  summaryText := summaryText
  keyObservations := session.observations.map Observation.evidenceId
  timeRangeStart := session.startedAt
  timeRangeEnd := session.endedAt
  createdAt := createdAt
  state := .candidate
  retentionScore := 0
  sensitivityClass := .useful

abbrev EpisodicStore := Table Uuid EpisodicSummary

abbrev Summarizer (E : Type) := Session → Except E String

structure EpisodicMemory (E : Type) where
  summarizer : Summarizer E
  detector : SessionDetector
  store : EpisodicStore

section Ingest

variable {E : Type}

def summariseEach (summarizer : Summarizer E) (draws : Draws) :
    EpisodicStore → List EpisodicSummary → List Session →
      EpisodicStore × Except E (List EpisodicSummary)
  | store, out, [] => (store, .ok out)
  | store, out, session :: rest =>
    if !session.isSummarisable then summariseEach summarizer draws store out rest
    else
      match summarizer session with
      | .error e => (store, .error e)
      | .ok text =>
        let summary :=
          .newCandidate (draws.summaryId out.length) (draws.now out.length) session text
        summariseEach summarizer draws (store.insert summary.id summary) (out ++ [summary]) rest

def EpisodicMemory.ingest (memory : EpisodicMemory E) (draws : Draws)
    (observations : List Observation) : EpisodicMemory E × Except E (List EpisodicSummary) :=
  let sessions := memory.detector.detect draws observations
  let result := summariseEach memory.summarizer draws memory.store [] sessions
  ({ memory with store := result.1 }, result.2)

end Ingest

/-- One scope, no gap between neighbours, and no marker before the last observation. -/
structure SessionDetector.IsRun (detector : SessionDetector) (run : List Observation) : Prop where
  scope : ∀ a ∈ run, ∀ b ∈ run, a.scopeId = b.scopeId
  gap : run.IsChain fun a b => b.occurredAt-a.occurredAt < detector.gap
  markers : ∀ obs ∈ run.dropLast, detector.marked obs = false

/-- The sessions are the input cut into runs, and no run goes on from one into the next. -/
structure SessionDetector.Partition (detector : SessionDetector) (observations : List Observation)
    (sessions : List Session) : Prop where
  whole : (sessions.map Session.observations).flatten = observations
  nonempty : ∀ session ∈ sessions, session.observations ≠ []
  runs : ∀ session ∈ sessions, detector.IsRun session.observations
  maximal : sessions.IsChain fun s t => ∀ xs ys, xs ≠ [] → ys ≠ [] → xs <:+ s.observations →
    ys <+: t.observations → ¬ detector.IsRun (xs ++ ys)

structure SummaryOf {E : Type} (summarizer : Summarizer E) (session : Session)
    (summary : EpisodicSummary) : Prop where
  text : summarizer session = .ok summary.summaryText
  scope : summary.scopeId = session.scopeId
  ofSession : summary.sessionId = session.id
  observations : summary.keyObservations = session.observations.map Observation.evidenceId
  range : summary.timeRangeStart = session.startedAt ∧ summary.timeRangeEnd = session.endedAt

/-- One summary of each session of two observations or more, under an id of its own, is all that
came into the store. -/
structure Added {E : Type} (summarizer : Summarizer E) (sessions : List Session)
    (before after : EpisodicStore) (out : List EpisodicSummary) : Prop where
  each : (sessions.filter Session.isSummarisable).Forall₂ (SummaryOf summarizer) out
  distinct : (out.map EpisodicSummary.id).Nodup
  new : ∀ summary ∈ out, before.lookup summary.id = none
  stored : ∀ id summary, after.lookup id = some summary ↔
    before.lookup id = some summary ∨ summary ∈ out ∧ summary.id = id

/-- The ids of new summaries are distinct and not in use. -/
structure Draws.Fresh (draws : Draws) (store : EpisodicStore) (n : Nat) : Prop where
  distinct : ((List.range n).map draws.summaryId).Nodup
  unused : ∀ i < n, store.lookup (draws.summaryId i) = none

section Claim

variable {E : Type}

/-- An ingest adds a summary of each session, or fails and leaves the store, so that a batch that is
then given again and succeeds adds one of each. -/
def EpisodicMemory.AllOrNothing (memory : EpisodicMemory E) (draws : Draws)
    (observations : List Observation) : Prop :=
  let result := memory.ingest draws observations
  memory.detector.Partition observations (memory.detector.detect draws observations) ∧
  (∀ out, result.2 = .ok out → Added memory.summarizer (memory.detector.detect draws observations)
    memory.store result.1.store out) ∧
  ∀ e, result.2 = .error e → result.1.store = memory.store ∧
    ∀ (again : Summarizer E) (draws' : Draws) (out : List EpisodicSummary),
      draws'.Fresh result.1.store (memory.detector.detect draws' observations).length →
      ((⟨again, memory.detector, result.1.store⟩ : EpisodicMemory E).ingest draws' observations).2
        = .ok out →
      Added again (memory.detector.detect draws' observations) memory.store
        ((⟨again, memory.detector, result.1.store⟩ : EpisodicMemory E).ingest draws'
          observations).1.store out

/-- Of the sessions of two observations or more none fails, or the first one. -/
def EpisodicMemory.FailsAtOnce (memory : EpisodicMemory E) (draws : Draws)
    (observations : List Observation) : Prop :=
  let sessions := (memory.detector.detect draws observations).filter Session.isSummarisable
  (∃ session ∈ sessions.head?, ∃ e, memory.summarizer session = .error e) ∨
    ∀ session ∈ sessions, ∃ text, memory.summarizer session = .ok text

end Claim

namespace SessionDetector

variable (detector : SessionDetector)

def joined (a b : Observation) : Bool :=
  a.scopeId = b.scopeId && b.occurredAt-a.occurredAt < detector.gap && !detector.marked a

variable {detector}

theorem isRun_iff {run : List Observation} :
    detector.IsRun run ↔ run.IsChain fun a b => detector.joined a b := by
  constructor
  · intro h
    induction run with
    | nil => exact .nil
    | cons a run ih =>
      cases run with
      | nil => exact .singleton a
      | cons b run =>
        obtain ⟨hgap, hgaps⟩ := List.isChain_cons_cons.mp h.gap
        have hmarked := h.markers a (by simp)
        have hscope := h.scope a (by simp) b (by simp)
        refine List.isChain_cons_cons.mpr ⟨?_, ih ⟨?_, hgaps, ?_⟩⟩
        · simp [joined, hscope, hgap, hmarked]
        · intro c hc d hd
          exact h.scope c (List.mem_cons_of_mem a hc) d (List.mem_cons_of_mem a hd)
        · intro obs hobs
          exact h.markers obs (by simp [hobs])
  · intro h
    induction run with
    | nil => exact ⟨by simp, .nil, by simp⟩
    | cons a run ih =>
      cases run with
      | nil => exact ⟨by simp, .singleton a, by simp⟩
      | cons b run =>
        obtain ⟨hab, hrest⟩ := List.isChain_cons_cons.mp h
        obtain ⟨hscope, hgap, hmarkers⟩ := ih hrest
        simp only [joined, Bool.and_eq_true, decide_eq_true_eq, Bool.not_eq_true'] at hab
        obtain ⟨⟨hsame, hnear⟩, hmarked⟩ := hab
        have hfirst : ∀ c ∈ a :: b :: run, c.scopeId = b.scopeId := by
          intro c hc
          obtain rfl | hc := List.mem_cons.mp hc
          · exact hsame
          · exact hscope c hc b List.mem_cons_self
        constructor
        · intro c hc d hd
          rw [hfirst c hc, hfirst d hd]
        · exact List.isChain_cons_cons.mpr ⟨hnear, hgap⟩
        · intro obs hobs
          rw [List.dropLast_cons_cons] at hobs
          obtain rfl | hobs := List.mem_cons.mp hobs
          · exact hmarked
          · exact hmarkers obs hobs

end SessionDetector

theorem Buffer.observations_ne_nil (current : Buffer) : current.observations ≠ [] :=
  List.cons_ne_nil current.first current.more

theorem Buffer.getLast?_observations (current : Buffer) :
    current.observations.getLast? = some current.last := by
  obtain ⟨first, more⟩ := current
  rw [observations, last, List.getLast?_cons, List.getLastD_eq_getLast?]

theorem Buffer.last_eq (current : Buffer) :
    current.observations.getLast current.observations_ne_nil = current.last := by
  apply Option.some.inj
  rw [← List.getLast?_eq_some_getLast, current.getLast?_observations]

/-- The sessions so far and the buffer are the runs of what was read. -/
structure Detection.Cuts (detector : SessionDetector) (read : List Observation)
    (state : Detection) : Prop where
  runs : read.splitBy detector.joined
    = state.sessions.map Session.observations ++ [state.current.observations]
  time : state.lastTime = state.current.last.occurredAt

section Detect

variable {detector : SessionDetector} {read : List Observation} {state : Detection}

theorem Detection.Cuts.isRun (h : state.Cuts detector read) :
    detector.IsRun state.current.observations := by
  apply isRun_iff.mpr
  apply List.isChain_of_mem_splitBy (l := read)
  rw [h.runs]
  simp

theorem Detection.Cuts.getLast? (h : state.Cuts detector read) :
    read.getLast? = some state.current.last := by
  rw [← List.flatten_splitBy detector.joined read, h.runs, List.flatten_append,
    List.flatten_singleton, List.getLast?_append_of_ne_nil _ state.current.observations_ne_nil,
    state.current.getLast?_observations]

theorem Detection.Cuts.closes_iff (h : state.Cuts detector read) (obs : Observation) :
    (obs.scopeId ≠ state.current.first.scopeId ∨
      obs.occurredAt-state.lastTime ≥ detector.gap ∨
      detector.marked state.current.last = true) ↔
    detector.joined state.current.last obs = false := by
  have hlast : state.current.last.scopeId = state.current.first.scopeId := by
    apply h.isRun.scope
    · exact List.mem_of_getLast? state.current.getLast?_observations
    · exact List.mem_cons_self
  rw [h.time, ← hlast]
  simp only [joined, Bool.and_eq_false_iff, decide_eq_false_iff_not,
    Bool.not_eq_false', not_lt, ge_iff_le, ne_eq, or_assoc]
  rw [eq_comm]

theorem Detection.Cuts.observe (h : state.Cuts detector read) (draws : Draws)
    (obs : Observation) : (detector.observe draws state obs).Cuts detector (read ++ [obs]) := by
  unfold SessionDetector.observe
  dsimp only
  split
  · rename_i hcloses
    have hbreak := (h.closes_iff obs).mp hcloses
    constructor
    · rw [splitBy_snoc_cut (by simpa [h.getLast?] using hbreak), h.runs, List.map_append]
      rfl
    · rfl
  · rename_i hstays
    have hjoin : detector.joined state.current.last obs = true := by
      simpa using mt (h.closes_iff obs).mpr hstays
    constructor
    · rw [← state.current.last_eq] at hjoin
      exact splitBy_snoc_joined h.runs _ hjoin
    · simp [Buffer.push, Buffer.last]

theorem Detection.Cuts.detect (h : state.Cuts detector read) (draws : Draws)
    (rest : List Observation) :
    (rest.foldl (detector.observe draws) state).Cuts detector (read ++ rest) := by
  induction rest generalizing state read with
  | nil => simpa using h
  | cons obs rest ih =>
    rw [List.foldl_cons, List.append_cons]
    exact ih (h.observe draws obs)

theorem detect_runs (detector : SessionDetector) (draws : Draws) (observations : List Observation) :
    (detector.detect draws observations).map Session.observations
      = observations.splitBy detector.joined := by
  cases observations with
  | nil => rfl
  | cons first rest =>
    have hstart : Detection.Cuts detector [first] ⟨[], ⟨first, []⟩, first.occurredAt⟩ := ⟨rfl, rfl⟩
    rw [detect, List.map_append]
    exact (hstart.detect draws rest).runs.symm

theorem detect_partition (detector : SessionDetector) (draws : Draws)
    (observations : List Observation) :
    detector.Partition observations (detector.detect draws observations) := by
  have hruns := detect_runs detector draws observations
  have hmem : ∀ session ∈ detector.detect draws observations,
      session.observations ∈ observations.splitBy detector.joined := by
    intro session hsession
    rw [← hruns]
    exact List.mem_map_of_mem hsession
  constructor
  · rw [hruns, List.flatten_splitBy]
  · intro session hsession
    exact List.ne_nil_of_mem_splitBy (hmem session hsession)
  · intro session hsession
    exact isRun_iff.mpr (List.isChain_of_mem_splitBy (hmem session hsession))
  · have hmaximal := splitBy_maximal detector.joined observations
    rw [← hruns, List.isChain_map] at hmaximal
    refine hmaximal.imp ?_
    intro s t hcross xs ys hxs hys hsuffix hprefix hrun
    exact hcross xs ys hxs hys hsuffix hprefix (isRun_iff.mp hrun)

end Detect

section Claim

variable {E : Type} {summarizer : Summarizer E} {draws : Draws}

/-- What the loop over the sessions has inserted when it ends: all of it, or what came before the
session that failed. -/
structure Inserted (summarizer : Summarizer E) (draws : Draws) (store : EpisodicStore)
    (out : List EpisodicSummary) (sessions : List Session)
    (result : EpisodicStore × Except E (List EpisodicSummary)) (made : List EpisodicSummary) :
    Prop where
  store : result.1 = made.foldl (fun store summary => store.insert summary.id summary) store
  ids : made.map EpisodicSummary.id = (List.range' out.length made.length).map draws.summaryId
  few : made.length ≤ sessions.length
  ok : ∀ final, result.2 = .ok final → final = out ++ made ∧
    (sessions.filter Session.isSummarisable).Forall₂ (SummaryOf summarizer) made
  error : ∀ e, result.2 = .error e → ∃ done failed rest,
    sessions.filter Session.isSummarisable = done ++ failed :: rest ∧
    done.Forall₂ (SummaryOf summarizer) made ∧ summarizer failed = .error e

theorem summaryOf_newCandidate {session : Session} {text : String}
    (h : summarizer session = .ok text) (id : Uuid) (createdAt : Int) :
    SummaryOf summarizer session (.newCandidate id createdAt session text) :=
  ⟨h, rfl, rfl, rfl, rfl, rfl⟩

theorem inserted_summariseEach (summarizer : Summarizer E) (draws : Draws)
    (sessions : List Session) (store : EpisodicStore) (out : List EpisodicSummary) :
    ∃ made, Inserted summarizer draws store out sessions
      (summariseEach summarizer draws store out sessions) made := by
  induction sessions generalizing store out with
  | nil =>
    refine ⟨[], rfl, rfl, le_refl 0, ?_, ?_⟩
    · intro final hfinal
      cases hfinal
      simp
    · intro e he
      cases he
  | cons session rest ih =>
    rw [summariseEach]
    split
    · rename_i hshort
      obtain ⟨made, hmade⟩ := ih store out
      have hfilter : (session :: rest).filter Session.isSummarisable
          = rest.filter Session.isSummarisable := by
        rw [List.filter_cons_of_neg (by simpa using hshort)]
      refine ⟨made, hmade.store, hmade.ids, hmade.few.trans (Nat.le_succ _), ?_, ?_⟩
      · rw [hfilter]
        exact hmade.ok
      · rw [hfilter]
        exact hmade.error
    · rename_i hlong
      have hfilter : (session :: rest).filter Session.isSummarisable
          = session :: rest.filter Session.isSummarisable := by
        rw [List.filter_cons_of_pos (by simpa using hlong)]
      cases htext : summarizer session with
      | error e =>
        refine ⟨[], rfl, rfl, Nat.zero_le _, ?_, ?_⟩
        · intro final hfinal
          cases hfinal
        · intro e' he
          cases he
          exact ⟨[], session, rest.filter Session.isSummarisable, hfilter, .nil, htext⟩
      | ok text =>
        let summary : EpisodicSummary :=
          .newCandidate (draws.summaryId out.length) (draws.now out.length) session text
        have hsummary : SummaryOf summarizer session summary := summaryOf_newCandidate htext _ _
        obtain ⟨made, hmade⟩ := ih (store.insert summary.id summary) (out ++ [summary])
        refine ⟨summary :: made, hmade.store, ?_, ?_, ?_, ?_⟩
        · have hids := hmade.ids
          rw [List.length_append, List.length_singleton] at hids
          rw [List.map_cons, hids]
          simp [List.range'_succ, summary, EpisodicSummary.newCandidate]
        · have hfew := hmade.few
          simp only [List.length_cons]
          omega
        · intro final hfinal
          obtain ⟨heq, heach⟩ := hmade.ok final hfinal
          rw [hfilter]
          exact ⟨by simp [heq], .cons hsummary heach⟩
        · intro e he
          obtain ⟨done, failed, others, hsplit, heach, hfailed⟩ := hmade.error e he
          rw [hfilter, hsplit]
          exact ⟨session :: done, failed, others, rfl, .cons hsummary heach, hfailed⟩

section Fresh

variable {store : EpisodicStore} {sessions : List Session} {made : List EpisodicSummary}
  {result : EpisodicStore × Except E (List EpisodicSummary)}

theorem Inserted.fresh (h : Inserted summarizer draws store [] sessions result made)
    (hfresh : draws.Fresh store sessions.length) :
    (made.map EpisodicSummary.id).Nodup ∧ ∀ summary ∈ made, store.lookup summary.id = none := by
  have hids := h.ids
  rw [List.length_nil, ← List.range_eq_range'] at hids
  constructor
  · rw [hids]
    exact hfresh.distinct.sublist ((List.range_sublist.mpr h.few).map draws.summaryId)
  · intro summary hsummary
    have hid : summary.id ∈ (List.range made.length).map draws.summaryId := by
      rw [← hids]
      exact List.mem_map_of_mem hsummary
    obtain ⟨i, hi, heq⟩ := List.mem_map.mp hid
    have hlt := List.mem_range.mp hi
    rw [← heq]
    exact hfresh.unused i (hlt.trans_le h.few)

theorem Inserted.stored (h : Inserted summarizer draws store [] sessions result made)
    (hfresh : draws.Fresh store sessions.length) (id : Uuid) (summary : EpisodicSummary) :
    result.1.lookup id = some summary ↔
      store.lookup id = some summary ∨ summary ∈ made ∧ summary.id = id := by
  obtain ⟨hdistinct, hnew⟩ := h.fresh hfresh
  obtain ⟨hfound, hkept⟩ := Table.lookup_foldl_insert EpisodicSummary.id made hdistinct store
  rw [h.store]
  by_cases hid : id ∈ made.map EpisodicSummary.id
  · obtain ⟨other, hother, rfl⟩ := List.mem_map.mp hid
    rw [hfound other hother, hnew other hother]
    constructor
    · intro heq
      obtain rfl := Option.some.inj heq
      exact .inr ⟨hother, rfl⟩
    · intro hin
      rcases hin with hold | ⟨hsummary, heq⟩
      · cases hold
      · rw [List.inj_on_of_nodup_map hdistinct hother hsummary heq.symm]
  · rw [hkept id hid]
    constructor
    · exact .inl
    · intro hin
      rcases hin with hold | ⟨hsummary, rfl⟩
      · exact hold
      · exact absurd (List.mem_map_of_mem hsummary) hid

theorem Inserted.unchanged_iff (h : Inserted summarizer draws store [] sessions result made)
    (hfresh : draws.Fresh store sessions.length) : result.1 = store ↔ made = [] := by
  constructor
  · intro hsame
    cases made with
    | nil => rfl
    | cons summary made =>
      have hin := (h.stored hfresh summary.id summary).mpr (.inr ⟨List.mem_cons_self, rfl⟩)
      rw [hsame, (h.fresh hfresh).2 summary List.mem_cons_self] at hin
      cases hin
  · rintro rfl
    exact h.store

theorem Inserted.added (h : Inserted summarizer draws store [] sessions result made)
    (hfresh : draws.Fresh store sessions.length) {out : List EpisodicSummary}
    (hout : result.2 = .ok out) : Added summarizer sessions store result.1 out := by
  obtain ⟨heq, heach⟩ := h.ok out hout
  obtain rfl : out = made := heq
  obtain ⟨hdistinct, hnew⟩ := h.fresh hfresh
  exact ⟨heach, hdistinct, hnew, h.stored hfresh⟩

end Fresh

section

variable {memory : EpisodicMemory E} {observations : List Observation}

theorem ingest_added (hfresh : draws.Fresh memory.store (memory.detector.detect draws observations).length)
    {out : List EpisodicSummary} (hout : (memory.ingest draws observations).2 = .ok out) :
    Added memory.summarizer (memory.detector.detect draws observations) memory.store
      (memory.ingest draws observations).1.store out := by
  obtain ⟨made, hmade⟩ := inserted_summariseEach memory.summarizer draws
    (memory.detector.detect draws observations) memory.store []
  exact hmade.added hfresh hout

theorem failsAtOnce_of_ok {out : List EpisodicSummary} (hout : (memory.ingest draws observations).2 = .ok out) :
    memory.FailsAtOnce draws observations := by
  obtain ⟨made, hmade⟩ := inserted_summariseEach memory.summarizer draws
    (memory.detector.detect draws observations) memory.store []
  refine .inr ?_
  intro session hsession
  obtain ⟨summary, -, hsummary⟩ := Collect.exists_right (hmade.ok out hout).2 hsession
  exact ⟨summary.summaryText, hsummary.text⟩

theorem unchanged_iff_failsAtOnce (hfresh : draws.Fresh memory.store (memory.detector.detect draws observations).length) {e : E}
    (he : (memory.ingest draws observations).2 = .error e) :
    (memory.ingest draws observations).1.store = memory.store ↔
      memory.FailsAtOnce draws observations := by
  obtain ⟨made, hmade⟩ := inserted_summariseEach memory.summarizer draws
    (memory.detector.detect draws observations) memory.store []
  obtain ⟨done, failed, rest, hsplit, heach, hfailed⟩ := hmade.error e he
  refine (hmade.unchanged_iff hfresh).trans ?_
  unfold EpisodicMemory.FailsAtOnce
  dsimp only
  rw [hsplit]
  constructor
  · rintro rfl
    cases heach
    exact .inl ⟨failed, rfl, e, hfailed⟩
  · intro hcond
    cases heach with
    | nil => rfl
    | cons hfirst _ =>
      exfalso
      rcases hcond with ⟨session, hsession, e', herror⟩ | hall
      · obtain rfl := Option.some.inj hsession
        rw [hfirst.text] at herror
        cases herror
      · obtain ⟨text, htext⟩ := hall failed (by simp)
        rw [hfailed] at htext
        cases htext

end

/-- The sessions are always the runs of the batch, and an ingest adds a summary of each or nothing
just where the first session to be summarised fails or none does. -/
theorem ingest_all_or_nothing_iff (memory : EpisodicMemory E) (draws : Draws)
    (observations : List Observation)
    (hfresh : draws.Fresh memory.store (memory.detector.detect draws observations).length) :
    memory.AllOrNothing draws observations ↔ memory.FailsAtOnce draws observations := by
  constructor
  · intro h
    obtain ⟨-, -, herror⟩ := h
    cases hresult : (memory.ingest draws observations).2 with
    | ok out => exact failsAtOnce_of_ok hresult
    | error e => exact (unchanged_iff_failsAtOnce hfresh hresult).mp (herror e hresult).1
  · intro hcond
    refine ⟨detect_partition memory.detector draws observations, ?_, ?_⟩
    · intro out hout
      exact ingest_added hfresh hout
    · intro e he
      have hsame := (unchanged_iff_failsAtOnce hfresh he).mpr hcond
      refine ⟨hsame, ?_⟩
      intro again draws' out hfresh' hout
      rw [hsame] at hfresh' hout ⊢
      exact @ingest_added E draws' ⟨again, memory.detector, memory.store⟩ observations hfresh' out
        hout

end Claim

def sampleBatch : List Observation :=
  [⟨1, 7, 0, "draft the plan"⟩, ⟨2, 7, 60, "plan sent. TTYL"⟩, ⟨3, 7, 70, "hello"⟩,
    ⟨4, 8, 80, "open the issue"⟩, ⟨5, 8, 90, "issue closed"⟩]

def sampleDraws : Draws := ⟨fun n => BitVec.ofNat 128 (100+n), fun n => BitVec.ofNat 128 (200+n),
  fun n => 1000+n⟩

def failingOn (scope : ScopeId) : Summarizer Unit := fun session =>
  if session.scopeId = scope then .error () else .ok "a session"

def sampleDetector : SessionDetector := ⟨1800, ["/end", "ttyl"]⟩

def sampleMemory (scope : ScopeId) : EpisodicMemory Unit := ⟨failingOn scope, sampleDetector, ∅⟩

theorem sampleDraws_fresh (scope : ScopeId) : sampleDraws.Fresh (sampleMemory scope).store
    ((sampleMemory scope).detector.detect sampleDraws sampleBatch).length := by
  have hlength : (sampleDetector.detect sampleDraws sampleBatch).length = 3 := by decide +kernel
  rw [sampleMemory, hlength]
  exact ⟨by decide, fun _ _ => rfl⟩

theorem ingest_all_or_nothing_iff_sample :
    (sampleMemory 7).AllOrNothing sampleDraws sampleBatch ↔
      (sampleMemory 7).FailsAtOnce sampleDraws sampleBatch :=
  ingest_all_or_nothing_iff (sampleMemory 7) sampleDraws sampleBatch
    (sampleDraws_fresh 7)

theorem half_ingested_batch : ¬ (∀ (E : Type) (memory : EpisodicMemory E) (draws : Draws)
    (observations : List Observation), observations.Pairwise (·.occurredAt ≤ ·.occurredAt) →
    draws.Fresh memory.store (memory.detector.detect draws observations).length →
    memory.AllOrNothing draws observations) := by
  intro h
  have hclaim := h Unit (sampleMemory 8) sampleDraws sampleBatch (by decide)
    (sampleDraws_fresh 8)
  have hfails : ((sampleMemory 8).ingest sampleDraws sampleBatch).2 = .error () := by
    decide +kernel
  have hleft : ((sampleMemory 8).ingest sampleDraws sampleBatch).1.store.lookup 200 ≠ none := by
    decide +kernel
  rw [(hclaim.2.2 () hfails).1] at hleft
  exact hleft rfl

end Knowledge.Memory.Episodic
