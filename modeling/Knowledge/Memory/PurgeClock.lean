import Knowledge.Memory.Exemption

/-!
How long an object stays archived before `purge_archived` deletes it, over any run of reads,
transitions and sweeps. The purge measures from the last access, which no transition into
`Archived` writes; an object that was idle when it was archived is purged that much too early.
-/

set_option autoImplicit false

namespace Knowledge.Memory
open Knowledge.Transition
open Knowledge.Sync (Uuid)

inductive ObjectTransition where
  | reinforce
  | archiveCandidate
  | consolidate
  | canonicalize
  | supersede (supersededBy : Uuid)
  | deleteCanonical
  | archiveSuperseded
  | deleteArchived
  | archive
  | delete
  | resurrect

inductive MemoryCall (F : Type) where
  | recordRetrieval (k : Nat)
  | recordCorroboration (k : Nat)
  | transition (k : Nat) (t : ObjectTransition)
  | decaySweepWith (threshold : F) (supersededTtl : Int)
  | decaySweepWithPolicy (engine : PolicyEngine F) (tenantId : Option Uuid)
  | purgeArchived (config : PurgeConfig)

section

variable {F : Type}

def saturatingSucc (n : Nat) : Nat := min (n+1) u32Max

namespace MemoryObject

def recordRetrieval (obj : MemoryObject F) (now : Int) : MemoryObject F :=
  { obj with retrievalCount := saturatingSucc obj.retrievalCount, lastAccessedAt := now }

def recordCorroboration (obj : MemoryObject F) (now : Int) : MemoryObject F :=
  { obj with corroborationCount := saturatingSucc obj.corroborationCount, lastAccessedAt := now }

end MemoryObject

def MemoryStateMachine.deleteCanonical (obj : MemoryObject F) :
    Except MemoryError (MemoryObject F) :=
  expect obj [.canonical] .deleted

namespace ObjectTransition

open MemoryStateMachine in
def apply (now : Int) (obj : MemoryObject F) :
    ObjectTransition → Except MemoryError (MemoryObject F)
  | .reinforce => MemoryStateMachine.reinforce obj
  | .archiveCandidate => Memory.archiveCandidate obj
  | .consolidate => MemoryStateMachine.consolidate obj now
  | .canonicalize => MemoryStateMachine.canonicalize obj
  | .supersede supersededBy => MemoryStateMachine.supersede obj supersededBy now
  | .deleteCanonical => MemoryStateMachine.deleteCanonical obj
  | .archiveSuperseded => Memory.archiveSuperseded obj
  | .deleteArchived => MemoryStateMachine.deleteArchived obj
  | .archive => MemoryStateMachine.archive obj
  | .delete => MemoryStateMachine.delete obj
  | .resurrect => MemoryStateMachine.resurrect obj now

def archivesFrom : ObjectTransition → List MemoryState
  | .archiveCandidate => [.candidate]
  | .archiveSuperseded => [.superseded]
  | .archive => [.candidate, .reinforced, .consolidated, .canonical, .superseded]
  | _ => []

def taken (now : Int) (t : ObjectTransition) (obj : MemoryObject F) : MemoryObject F :=
  (t.apply now obj).toOption.getD obj

end ObjectTransition

namespace MemoryCall

def run (scoring : Scoring F) (now : Int) (objects : List (MemoryObject F)) :
    MemoryCall F → List (MemoryObject F)
  | .recordRetrieval k => objects.modify k fun obj => obj.recordRetrieval now
  | .recordCorroboration k => objects.modify k fun obj => obj.recordCorroboration now
  | .transition k t => objects.modify k (t.taken now)
  | .decaySweepWith threshold supersededTtl =>
    (Memory.decaySweepWith scoring objects now threshold supersededTtl).1
  | .decaySweepWithPolicy engine tenantId =>
    (Memory.decaySweepWithPolicy scoring objects now engine tenantId).1
  | .purgeArchived config => (Memory.purgeArchived objects now config).1

def visit (scoring : Scoring F) (now : Int) (k : Nat) (obj : MemoryObject F) :
    MemoryCall F → MemoryObject F
  | .recordRetrieval k' => if k' = k then obj.recordRetrieval now else obj
  | .recordCorroboration k' => if k' = k then obj.recordCorroboration now else obj
  | .transition k' t => if k' = k then t.taken now obj else obj
  | .decaySweepWith threshold supersededTtl =>
    (decayPassively scoring now threshold supersededTtl obj {}).1
  | .decaySweepWithPolicy engine tenantId => Moment.decayed scoring ⟨engine, tenantId, now⟩ obj
  | .purgeArchived config => (purgeObject now config obj {}).1

def Archives (scoring : Scoring F) (now : Int) (k : Nat) (obj : MemoryObject F) :
    MemoryCall F → Prop
  | .transition k' t => k' = k ∧ obj.state ∈ t.archivesFrom
  | .decaySweepWith threshold supersededTtl =>
    DecaysPassively scoring now threshold supersededTtl obj
  | .decaySweepWithPolicy engine tenantId =>
    engine.evaluate scoring obj tenantId now (scoring.computeRetentionScore obj now) = .archive ∧
      obj.state ≠ .archived ∧ obj.state ≠ .deleted
  | _ => False

end MemoryCall

/-- An object, and when it entered `Archived` if that is where it is. -/
structure Watched (F : Type) where
  obj : MemoryObject F
  archivedSince : Option Int

def Watched.see (now : Int) (w : Watched F) (obj : MemoryObject F) : Watched F where
  obj := obj
  archivedSince :=
    if obj.state = .archived then
      if w.obj.state = .archived then w.archivedSince else some now
    else none

structure MemoryLog (F : Type) where
  clock : Int
  watched : List (Watched F)

inductive MemoryEvent (F : Type) where
  | newCandidate (now : Int) (obj : MemoryObject F)
  | call (now : Int) (call : MemoryCall F)

namespace MemoryLog

def objects (log : MemoryLog F) : List (MemoryObject F) := log.watched.map Watched.obj

def guard (log : MemoryLog F) : MemoryEvent F → Prop
  | .newCandidate now obj =>
    log.clock ≤ now ∧ obj.state = .candidate ∧ obj.createdAt = now ∧ obj.lastAccessedAt = now
  | .call now _ => log.clock ≤ now

def next (scoring : Scoring F) (log : MemoryLog F) : MemoryEvent F → MemoryLog F
  | .newCandidate now obj => ⟨now, log.watched ++ [⟨obj, none⟩]⟩
  | .call now call =>
    ⟨now, List.zipWith (Watched.see now) log.watched (call.run scoring now log.objects)⟩

/-- Runs over objects that were all made in them, at times that never go back. -/
def history (scoring : Scoring F) : System (MemoryLog F) (MemoryEvent F) :=
  .ofNext (fun log => log.watched = []) guard (next scoring)

def Fresh (scoring : Scoring F) (log : MemoryLog F) : MemoryEvent F → Prop
  | .newCandidate _ _ => True
  | .call now call => ∀ k : Nat, ∀ obj ∈ log.objects[k]?, call.Archives scoring now k obj →
    now ≤ obj.lastAccessedAt

def PurgesInTime (log : MemoryLog F) : Prop :=
  ∀ now config, log.clock ≤ now → ∀ k : Nat, ∀ w ∈ log.watched[k]?,
    ∀ after ∈ (purgeArchived log.objects now config).1[k]?,
      w.obj.state ≠ .deleted → after.state = .deleted →
        ∃ entered, w.archivedSince = some entered ∧ entered ≤ now - config.retention

end MemoryLog

theorem ObjectTransition.taken_spec (now : Int) (t : ObjectTransition) (obj : MemoryObject F) :
    (obj.state ∈ t.archivesFrom → obj.state ≠ .archived ∧ (t.taken now obj).state = .archived ∧
      (t.taken now obj).lastAccessedAt = obj.lastAccessedAt) ∧
    (obj.state ∉ t.archivesFrom → (t.taken now obj).state = .archived → obj.state = .archived) ∧
    ((t.taken now obj).lastAccessedAt = obj.lastAccessedAt ∨
      (t.taken now obj).lastAccessedAt = now) := by
  cases t <;> cases hs : obj.state <;>
    simp [taken, apply, archivesFrom, MemoryStateMachine.reinforce,
      Memory.archiveCandidate, MemoryStateMachine.consolidate,
      MemoryStateMachine.canonicalize, MemoryStateMachine.supersede,
      MemoryStateMachine.deleteCanonical, Memory.archiveSuperseded,
      MemoryStateMachine.deleteArchived, MemoryStateMachine.archive, MemoryStateMachine.delete,
      MemoryStateMachine.resurrect, MemoryStateMachine.expect, Except.map, Except.toOption, hs]

theorem lastAccessedAt_applyDecision (obj : MemoryObject F) (now : Int)
    (report : DecaySweepReport) (d : PolicyDecision) :
    (applyDecision obj now report d).1.lastAccessedAt =
      if d = .resurrect ∧ obj.state = .archived then now else obj.lastAccessedAt := by
  cases hs : obj.state <;> cases d <;>
    simp [applyDecision, attempt, MemoryStateMachine.archive,
      MemoryStateMachine.delete, MemoryStateMachine.resurrect, MemoryStateMachine.reinforce,
      MemoryStateMachine.consolidate, MemoryStateMachine.canonicalize, MemoryStateMachine.expect,
      Except.map, hs]

theorem getElem?_purgeArchived (now : Int) (objects : List (MemoryObject F))
    (config : PurgeConfig) (k : Nat) : (purgeArchived objects now config).1[k]? =
      (objects[k]?).map fun obj => (purgeObject now config obj {}).1 := by
  have hobjects : (purgeArchived objects now config).1 =
      objects.map fun obj => (purgeObject now config obj {}).1 := by
    apply sweepLoop_fst
    intro obj report
    rw [SweepCall.purgeObject_fst, SweepCall.purgeObject_fst]
  rw [hobjects, List.getElem?_map]

namespace MemoryCall

/-- What a visit may do: it archives an object and leaves its last access alone, or it archives
nothing and may write the last access. -/
inductive Visited (now : Int) (archives : Prop) (obj after : MemoryObject F) : Prop where
  | archived : archives → obj.state ≠ .archived → after.state = .archived →
      after.lastAccessedAt = obj.lastAccessedAt → Visited now archives obj after
  | other : ¬archives → (after.state = .archived → obj.state = .archived) →
      (after.lastAccessedAt = obj.lastAccessedAt ∨ after.lastAccessedAt = now) →
      Visited now archives obj after

theorem visited (scoring : Scoring F) (now : Int) (k : Nat) (obj : MemoryObject F)
    (call : MemoryCall F) : Visited now (call.Archives scoring now k obj) obj
      (call.visit scoring now k obj) := by
  cases call with
  | recordRetrieval k' =>
    by_cases hk : k' = k
    · exact .other id (by simp [visit, hk, MemoryObject.recordRetrieval])
        (by simp [visit, hk, MemoryObject.recordRetrieval])
    · exact .other id (by simp [visit, hk]) (by simp [visit, hk])
  | recordCorroboration k' =>
    by_cases hk : k' = k
    · exact .other id (by simp [visit, hk, MemoryObject.recordCorroboration])
        (by simp [visit, hk, MemoryObject.recordCorroboration])
    · exact .other id (by simp [visit, hk]) (by simp [visit, hk])
  | transition k' t =>
    by_cases hk : k' = k
    · obtain ⟨harchives, hother, hclock⟩ := t.taken_spec now obj
      simp only [visit, Archives, hk, true_and, if_true]
      by_cases hfrom : obj.state ∈ t.archivesFrom
      · obtain ⟨hactive, hdown, hkept⟩ := harchives hfrom
        exact .archived hfrom hactive hdown hkept
      · exact .other hfrom (hother hfrom) hclock
    · exact .other (fun h => hk h.1) (by simp [visit, hk]) (by simp [visit, hk])
  | decaySweepWith threshold ttl =>
    simp only [visit, Archives, decayPassively_fst]
    by_cases h : DecaysPassively scoring now threshold ttl obj
    · refine .archived h (fun hs => ?_) (by simp [h]) rfl
      rcases h.2 with ⟨hstate, -⟩ | ⟨hstate, -⟩ <;> simp [hstate] at hs
    · exact .other h (by simp [h]) (.inl rfl)
  | decaySweepWithPolicy engine tenantId =>
    have hdecision : engine.evaluate scoring obj tenantId now
        (scoring.computeRetentionScore obj now) =
          Moment.decision scoring ⟨engine, tenantId, now⟩ obj := rfl
    simp only [visit, Archives, hdecision, Moment.decayed_eq]
    generalize Moment.decision scoring ⟨engine, tenantId, now⟩ obj = d
    have hstate := state_applyDecision
      { obj with retentionScore := scoring.computeRetentionScore obj now } now { scored := 1 } d
    have hclock := lastAccessedAt_applyDecision
      { obj with retentionScore := scoring.computeRetentionScore obj now } now { scored := 1 } d
    by_cases h : d = .archive ∧ obj.state ≠ .archived ∧ obj.state ≠ .deleted
    · obtain ⟨rfl, harchived, hdeleted⟩ := h
      exact .archived ⟨rfl, harchived, hdeleted⟩ harchived
        (by rw [hstate]; simp [PolicyDecision.target, hdeleted]) (by rw [hclock]; simp)
    · refine .other h (fun hdown => ?_) ?_
      · rw [hstate] at hdown
        revert h hdown
        cases d <;> cases obj.state <;> simp [PolicyDecision.target]
      · rw [hclock]
        split
        · exact .inr rfl
        · exact .inl rfl
  | purgeArchived config =>
    simp only [visit, Archives, SweepCall.purgeObject_fst]
    split
    · exact .other id (by simp) (.inl rfl)
    · exact .other id id (.inl rfl)

theorem getElem?_run (scoring : Scoring F) (now : Int) (objects : List (MemoryObject F))
    (call : MemoryCall F) (k : Nat) :
    (call.run scoring now objects)[k]? =
      (objects[k]?).map fun obj => call.visit scoring now k obj := by
  cases call with
  | recordRetrieval k' | recordCorroboration k' | transition k' t =>
    simp only [run, visit, List.getElem?_modify]
    split
    · simp_all
    · simp_all
  | decaySweepWith threshold ttl =>
    rw [run, decaySweepWith_objects, List.getElem?_map]
    rfl
  | decaySweepWithPolicy engine tenantId =>
    rw [run, Moment.decaySweep_objects scoring ⟨engine, tenantId, now⟩, List.getElem?_map]
    rfl
  | purgeArchived config =>
    exact getElem?_purgeArchived now objects config k

end MemoryCall

namespace MemoryLog

variable {scoring : Scoring F} {log : MemoryLog F}

theorem getElem?_objects (log : MemoryLog F) (k : Nat) :
    log.objects[k]? = (log.watched[k]?).map Watched.obj := by
  rw [objects, List.getElem?_map]

theorem getElem?_next (scoring : Scoring F) (log : MemoryLog F) (now : Int) (call : MemoryCall F)
    (k : Nat) : (log.next scoring (.call now call)).watched[k]? =
      (log.watched[k]?).map fun w => w.see now (call.visit scoring now k w.obj) := by
  simp only [next, List.getElem?_zipWith, MemoryCall.getElem?_run, getElem?_objects]
  cases log.watched[k]? <;> rfl

/-- No archived object was accessed last before it was archived. -/
def Stamped (log : MemoryLog F) : Prop :=
  ∀ w ∈ log.watched, w.obj.state = .archived →
    ∃ entered, w.archivedSince = some entered ∧ entered ≤ w.obj.lastAccessedAt

/-- What was archived before now has its entry behind it. -/
def Past (log : MemoryLog F) : Prop :=
  ∀ w ∈ log.watched, ∀ entered ∈ w.archivedSince, entered ≤ log.clock

theorem purgesInTime_iff : log.PurgesInTime ↔ log.Stamped := by
  constructor
  · intro h w hw hstate
    obtain ⟨k, hk⟩ := List.getElem?_of_mem hw
    obtain ⟨now, hclock, haccess⟩ : ∃ now, log.clock ≤ now ∧ w.obj.lastAccessedAt ≤ now :=
      ⟨max log.clock w.obj.lastAccessedAt, le_max_left _ _, le_max_right _ _⟩
    have hdue := h now ⟨now - w.obj.lastAccessedAt, true⟩ hclock k w hk
    rw [getElem?_purgeArchived, getElem?_objects, hk] at hdue
    have hretention : w.obj.lastAccessedAt + (now - w.obj.lastAccessedAt) ≤ now := by omega
    obtain ⟨entered, hsince, hle⟩ := hdue _ rfl (by simp [hstate])
      (by simp only [SweepCall.purgeObject_fst, hstate, hretention]; simp)
    have hle : entered ≤ now - (now - w.obj.lastAccessedAt) := hle
    exact ⟨entered, hsince, by omega⟩
  · intro h now config hclock k w hw after hafter hlive hdeleted
    rw [getElem?_purgeArchived, getElem?_objects, Option.mem_def.mp hw] at hafter
    obtain rfl : (purgeObject now config w.obj {}).1 = after := by simpa using hafter
    rw [SweepCall.purgeObject_fst] at hdeleted
    split at hdeleted
    · rename_i hdue
      obtain ⟨entered, hsince, hle⟩ := h w (List.mem_of_getElem? hw) hdue.1
      exact ⟨entered, hsince, by omega⟩
    · exact absurd hdeleted hlive

theorem past_next (h : log.Past) {event : MemoryEvent F} (hguard : log.guard event) :
    (log.next scoring event).Past := by
  cases event with
  | newCandidate now obj =>
    intro w hw entered hentered
    obtain hw | hw := List.mem_append.mp hw
    · exact (h w hw entered hentered).trans hguard.1
    · rw [List.mem_singleton.mp hw] at hentered
      cases hentered
  | call now call =>
    intro w hw entered hentered
    obtain ⟨k, hk⟩ := List.getElem?_of_mem hw
    rw [getElem?_next, Option.map_eq_some_iff] at hk
    obtain ⟨before, hbefore, rfl⟩ := hk
    have hpast := h before (List.mem_of_getElem? hbefore)
    simp only [Watched.see] at hentered
    split at hentered
    · split at hentered
      · exact (hpast entered hentered).trans hguard
      · exact (Option.some.inj hentered).ge
    · cases hentered

theorem stamped_next (h : log.Stamped) (hpast : log.Past) {event : MemoryEvent F}
    (hguard : log.guard event) (hfresh : Fresh scoring log event) :
    (log.next scoring event).Stamped := by
  cases event with
  | newCandidate now obj =>
    intro w hw hstate
    obtain hw | hw := List.mem_append.mp hw
    · exact h w hw hstate
    · rw [List.mem_singleton.mp hw, hguard.2.1] at hstate
      cases hstate
  | call now call =>
    intro w hw hstate
    obtain ⟨k, hk⟩ := List.getElem?_of_mem hw
    rw [getElem?_next, Option.map_eq_some_iff] at hk
    obtain ⟨before, hbefore, rfl⟩ := hk
    have hmem := List.mem_of_getElem? hbefore
    have hvisited := call.visited scoring now k before.obj
    simp only [Watched.see] at hstate ⊢
    rw [if_pos hstate]
    cases hvisited with
    | archived harchives hactive hdown hclock =>
      have hobj : before.obj ∈ log.objects[k]? := by simp [getElem?_objects, hbefore]
      rw [if_neg hactive, hclock]
      exact ⟨now, rfl, hfresh k _ hobj harchives⟩
    | other hnone hdown hclock =>
      obtain ⟨entered, hsince, hle⟩ := h before hmem (hdown hstate)
      have hbehind := (hpast before hmem entered hsince).trans hguard
      refine ⟨entered, by rw [if_pos (hdown hstate), hsince], ?_⟩
      rcases hclock with hclock | hclock
      · rwa [hclock]
      · rwa [hclock]

theorem fresh_of_stamped_next {event : MemoryEvent F}
    (h : (log.next scoring event).Stamped) : Fresh scoring log event := by
  cases event with
  | newCandidate now obj => trivial
  | call now call =>
    intro k obj hobj harchives
    rw [getElem?_objects, Option.mem_def, Option.map_eq_some_iff] at hobj
    obtain ⟨before, hbefore, rfl⟩ := hobj
    have hvisited := call.visited scoring now k before.obj
    cases hvisited with
    | archived _ hactive hdown hclock =>
      have hnext := getElem?_next scoring log now call k
      rw [hbefore] at hnext
      obtain ⟨entered, hsince, hle⟩ := h _ (List.mem_of_getElem? hnext) hdown
      simp only [Watched.see] at hsince hle
      rw [if_pos hdown, if_neg hactive] at hsince
      rw [Option.some.inj hsince, ← hclock]
      exact hle
    | other hnone => exact absurd harchives hnone

theorem reachable_stamped (h : ((history scoring).restrict (Fresh scoring)).Reachable log) :
    log.Past ∧ log.Stamped := by
  refine h.invariant (fun log => log.Past ∧ log.Stamped) (fun log hinit => ?_) ?_
  · have hempty : log.watched = [] := hinit
    simp [Past, Stamped, hempty]
  · rintro log event _ - ⟨hpast, hstamped⟩ ⟨⟨hguard, rfl⟩, hfresh⟩
    exact ⟨past_next hpast hguard, stamped_next hstamped hpast hguard hfresh⟩

/-- In a run that archives nothing idle, every purge waits for the whole retention, and an event
keeps it so just in case it archives nothing idle either. -/
theorem purges_in_time_iff (h : ((history scoring).restrict (Fresh scoring)).Reachable log) :
    log.PurgesInTime ∧ ∀ event, log.guard event →
      (Fresh scoring log event ↔ (log.next scoring event).PurgesInTime) := by
  obtain ⟨hpast, hstamped⟩ := reachable_stamped h
  refine ⟨purgesInTime_iff.mpr hstamped, fun event hguard => ?_⟩
  rw [purgesInTime_iff]
  exact ⟨stamped_next hstamped hpast hguard, fresh_of_stamped_next⟩

end MemoryLog

end

section Examples

def freshArchival : List (MemoryEvent Nat) :=
  [.newCandidate 0 (oldObject .candidate 0 0), .call (days 400) (.recordRetrieval 0),
    .call (days 400) (.transition 0 .archive)]

def idleArchival : List (MemoryEvent Nat) :=
  [.newCandidate 0 (oldObject .candidate 0 0), .call (days 400) (.decaySweepWith 15 (days 90))]

def logOf (events : List (MemoryEvent Nat)) : MemoryLog Nat :=
  events.foldl (MemoryLog.next hundredths) ⟨0, []⟩

theorem legal_freshArchival : Legal (fun log event => MemoryLog.guard log event ∧
    MemoryLog.Fresh hundredths log event) (MemoryLog.next hundredths) ⟨0, []⟩ freshArchival := by
  refine ⟨⟨⟨by decide, rfl, rfl, rfl⟩, trivial⟩,
    ⟨by simp [MemoryLog.guard, MemoryLog.next, days], ?_⟩,
    ⟨by simp [MemoryLog.guard, MemoryLog.next], ?_⟩, trivial⟩
  · intro k obj hobj h
    exact h.elim
  · rintro k obj hobj ⟨rfl, -⟩
    obtain rfl := Option.some.inj hobj
    decide +kernel

theorem purges_in_time_freshArchival :
    (logOf freshArchival).PurgesInTime ∧ ∀ event, (logOf freshArchival).guard event →
      (MemoryLog.Fresh hundredths (logOf freshArchival) event ↔
        ((logOf freshArchival).next hundredths event).PurgesInTime) :=
  MemoryLog.purges_in_time_iff (legal_freshArchival.reachable_restrict (.init rfl))

/-- An object idle for 400 days is purged the moment it is archived, with a retention of a year. -/
theorem purged_when_archived :
    (MemoryLog.history hundredths).Reachable (logOf idleArchival) ∧
      ¬(logOf idleArchival).PurgesInTime := by
  constructor
  · have hlegal : Legal MemoryLog.guard (MemoryLog.next hundredths) ⟨0, []⟩ idleArchival :=
      ⟨⟨by decide, rfl, rfl, rfl⟩, by simp [MemoryLog.guard, MemoryLog.next, days], trivial⟩
    exact hlegal.reachable (.init rfl)
  · intro h
    obtain ⟨entered, hentered, hle⟩ := h (days 400) ⟨days 365, false⟩ le_rfl 0 _ rfl _ rfl
      (by decide +kernel) (by decide +kernel)
    have hnow : some entered = some (days 400) := hentered.symm.trans (by decide +kernel)
    rw [Option.some.inj hnow] at hle
    exact absurd hle (by decide)

end Examples

end Knowledge.Memory
