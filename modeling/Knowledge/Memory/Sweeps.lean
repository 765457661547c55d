import Knowledge.Memory.Policy

/-!
The sweeps over a batch of memory objects: `decay_sweep` without policies,
`decay_sweep_with_policy` and `purge_archived`.
-/

set_option autoImplicit false

namespace Knowledge.Memory
open Knowledge.Transition
open Knowledge.Sync (Uuid)

def u32Max : Nat := 4294967295

structure DecaySweepReport where
  scored : Nat := 0
  candidatesArchived : Nat := 0
  supersededArchived : Nat := 0
  archivedResurrected : Nat := 0
  promotedToReinforced : Nat := 0
  promotedToConsolidated : Nat := 0
  promotedToCanonical : Nat := 0
  deletedByPolicy : Nat := 0

def DecaySweepReport.archivedFrom (report : DecaySweepReport) :
    MemoryState → DecaySweepReport
  | .candidate => { report with candidatesArchived := report.candidatesArchived+1 }
  | .superseded => { report with supersededArchived := report.supersededArchived+1 }
  | _ => report

structure PurgeConfig where
  retention : Int
  purgePinned : Bool

structure PurgeReport where
  examined : Nat := 0
  purged : Nat := 0
  skippedPinned : Nat := 0
  skippedWithinTtl : Nat := 0

section

variable {F : Type}

/-- Take a transition that succeeds, and count it; leave the object as it is otherwise. -/
def attempt (obj : MemoryObject F) (report counted : DecaySweepReport) :
    Except MemoryError (MemoryObject F) → MemoryObject F × DecaySweepReport
  | .ok moved => (moved, counted)
  | .error _ => (obj, report)

open MemoryStateMachine in
def applyDecision (obj : MemoryObject F) (now : Int) (report : DecaySweepReport) :
    PolicyDecision → MemoryObject F × DecaySweepReport
  | .keep => (obj, report)
  | .archive => attempt obj report (report.archivedFrom obj.state) (archive obj)
  | .delete =>
    attempt obj report { report with deletedByPolicy := report.deletedByPolicy+1 } (delete obj)
  | .resurrect =>
    attempt obj report { report with archivedResurrected := report.archivedResurrected+1 }
      (resurrect obj now)
  | .promoteToReinforced =>
    if obj.state = .candidate then
      attempt obj report { report with promotedToReinforced := report.promotedToReinforced+1 }
        (reinforce obj)
    else (obj, report)
  | .promoteToConsolidated =>
    if obj.state = .reinforced then
      attempt obj report { report with promotedToConsolidated := report.promotedToConsolidated+1 }
        (consolidate obj now)
    else (obj, report)
  | .promoteToCanonical =>
    if obj.state = .consolidated then
      attempt obj report { report with promotedToCanonical := report.promotedToCanonical+1 }
        (canonicalize obj)
    else (obj, report)

def decayObject (scoring : Scoring F) (engine : PolicyEngine F) (tenantId : Option Uuid)
    (now : Int) (obj : MemoryObject F) (report : DecaySweepReport) :
    MemoryObject F × DecaySweepReport :=
  let score := scoring.computeRetentionScore obj now
  let obj := { obj with retentionScore := score }
  applyDecision obj now { report with scored := report.scored+1 }
    (engine.evaluate scoring obj tenantId now score)

def sweepLoop {R : Type} (f : MemoryObject F → R → MemoryObject F × R) :
    List (MemoryObject F) → R → List (MemoryObject F) × R
  | [], report => ([], report)
  | obj :: rest, report =>
    let first := f obj report
    let others := sweepLoop f rest first.2
    (first.1 :: others.1, others.2)

def decaySweepWithPolicy (scoring : Scoring F) (objects : List (MemoryObject F)) (now : Int)
    (engine : PolicyEngine F) (tenantId : Option Uuid) :
    List (MemoryObject F) × DecaySweepReport :=
  sweepLoop (decayObject scoring engine tenantId now) objects {}

def archiveCandidate (obj : MemoryObject F) : Except MemoryError (MemoryObject F) :=
  MemoryStateMachine.expect obj [.candidate] .archived

def archiveSuperseded (obj : MemoryObject F) : Except MemoryError (MemoryObject F) :=
  MemoryStateMachine.expect obj [.superseded] .archived

def decayPassively (scoring : Scoring F) (now : Int) (candidateArchiveThreshold : F)
    (supersededTtl : Int) (obj : MemoryObject F) (report : DecaySweepReport) :
    MemoryObject F × DecaySweepReport :=
  let score := scoring.computeRetentionScore obj now
  let obj := { obj with retentionScore := score }
  let report := { report with scored := report.scored+1 }
  let critical := obj.sensitivityClass = .critical
  if obj.state = .candidate ∧ ¬critical ∧ scoring.lt score candidateArchiveThreshold = true then
    attempt obj report { report with candidatesArchived := report.candidatesArchived+1 }
      (archiveCandidate obj)
  else if obj.state = .superseded ∧ ¬critical ∧ now-obj.lastAccessedAt ≥ supersededTtl then
    attempt obj report { report with supersededArchived := report.supersededArchived+1 }
      (archiveSuperseded obj)
  else (obj, report)

def decaySweep (scoring : Scoring F) (objects : List (MemoryObject F)) (now : Int) :
    List (MemoryObject F) × DecaySweepReport :=
  sweepLoop (decayPassively scoring now (scoring.literal 15) (days 90)) objects {}

def purgeObject (now : Int) (config : PurgeConfig) (obj : MemoryObject F)
    (report : PurgeReport) : MemoryObject F × PurgeReport :=
  if obj.state ≠ .archived then (obj, report)
  else
    let report := { report with examined := report.examined+1 }
    if 0 < obj.pinCount && !config.purgePinned then
      (obj, { report with skippedPinned := report.skippedPinned+1 })
    else if now - obj.lastAccessedAt < config.retention then
      (obj, { report with skippedWithinTtl := report.skippedWithinTtl+1 })
    else
      match MemoryStateMachine.deleteArchived obj with
      | .ok deleted => (deleted, { report with purged := report.purged+1 })
      | .error _ => (obj, report)

def purgeArchived (objects : List (MemoryObject F)) (now : Int) (config : PurgeConfig) :
    List (MemoryObject F) × PurgeReport :=
  sweepLoop (purgeObject now config) objects {}

theorem sweepLoop_fst {R : Type} {f : MemoryObject F → R → MemoryObject F × R}
    {g : MemoryObject F → MemoryObject F} (h : ∀ obj report, (f obj report).1 = g obj)
    (objects : List (MemoryObject F)) (report : R) :
    (sweepLoop f objects report).1 = objects.map g := by
  induction objects generalizing report with
  | nil => rfl
  | cons obj rest ih => simp only [sweepLoop, List.map_cons, h, ih]

theorem attempt_fst (obj : MemoryObject F) (report counted report' counted' : DecaySweepReport)
    (moved : Except MemoryError (MemoryObject F)) :
    (attempt obj report counted moved).1 = (attempt obj report' counted' moved).1 := by
  cases moved <;> rfl

theorem applyDecision_fst (obj : MemoryObject F) (now : Int) (report : DecaySweepReport)
    (decision : PolicyDecision) :
    (applyDecision obj now report decision).1 = (applyDecision obj now {} decision).1 := by
  cases decision with
  | keep => rfl
  | archive => exact attempt_fst ..
  | delete => exact attempt_fst ..
  | resurrect => exact attempt_fst ..
  | promoteToReinforced =>
    simp only [applyDecision]
    split
    · exact attempt_fst ..
    · rfl
  | promoteToConsolidated =>
    simp only [applyDecision]
    split
    · exact attempt_fst ..
    · rfl
  | promoteToCanonical =>
    simp only [applyDecision]
    split
    · exact attempt_fst ..
    · rfl

end

structure Moment (F : Type) where
  engine : PolicyEngine F
  tenantId : Option Uuid
  now : Int

namespace Moment

variable {F : Type}

section

variable (m : Moment F) (obj : MemoryObject F)

def policy : RetentionPolicy F :=
  m.engine.resolvePolicy obj.scopeId m.tenantId

def events (among : List String) : Bool :=
  (m.engine.scopeState.lookup obj.scopeId).any (·.anyEvent among)

def Held : Prop :=
  PolicyEngine.held (m.policy obj) (m.engine.scopeState.lookup obj.scopeId) m.now = true

/-- The explicit minimum retention lies ahead, and nothing demands the deletion. -/
def Retained : Prop :=
  (m.policy obj).inExplicitMinimumRetention m.now = true ∧
    m.events obj (m.policy obj).deleteOnEvents = false ∧
    (m.policy obj).pastMaximumRetention m.now = false

/-- The effective policy lets the object's lifetime retrievals resurrect it. -/
def Recalls : Prop :=
  (m.policy obj).allowResurrection = true ∧
    (m.policy obj).resurrectionRetrievalThreshold ≤ obj.retrievalCount

end

section

variable (scoring : Scoring F) (m : Moment F)

def decision (obj : MemoryObject F) : PolicyDecision :=
  m.engine.evaluate scoring obj m.tenantId m.now (scoring.computeRetentionScore obj m.now)

def decayed (obj : MemoryObject F) : MemoryObject F :=
  (decayObject scoring m.engine m.tenantId m.now obj {}).1

theorem decaySweep_objects (objects : List (MemoryObject F)) :
    (decaySweepWithPolicy scoring objects m.now m.engine m.tenantId).1 =
      objects.map (m.decayed scoring) := by
  apply sweepLoop_fst
  intro obj report
  simp only [decayed, decayObject]
  rw [applyDecision_fst]
  exact (applyDecision_fst ..).symm

theorem decayed_eq (obj : MemoryObject F) :
    m.decayed scoring obj =
      (applyDecision { obj with retentionScore := scoring.computeRetentionScore obj m.now } m.now
        { scored := 1 } (m.decision scoring obj)).1 := rfl

end

end Moment

end Knowledge.Memory
