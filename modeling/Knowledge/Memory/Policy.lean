import Knowledge.Lib.Table
import Knowledge.Lib.Transition
import Knowledge.Sync.AddWinsSet

/-!
`crates/memory_manager`: memory objects with their state machine, retention policies, and the
engine that decides what a sweep does with an object. The retention score is a float: its type,
its comparisons and the score itself stay parameters.
-/

set_option autoImplicit false

namespace Knowledge.Memory
open Knowledge.Sync (Uuid)

abbrev ScopeId := Uuid

inductive MemoryState where
  | candidate
  | reinforced
  | consolidated
  | canonical
  | superseded
  | archived
  | deleted
  deriving DecidableEq

inductive SensitivityClass where
  | critical
  | important
  | useful
  | noise
  deriving DecidableEq

inductive MemoryError where
  | invalidTransition (source target : MemoryState)

structure MemoryObject (F : Type) where
  id : Uuid
  scopeId : ScopeId
  state : MemoryState
  sensitivityClass : SensitivityClass
  retentionScore : F
  createdAt : Int
  lastAccessedAt : Int
  consolidatedAt : Option Int
  retrievalCount : Nat
  pinCount : Nat
  corroborationCount : Nat
  supersededBy : Option Uuid
  contradicted : Bool
  deriving DecidableEq

/-- What the code uses of `f64`: the retention score of an object at an instant, the two
comparisons, and the literals it writes, in hundredths. -/
structure Scoring (F : Type) where
  computeRetentionScore : MemoryObject F → Int → F
  lt : F → F → Bool
  ge : F → F → Bool
  literal : Nat → F

namespace MemoryStateMachine

variable {F : Type}

section

variable (obj : MemoryObject F)

def expect (allowedFrom : List MemoryState) (target : MemoryState) :
    Except MemoryError (MemoryObject F) :=
  if obj.state ∈ allowedFrom then .ok { obj with state := target }
  else .error (.invalidTransition obj.state target)

def reinforce : Except MemoryError (MemoryObject F) :=
  expect obj [.candidate] .reinforced

def consolidate (now : Int) : Except MemoryError (MemoryObject F) :=
  (expect obj [.reinforced] .consolidated).map fun obj => { obj with consolidatedAt := some now }

def canonicalize : Except MemoryError (MemoryObject F) :=
  expect obj [.consolidated] .canonical

def supersede (supersededBy : Uuid) (now : Int) :
    Except MemoryError (MemoryObject F) :=
  (expect obj [.canonical] .superseded).map fun obj =>
    { obj with supersededBy := some supersededBy, lastAccessedAt := now }

def deleteArchived : Except MemoryError (MemoryObject F) :=
  expect obj [.archived] .deleted

def archive : Except MemoryError (MemoryObject F) :=
  expect obj [.candidate, .reinforced, .consolidated, .canonical, .superseded] .archived

def delete : Except MemoryError (MemoryObject F) :=
  expect obj [.candidate, .reinforced, .consolidated, .canonical, .superseded, .archived] .deleted

def resurrect (now : Int) : Except MemoryError (MemoryObject F) :=
  (expect obj [.archived] .reinforced).map fun obj =>
    { obj with supersededBy := none, lastAccessedAt := now }

end

end MemoryStateMachine

structure RetentionPolicy (F : Type) where
  policyId : Uuid
  candidateArchiveThreshold : F
  supersededArchiveAfter : Int
  canonicalMinRetention : Int
  archivedMaxRetention : Option Int
  promoteToReinforcedAfterRetrievals : Nat
  promoteToConsolidatedAfterSources : Nat
  promoteToCanonicalAfterStable : Option Int
  legalHold : Bool
  legalHoldUntil : Option Int
  minimumRetentionUntil : Option Int
  maximumRetentionUntil : Option Int
  allowResurrection : Bool
  resurrectionRetrievalThreshold : Nat
  archiveOnEvents : List String
  deleteOnEvents : List String
  preserveOnEvents : List String

def days (n : Int) : Int := n*86400

def holdActive (hold : Bool) (holdUntil : Option Int) (now : Int) : Bool :=
  hold && holdUntil.all (now < ·)

namespace RetentionPolicy

variable {F : Type}

def globalDefault (scoring : Scoring F) : RetentionPolicy F where
  policyId := 0x00010000000000000000000000000001
  candidateArchiveThreshold := scoring.literal 15
  supersededArchiveAfter := days 90
  canonicalMinRetention := days 365
  archivedMaxRetention := none
  promoteToReinforcedAfterRetrievals := 3
  promoteToConsolidatedAfterSources := 2
  promoteToCanonicalAfterStable := some (days 7)
  legalHold := false
  legalHoldUntil := none
  minimumRetentionUntil := none
  maximumRetentionUntil := none
  allowResurrection := true
  resurrectionRetrievalThreshold := 1
  archiveOnEvents := []
  deleteOnEvents := []
  preserveOnEvents := []

section

variable (policy : RetentionPolicy F)

def legalHoldActive (now : Int) : Bool :=
  holdActive policy.legalHold policy.legalHoldUntil now

def minimumRetentionUntilFor (createdAt : Int) : Int :=
  policy.minimumRetentionUntil.getD (createdAt + policy.canonicalMinRetention)

def inMinimumRetention (obj : MemoryObject F) (now : Int) : Bool :=
  now < policy.minimumRetentionUntilFor obj.createdAt

def inExplicitMinimumRetention (now : Int) : Bool :=
  policy.minimumRetentionUntil.any (now < ·)

def pastMaximumRetention (now : Int) : Bool :=
  policy.maximumRetentionUntil.any (· ≤ now)

end

end RetentionPolicy

structure ScopeRetentionState where
  scopeId : ScopeId
  policyId : Option Uuid
  legalHold : Bool
  legalHoldUntil : Option Int
  activeEvents : List String

namespace ScopeRetentionState

def default : ScopeRetentionState := ⟨0, none, false, none, []⟩

def legalHoldActive (state : ScopeRetentionState) (now : Int) : Bool :=
  holdActive state.legalHold state.legalHoldUntil now

def anyEvent (state : ScopeRetentionState) (events : List String) : Bool :=
  state.activeEvents.any (events.contains ·)

end ScopeRetentionState

inductive PolicyDecision where
  | keep
  | archive
  | delete
  | resurrect
  | promoteToReinforced
  | promoteToConsolidated
  | promoteToCanonical
  deriving DecidableEq

inductive PolicyError where
  | notRegistered (policyId : Uuid)

structure PolicyEngine (F : Type) where
  policies : Table Uuid (RetentionPolicy F)
  scopeState : Table ScopeId ScopeRetentionState
  tenantPolicies : Table Uuid Uuid
  globalDefault : RetentionPolicy F

namespace PolicyEngine

variable {F : Type}

def new (scoring : Scoring F) : PolicyEngine F :=
  let policy := RetentionPolicy.globalDefault scoring
  ⟨(∅ : Table Uuid (RetentionPolicy F)).insert policy.policyId policy, ∅, ∅, policy⟩

section

variable (engine : PolicyEngine F)

def registerPolicy (policy : RetentionPolicy F) : PolicyEngine F :=
  { engine with policies := engine.policies.insert policy.policyId policy }

def updateScope (scopeId : ScopeId)
    (f : ScopeRetentionState → ScopeRetentionState) : PolicyEngine F :=
  let state := (engine.scopeState.lookup scopeId).getD .default
  { engine with scopeState := engine.scopeState.insert scopeId (f { state with scopeId }) }

def setScopePolicy (scopeId : ScopeId) (policyId : Uuid) :
    Except PolicyError (PolicyEngine F) :=
  if (engine.policies.lookup policyId).isNone then
    .error (.notRegistered policyId)
  else .ok (engine.updateScope scopeId fun state => { state with policyId := some policyId })

def setLegalHold (scopeId : ScopeId) (hold : Bool) (holdUntil : Option Int) : PolicyEngine F :=
  engine.updateScope scopeId fun state =>
    { state with legalHold := hold, legalHoldUntil := holdUntil }

def scopePolicy (scopeId : ScopeId) : Option (RetentionPolicy F) := do
  let state ← engine.scopeState.lookup scopeId
  engine.policies.lookup (← state.policyId)

def tenantPolicy (tenantId : Option Uuid) :
    Option (RetentionPolicy F) := do
  engine.policies.lookup (← engine.tenantPolicies.lookup (← tenantId))

def resolvePolicy (scopeId : ScopeId) (tenantId : Option Uuid) :
    RetentionPolicy F :=
  match engine.scopePolicy scopeId, engine.tenantPolicy tenantId with
  | some policy, _ => policy
  | none, some policy => policy
  | none, none => engine.globalDefault

end

def held (policy : RetentionPolicy F) (state : Option ScopeRetentionState) (now : Int) : Bool :=
  policy.legalHoldActive now || state.any (·.legalHoldActive now) ||
    state.any (·.anyEvent policy.preserveOnEvents)

def promotion (scoring : Scoring F) (policy : RetentionPolicy F) (obj : MemoryObject F)
    (now : Int) (score : F) : Option PolicyDecision :=
  match obj.state with
  | .candidate =>
    if policy.promoteToReinforcedAfterRetrievals ≤ obj.retrievalCount &&
        scoring.ge score (scoring.literal 40) then some .promoteToReinforced
    else none
  | .reinforced =>
    if policy.promoteToConsolidatedAfterSources ≤ obj.corroborationCount then
      some .promoteToConsolidated
    else none
  | .consolidated =>
    match policy.promoteToCanonicalAfterStable with
    | some stable =>
      if obj.consolidatedAt.getD obj.createdAt + stable ≤ now then some .promoteToCanonical
      else none
    | none => none
  | _ => none

def archival (scoring : Scoring F) (policy : RetentionPolicy F) (obj : MemoryObject F)
    (now : Int) (score : F) : PolicyDecision :=
  match obj.state with
  | .candidate =>
    if policy.inMinimumRetention obj now then .keep
    else if scoring.lt score policy.candidateArchiveThreshold then .archive
    else .keep
  | .superseded =>
    if policy.inMinimumRetention obj now then .keep
    else if obj.lastAccessedAt + policy.supersededArchiveAfter ≤ now then .archive
    else .keep
  | .archived =>
    match policy.archivedMaxRetention with
    | some maxAge => if obj.createdAt + maxAge ≤ now then .delete else .keep
    | none => .keep
  | _ => .keep

def evaluate (scoring : Scoring F) (engine : PolicyEngine F) (obj : MemoryObject F)
    (tenantId : Option Uuid) (now : Int) (score : F) : PolicyDecision :=
  let policy := engine.resolvePolicy obj.scopeId tenantId
  let state := engine.scopeState.lookup obj.scopeId
  if held policy state now then .keep
  else if policy.pastMaximumRetention now then .delete
  else if state.any (·.anyEvent policy.deleteOnEvents) then .delete
  -- a closure event archives within the default retention, but not before an explicit minimum
  else if state.any (·.anyEvent policy.archiveOnEvents) &&
      !policy.inExplicitMinimumRetention now then .archive
  else if obj.state = .archived && policy.allowResurrection &&
      policy.resurrectionRetrievalThreshold ≤ obj.retrievalCount then .resurrect
  else (promotion scoring policy obj now score).getD (archival scoring policy obj now score)

end PolicyEngine

end Knowledge.Memory
