import Knowledge.Memory.Policy
import Mathlib.Algebra.Group.Nat.Defs

/-!
`crates/agent_contract`: agent proposals with their schema checks, and the store that takes them
through review. Confidences are floats: their type and the tests the code makes on them stay
parameters, as does the version-5 UUID.
-/

set_option autoImplicit false

namespace Knowledge.Agent
open Knowledge.Memory (ScopeId SensitivityClass)
open Knowledge.Sync (Uuid)

def isWhitespace (c : Char) : Bool :=
  let n := c.toNat
  (9 ≤ n && n ≤ 13) || n = 0x20 || n = 0x85 || n = 0xa0 || n = 0x1680 ||
    (0x2000 ≤ n && n ≤ 0x200a) || n = 0x2028 || n = 0x2029 || n = 0x202f || n = 0x205f || n = 0x3000

def isBlank (s : String) : Bool := s.toList.all isWhitespace

structure AgentIdentity where
  agentId : Uuid
  name : String
  modelName : String
  modelVersion : String
  skillId : Option String
  recipeId : Option String

inductive ProposalKind where
  | observation
  | concept
  | relation
  | summary

structure ObservationProposal where
  claim : String
  observationType : String

structure ConceptProposal where
  label : String
  definition : String

structure RelationProposal where
  src : Uuid
  dst : Uuid
  relation : String

structure SummaryProposal where
  text : String
  summaryType : String

structure AgentProposal (C T : Type) where
  id : Uuid
  scopeId : ScopeId
  payload : T
  evidenceRefs : List Uuid
  confidence : C
  sensitivityClass : SensitivityClass
  ttl : Option Nat
  supersedes : Option Uuid
  contradicts : Option Uuid
  agentIdentity : AgentIdentity
  createdAt : Int

/-- What the code asks of an `f64` confidence. -/
structure Confidence (C : Type) where
  isNan : C → Bool
  inUnitRange : C → Bool
  lt : C → C → Bool

inductive ProposalValidationError where
  | confidenceOutOfRange
  | confidenceNaN
  | noEvidence
  | nilScope
  | nilAgentId
  | emptyAgentName
  | emptyModelName
  | emptyModelVersion
  | emptySkillId
  | emptyRecipeId
  | zeroTtl
  | emptyPayloadField (field : String)
  | selfRelation
  | nilRelationEndpoint
  deriving DecidableEq

def ObservationProposal.validate (p : ObservationProposal) :
    Except ProposalValidationError Unit :=
  if isBlank p.claim then .error (.emptyPayloadField "claim")
  else if isBlank p.observationType then .error (.emptyPayloadField "observation_type")
  else .ok ()

def ConceptProposal.validate (p : ConceptProposal) : Except ProposalValidationError Unit :=
  if isBlank p.label then .error (.emptyPayloadField "label")
  else if isBlank p.definition then .error (.emptyPayloadField "definition")
  else .ok ()

def RelationProposal.validate (p : RelationProposal) : Except ProposalValidationError Unit :=
  if p.src = 0 || p.dst = 0 then .error .nilRelationEndpoint
  else if p.src = p.dst then .error .selfRelation
  else if isBlank p.relation then .error (.emptyPayloadField "relation")
  else .ok ()

def SummaryProposal.validate (p : SummaryProposal) : Except ProposalValidationError Unit :=
  if isBlank p.text then .error (.emptyPayloadField "text")
  else if isBlank p.summaryType then .error (.emptyPayloadField "summary_type")
  else .ok ()

def validateProposal {C T : Type} (conf : Confidence C)
    (validate : T → Except ProposalValidationError Unit) (p : AgentProposal C T) :
    Except ProposalValidationError Unit :=
  if conf.isNan p.confidence then .error .confidenceNaN
  else if !conf.inUnitRange p.confidence then .error .confidenceOutOfRange
  else if p.evidenceRefs.isEmpty then .error .noEvidence
  else if p.scopeId = 0 then .error .nilScope
  else if p.agentIdentity.agentId = 0 then .error .nilAgentId
  else if isBlank p.agentIdentity.name then .error .emptyAgentName
  else if isBlank p.agentIdentity.modelName then .error .emptyModelName
  else if isBlank p.agentIdentity.modelVersion then .error .emptyModelVersion
  else if p.agentIdentity.skillId.any isBlank then .error .emptySkillId
  else if p.agentIdentity.recipeId.any isBlank then .error .emptyRecipeId
  else if p.ttl = some 0 then .error .zeroTtl
  else validate p.payload

inductive ProposalState where
  | proposed
  | underReview
  | promoted
  | rejected
  deriving DecidableEq

namespace ProposalState

def asStr : ProposalState → String
  | proposed => "proposed"
  | underReview => "under_review"
  | promoted => "promoted"
  | rejected => "rejected"

def isTerminal : ProposalState → Bool
  | promoted | rejected => true
  | _ => false

end ProposalState

structure AutoPromotionPolicy (C : Type) where
  minConfidence : C
  minCorroboration : Nat
  maxSensitivity : SensitivityClass
  requireHumanForCritical : Bool

namespace AutoPromotionPolicy

def rank : SensitivityClass → Nat
  | .noise => 0
  | .useful => 1
  | .important => 2
  | .critical => 3

def «matches» {C : Type} (conf : Confidence C) (policy : AutoPromotionPolicy C) (confidence : C)
    (corroborationCount : Nat) (sensitivity : SensitivityClass) : Bool :=
  !conf.lt confidence policy.minConfidence && policy.minCorroboration ≤ corroborationCount &&
    rank sensitivity ≤ rank policy.maxSensitivity &&
    !(policy.requireHumanForCritical && sensitivity = .critical)

end AutoPromotionPolicy

inductive ProposalDecision where
  | needsHumanReview
  | autoPromoted

inductive LifecycleError where
  | notFound (id : Uuid)
  | invalidTransition (id : Uuid) (source target : String)
  | validation (err : ProposalValidationError)
  | expired (id : Uuid)
  | duplicateProposal (id : Uuid)
  deriving DecidableEq

inductive AnyPayload where
  | observation (p : ObservationProposal)
  | concept (p : ConceptProposal)
  | relation (p : RelationProposal)
  | summary (p : SummaryProposal)

structure StoredProposal (C : Type) where
  id : Uuid
  state : ProposalState
  scopeId : ScopeId
  payload : AnyPayload
  evidenceRefs : List Uuid
  confidence : C
  sensitivityClass : SensitivityClass
  corroborationCount : Nat
  ttl : Option Nat
  supersedes : Option Uuid
  contradicts : Option Uuid
  agentIdentity : AgentIdentity
  submittedAt : Int
  updatedAt : Int
  rejectionReason : Option String

def StoredProposal.isExpired {C : Type} (p : StoredProposal C) (now : Int) : Bool :=
  match p.ttl with
  | none => false
  | some ttl => 0 ≤ now-p.submittedAt && (ttl : Int) ≤ now-p.submittedAt

def storedFromEnvelope {C T : Type} (p : AgentProposal C T) (wrap : T → AnyPayload) :
    StoredProposal C where
  id := p.id
  state := .proposed
  scopeId := p.scopeId
  payload := wrap p.payload
  evidenceRefs := p.evidenceRefs
  confidence := p.confidence
  sensitivityClass := p.sensitivityClass
  corroborationCount := 0
  ttl := p.ttl
  supersedes := p.supersedes
  contradicts := p.contradicts
  agentIdentity := p.agentIdentity
  submittedAt := p.createdAt
  updatedAt := p.createdAt
  rejectionReason := none

structure CanonicalObservation where
  id : Uuid
  scopeId : ScopeId
  proposalId : Uuid
  claim : String
  observationType : String
  sensitivityClass : SensitivityClass
  evidenceRefs : List Uuid
  deriving DecidableEq

structure CanonicalConcept where
  id : Uuid
  scopeId : ScopeId
  proposalId : Uuid
  label : String
  definition : String
  sensitivityClass : SensitivityClass
  deriving DecidableEq

structure CanonicalRelation where
  id : Uuid
  scopeId : ScopeId
  proposalId : Uuid
  src : Uuid
  dst : Uuid
  relation : String
  deriving DecidableEq

structure CanonicalSummary where
  id : Uuid
  scopeId : ScopeId
  proposalId : Uuid
  text : String
  summaryType : String
  sensitivityClass : SensitivityClass
  deriving DecidableEq

inductive CanonicalArtifact where
  | observation (o : CanonicalObservation)
  | concept (c : CanonicalConcept)
  | relation (r : CanonicalRelation)
  | summary (s : CanonicalSummary)
  deriving DecidableEq

def canonicalNamespace : ProposalKind → Uuid
  | .observation => 0x6f6273657276356e8000000000000001
  | .concept => 0x636f6e63657035748000000000000002
  | .relation => 0x72656c6174696f6e8000000000000003
  | .summary => 0x73756d6d617235798000000000000004

abbrev ProposalStore (C : Type) := Table Uuid (StoredProposal C)

namespace ProposalStore

variable {C : Type}

/-- The four `submit_*` methods, each with its own check and wrapper of the payload. -/
def submit {T : Type} (conf : Confidence C) (validate : T → Except ProposalValidationError Unit)
    (wrap : T → AnyPayload) (s : ProposalStore C) (p : AgentProposal C T) :
    ProposalStore C × Except LifecycleError Uuid :=
  match validateProposal conf validate p with
  | .error err => (s, .error (.validation err))
  | .ok () =>
    if (s.lookup p.id).isSome then (s, .error (.duplicateProposal p.id))
    else (s.insert p.id (storedFromEnvelope p wrap), .ok p.id)

section

variable (conf : Confidence C) (s : ProposalStore C)

def submitObservation (p : AgentProposal C ObservationProposal) : ProposalStore C × Except LifecycleError Uuid :=
  submit conf ObservationProposal.validate .observation s p

def submitConcept (p : AgentProposal C ConceptProposal) : ProposalStore C × Except LifecycleError Uuid :=
  submit conf ConceptProposal.validate .concept s p

def submitRelation (p : AgentProposal C RelationProposal) : ProposalStore C × Except LifecycleError Uuid :=
  submit conf RelationProposal.validate .relation s p

def submitSummary (p : AgentProposal C SummaryProposal) : ProposalStore C × Except LifecycleError Uuid :=
  submit conf SummaryProposal.validate .summary s p

end

def withProposal {R : Type} (s : ProposalStore C) (id : Uuid)
    (f : StoredProposal C → StoredProposal C × Except LifecycleError R) :
    ProposalStore C × Except LifecycleError R :=
  match s.lookup id with
  | none => (s, .error (.notFound id))
  | some p => (s.insert id (f p).1, (f p).2)

def expire (p : StoredProposal C) (now : Int) : StoredProposal C :=
  { p with state := .rejected, updatedAt := now, rejectionReason := some "ttl_expired" }

def recordCorroboration (s : ProposalStore C) (id : Uuid) (now : Int) :
    ProposalStore C × Except LifecycleError Unit :=
  s.withProposal id fun p =>
    if p.state.isTerminal then (p, .error (.invalidTransition id p.state.asStr "corroborated"))
    else if p.isExpired now then (expire p now, .error (.expired id))
    else
      let corroborationCount := min (p.corroborationCount+1) (2^32-1)
      ({ p with corroborationCount, updatedAt := now }, .ok ())

def review (conf : Confidence C) (s : ProposalStore C) (id : Uuid)
    (policy : AutoPromotionPolicy C) (now : Int) :
    ProposalStore C × Except LifecycleError ProposalDecision :=
  s.withProposal id fun p =>
    if p.state.isTerminal then
      (p, .error (.invalidTransition id p.state.asStr ProposalState.underReview.asStr))
    else if p.isExpired now then (expire p now, .error (.expired id))
    else if p.state ≠ .proposed then
      (p, .error (.invalidTransition id p.state.asStr ProposalState.underReview.asStr))
    else
      let p := { p with state := .underReview, updatedAt := now }
      if policy.matches conf p.confidence p.corroborationCount p.sensitivityClass then
        ({ p with state := .promoted, updatedAt := now }, .ok .autoPromoted)
      else (p, .ok .needsHumanReview)

/-- Unlike its siblings this method never looks at the time to live. -/
def promote (s : ProposalStore C) (id : Uuid) (now : Int) :
    ProposalStore C × Except LifecycleError Unit :=
  s.withProposal id fun p =>
    if p.state ≠ .underReview then
      (p, .error (.invalidTransition id p.state.asStr ProposalState.promoted.asStr))
    else ({ p with state := .promoted, updatedAt := now }, .ok ())

def reject (s : ProposalStore C) (id : Uuid) (reason : String) (now : Int) :
    ProposalStore C × Except LifecycleError Unit :=
  s.withProposal id fun p =>
    if p.state.isTerminal then
      (p, .error (.invalidTransition id p.state.asStr ProposalState.rejected.asStr))
    else
      ({ p with state := .rejected, updatedAt := now, rejectionReason := some reason }, .ok ())

def canonicalArtifact (newV5 : Uuid → Uuid → Uuid) (p : StoredProposal C) : CanonicalArtifact :=
  match p.payload with
  | .observation o => .observation
    { id := newV5 (canonicalNamespace .observation) p.id
      scopeId := p.scopeId
      proposalId := p.id
      claim := o.claim
      observationType := o.observationType
      sensitivityClass := p.sensitivityClass
      evidenceRefs := p.evidenceRefs }
  | .concept c => .concept
    { id := newV5 (canonicalNamespace .concept) p.id
      scopeId := p.scopeId
      proposalId := p.id
      label := c.label
      definition := c.definition
      sensitivityClass := p.sensitivityClass }
  | .relation r => .relation
    { id := newV5 (canonicalNamespace .relation) p.id
      scopeId := p.scopeId
      proposalId := p.id
      src := r.src
      dst := r.dst
      relation := r.relation }
  | .summary m => .summary
    { id := newV5 (canonicalNamespace .summary) p.id
      scopeId := p.scopeId
      proposalId := p.id
      text := m.text
      summaryType := m.summaryType
      sensitivityClass := p.sensitivityClass }

def promoteToCanonical (newV5 : Uuid → Uuid → Uuid) (s : ProposalStore C) (id : Uuid) :
    Except LifecycleError CanonicalArtifact :=
  match s.lookup id with
  | none => .error (.notFound id)
  | some p =>
    if p.state ≠ .promoted then .error (.invalidTransition id p.state.asStr "canonical")
    else .ok (canonicalArtifact newV5 p)

end ProposalStore

end Knowledge.Agent
