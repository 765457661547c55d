import Mathlib.Algebra.Group.Nat.Defs
import Knowledge.Export.Policy

/-!
`crates/export_plane`: the control registry, portable concept profiles and the simulator that
previews an export; `substrate_server`: the endpoint that evaluates one. The simulator and the
engine under it read the same clock value. A `HashMap` is listed in its table's order.
-/

set_option autoImplicit false

namespace Knowledge.Export
open Knowledge.Sync (Uuid uuidText)
open Knowledge.Memory (ScopeId SensitivityClass)
open Knowledge.Capped

structure ConceptExportControl where
  conceptId : Uuid
  exportable : Bool
  allowedProfiles : List Uuid
  timeBound : Option Duration
  scopeBound : List Uuid
  createdAt : DateTime

namespace ConceptExportControl

def isActive (control : ConceptExportControl) (now : DateTime) : Bool :=
  if !control.exportable then false
  else
    match control.timeBound with
    | none => true
    | some bound =>
      let elapsed := now - control.createdAt
      if elapsed < 0 then true else elapsed.toNat < bound

def allowsProfile (control : ConceptExportControl) (profileId : Uuid) : Bool :=
  control.allowedProfiles.isEmpty || control.allowedProfiles.contains profileId

def allowsScope (control : ConceptExportControl) (scopeId : Uuid) : Bool :=
  control.scopeBound.isEmpty || control.scopeBound.contains scopeId

end ConceptExportControl

structure SummaryExportControl where
  summaryId : Uuid
  scopeId : ScopeId
  exportable : Bool

structure ExportControlRegistry where
  concepts : Table Uuid ConceptExportControl
  summaries : Table Uuid SummaryExportControl

namespace ExportControlRegistry

def allowsConcept (controls : ExportControlRegistry) (conceptId profileId scopeId : Uuid)
    (now : DateTime) : Bool :=
  match controls.concepts.lookup conceptId with
  | none => false
  | some control =>
    control.isActive now && control.allowsProfile profileId && control.allowsScope scopeId

/-- The summary controls that satisfy `keep`, ordered by their ids. -/
def sortedSummaries (controls : ExportControlRegistry) (keep : SummaryExportControl → Bool) :
    List SummaryExportControl :=
  ((controls.summaries.rows.map Prod.snd).filter keep).insertionSort fun a b =>
    a.summaryId.toNat ≤ b.summaryId.toNat

end ExportControlRegistry

structure PortableConceptProfile where
  id : Uuid
  name : String
  description : String
  targetTool : String
  concepts : List ApprovedConcept
  constraints : List ExportConstraint
  expiresAt : Option DateTime
  scopeId : ScopeId

def PortableConceptProfile.isExpired (profile : PortableConceptProfile) (now : DateTime) : Bool :=
  profile.expiresAt.any fun t => t ≤ now

structure SimulatedExclusion where
  entityId : Uuid
  reason : String

structure SimulationResult where
  includedConcepts : List Uuid
  excludedConcepts : List SimulatedExclusion
  includedSummaries : List Uuid
  excludedSummaries : List SimulatedExclusion
  wouldIncludeEvidence : Bool
  totalExportSizeEstimate : Nat
  warnings : List String

def debugClass : SensitivityClass → String
  | .critical => "Critical"
  | .important => "Important"
  | .useful => "Useful"
  | .noise => "Noise"

def rejectionReasonLabel : ExportRejectionReason → String
  | .sensitivityExceeded sensitivity ceiling =>
    "sensitivity " ++ debugClass sensitivity ++ " exceeds policy ceiling " ++ debugClass ceiling
  | .scopeNotWhitelisted scopeId => "scope " ++ uuidText scopeId ++ " not in policy whitelist"
  | .missingProvenance => "concept lacks provenance bundle"
  | .expired => "concept approval has expired"
  | .outsideTimeWindow => "concept older than policy time window"
  | .maxConceptsReached => "policy max_concepts cap reached"

def estimateSize (profile : PortableConceptProfile) (included : List Uuid) : Nat :=
  let base := profile.name.utf8ByteSize + profile.description.utf8ByteSize +
    profile.targetTool.utf8ByteSize
  profile.concepts.foldl (fun sum c =>
    if included.contains c.conceptId then
      sum + (c.label.utf8ByteSize + c.definition.utf8ByteSize) + 64
    else sum) base

namespace PolicySimulator

def unauthorised (c : ApprovedConcept) : SimulatedExclusion :=
  ⟨c.conceptId, "deny-by-default: concept not authorised by export control registry"⟩

def authorises (controls : ExportControlRegistry) (profile : PortableConceptProfile)
    (now : DateTime) (c : ApprovedConcept) : Bool :=
  controls.allowsConcept c.conceptId profile.id c.scopeId now

def expiredPreview (profile : PortableConceptProfile) : SimulationResult where
  includedConcepts := []
  excludedConcepts := profile.concepts.map fun c => ⟨c.conceptId, "profile expired"⟩
  includedSummaries := []
  excludedSummaries := []
  wouldIncludeEvidence := false
  totalExportSizeEstimate := 0
  warnings := ["profile expired — simulator returning empty preview"]

def cappedWarning (capped : Nat) : String :=
  "policy max_summaries cap reached: " ++ toString capped ++
    " summary/-ies dropped from preview"

def simulate (policy : ExportPolicy) (controls : ExportControlRegistry)
    (profile : PortableConceptProfile) (now : DateTime) : SimulationResult :=
  if profile.isExpired now then expiredPreview profile
  else
    let effective := policy.withConstraints profile.constraints
    let denied := profile.concepts.filter fun c => !authorises controls profile now c
    let policyCandidates := profile.concepts.filter (authorises controls profile now)
    let decision := PolicyEngine.evaluate effective now policyCandidates
    let included := decision.approved.map ApprovedConcept.conceptId
    let crossScope := controls.sortedSummaries fun s => s.scopeId != profile.scopeId
    let exportable := controls.sortedSummaries fun s => s.scopeId == profile.scopeId && s.exportable
    let blocked := controls.sortedSummaries fun s => s.scopeId == profile.scopeId && !s.exportable
    let dropped := exportable.drop effective.maxSummaries
    { includedConcepts := included
      excludedConcepts := denied.map unauthorised ++
        decision.rejected.map fun r => ⟨r.conceptId, rejectionReasonLabel r.reason⟩
      includedSummaries := (exportable.take effective.maxSummaries).map
        SummaryExportControl.summaryId
      excludedSummaries :=
        (crossScope.map fun s => ⟨s.summaryId, "summary scope does not match profile scope"⟩) ++
          (blocked.map fun s => ⟨s.summaryId, "summary control marked non-exportable"⟩) ++
          dropped.map fun s => ⟨s.summaryId, "policy max_summaries cap reached"⟩
      wouldIncludeEvidence := decision.allowRawEvidence
      totalExportSizeEstimate := estimateSize profile included
      warnings := decision.warnings ++
        if 0 < dropped.length then [cappedWarning dropped.length] else [] }

end PolicySimulator

open PolicySimulator

structure ExportEvaluateRequest where
  policy : Option ExportPolicy
  profile : PortableConceptProfile

def exportEvaluate (req : ExportEvaluateRequest) (now : DateTime) : ExportDecision :=
  let policy := (req.policy.getD ExportPolicy.default).withConstraints req.profile.constraints
  PolicyEngine.evaluate policy now req.profile.concepts

/-- The endpoint approves what the simulator predicts for the same policy, profile, registry and
time: nothing of an expired profile, and nothing the registry does not authorise. -/
def Agrees (policy : Option ExportPolicy) (controls : ExportControlRegistry)
    (profile : PortableConceptProfile) (now : DateTime) : Prop :=
  let approved := (exportEvaluate ⟨policy, profile⟩ now).approved
  let preview := PolicySimulator.simulate (policy.getD ExportPolicy.default) controls profile now
  approved.map ApprovedConcept.conceptId = preview.includedConcepts ∧
    (profile.isExpired now = true → approved = []) ∧
    ∀ c ∈ approved, controls.allowsConcept c.conceptId profile.id c.scopeId now = true

instance (policy : Option ExportPolicy) (controls : ExportControlRegistry)
    (profile : PortableConceptProfile) (now : DateTime) :
    Decidable (Agrees policy controls profile now) := by
  unfold Agrees
  infer_instance

theorem simulate_expired {policy : ExportPolicy} {controls : ExportControlRegistry}
    {profile : PortableConceptProfile} {now : DateTime} (h : profile.isExpired now = true) :
    (simulate policy controls profile now).includedConcepts = [] := by
  simp [simulate, h, expiredPreview]

theorem simulate_live {policy : ExportPolicy} {controls : ExportControlRegistry}
    {profile : PortableConceptProfile} {now : DateTime} (h : profile.isExpired now = false) :
    (simulate policy controls profile now).includedConcepts =
      (firstPassing ((policy.withConstraints profile.constraints).passes now)
        (policy.withConstraints profile.constraints).maxConcepts
        (profile.concepts.filter (authorises controls profile now))).map
        ApprovedConcept.conceptId := by
  simp [simulate, h, PolicyEngine.evaluate_approved]

/-- The endpoint and the simulator agree exactly when every concept that passes the effective
policy's checks before its cap is full is one of a live profile that the registry authorises. -/
theorem export_agrees_iff (policy : Option ExportPolicy) (controls : ExportControlRegistry)
    (profile : PortableConceptProfile) (now : DateTime) :
    let effective := (policy.getD ExportPolicy.default).withConstraints profile.constraints
    Agrees policy controls profile now ↔
      ∀ c, Within (effective.passes now) effective.maxConcepts profile.concepts c →
        profile.isExpired now = false ∧
          controls.allowsConcept c.conceptId profile.id c.scopeId now = true := by
  intro effective
  have hmem : ∀ c, c ∈ (exportEvaluate ⟨policy, profile⟩ now).approved ↔
      Within (effective.passes now) effective.maxConcepts profile.concepts c :=
    fun c => PolicyEngine.mem_approved_iff
  constructor
  · rintro ⟨-, hexpired, hauthorised⟩ c hc
    have hc := (hmem c).mpr hc
    refine ⟨?_, hauthorised c hc⟩
    by_contra hlive
    rw [hexpired (by simpa using hlive)] at hc
    simp at hc
  · intro h
    refine ⟨?_, fun hexpired => ?_, fun c hc => (h c ((hmem c).mp hc)).2⟩
    · cases hexpired : profile.isExpired now with
      | true =>
        rw [simulate_expired hexpired, List.map_eq_nil_iff, List.eq_nil_iff_forall_not_mem]
        intro c hc
        have hlive := (h c ((hmem c).mp hc)).1
        simp [hexpired] at hlive
      | false =>
        have hkeep : ∀ c, Within (effective.passes now) effective.maxConcepts profile.concepts c →
            authorises controls profile now c = true := fun c hc => (h c hc).2
        rw [simulate_live hexpired, firstPassing_filter hkeep]
        exact congrArg _ (PolicyEngine.evaluate_approved effective now profile.concepts)
    · rw [List.eq_nil_iff_forall_not_mem]
      intro c hc
      have hlive := (h c ((hmem c).mp hc)).1
      simp [hexpired] at hlive

def onboarding : PortableConceptProfile where
  id := 11
  name := "onboarding"
  description := "what a new hire needs"
  targetTool := "copilot"
  concepts := [handbook]
  constraints := []
  expiresAt := none
  scopeId := 7

/-- The endpoint approves a concept that no control row lists, and one of an expired profile. -/
theorem endpoint_skips_gates :
    ¬Agrees none ⟨∅, ∅⟩ onboarding 0 ∧
      ¬Agrees none ⟨AList.singleton 1 ⟨1, true, [], none, [], 0⟩, ∅⟩
        { onboarding with expiresAt := some 10 } 20 := by
  decide +kernel

end Knowledge.Export
