import Knowledge.Lib.Capped
import Knowledge.Memory.Policy

/-!
`crates/export_plane`: approved concepts, export constraints, and the policy engine of
`policy.rs`. Instants are integers and durations naturals on one nanosecond axis; an evaluation
reads the clock once.
-/

set_option autoImplicit false

namespace Knowledge.Export
open Knowledge.Sync (Uuid)
open Knowledge.Memory (ScopeId SensitivityClass)
open Knowledge.Capped

abbrev DateTime := Int

abbrev Duration := Nat

inductive AgentKind where
  | human
  | software
  deriving DecidableEq

structure SynthesisActivity where
  agentIdentity : String
  modelVersion : String
  promptId : String
  runId : Uuid
  deriving DecidableEq

structure ProvenanceAgent where
  kind : AgentKind
  identity : String
  deriving DecidableEq

structure ProvenanceBundle where
  entityId : Uuid
  activity : SynthesisActivity
  agent : ProvenanceAgent
  derivations : List Uuid
  createdAt : DateTime
  deriving DecidableEq

structure ApprovedConcept where
  conceptId : Uuid
  label : String
  definition : String
  scopeId : ScopeId
  provenance : ProvenanceBundle
  sensitivityClass : SensitivityClass
  approvedAt : DateTime
  expiresAt : Option DateTime
  deriving DecidableEq

def ApprovedConcept.isExpired (c : ApprovedConcept) (now : DateTime) : Bool :=
  c.expiresAt.any fun t => t ≤ now

inductive ExportConstraint where
  | maxConcepts (n : Nat)
  | maxAge (d : Duration)
  | scopeRestriction (scopes : List Uuid)
  | sensitivityCeiling (cls : SensitivityClass)

inductive ExportRejectionReason where
  | sensitivityExceeded (sensitivity ceiling : SensitivityClass)
  | scopeNotWhitelisted (scopeId : Uuid)
  | missingProvenance
  | expired
  | outsideTimeWindow
  | maxConceptsReached

structure ExportRejection where
  conceptId : Uuid
  reason : ExportRejectionReason

structure ExportDecision where
  approved : List ApprovedConcept
  rejected : List ExportRejection
  warnings : List String
  allowRawEvidence : Bool

structure ExportPolicy where
  allowRawEvidence : Bool
  maxConcepts : Nat
  maxSummaries : Nat
  sensitivityCeiling : SensitivityClass
  scopeWhitelist : Option (List Uuid)
  timeWindow : Option Duration
  requireProvenance : Bool

def rank : SensitivityClass → Nat
  | .noise => 0
  | .useful => 1
  | .important => 2
  | .critical => 3

def isProvenancePopulated (bundle : ProvenanceBundle) : Bool :=
  bundle.entityId != 0 && bundle.activity.agentIdentity != "" &&
    bundle.activity.modelVersion != ""

def approvedWithin (approvedAt : DateTime) (window : Duration) (now : DateTime) : Bool :=
  let elapsed := now - approvedAt
  -- an approval in the future counts as inside the window
  if elapsed < 0 then true else elapsed.toNat ≤ window

namespace ExportPolicy

def default : ExportPolicy where
  allowRawEvidence := false
  maxConcepts := 100
  maxSummaries := 25
  sensitivityCeiling := .useful
  scopeWhitelist := none
  timeWindow := none
  requireProvenance := true

def fold (policy : ExportPolicy) : ExportConstraint → ExportPolicy
  | .maxConcepts n => { policy with maxConcepts := min policy.maxConcepts n }
  | .maxAge d =>
    { policy with
      timeWindow := some (match policy.timeWindow with
        | some existing => min existing d
        | none => d) }
  | .scopeRestriction scopes =>
    { policy with
      scopeWhitelist := some (match policy.scopeWhitelist with
        | some existing => existing.filter fun s => scopes.contains s
        | none => scopes) }
  | .sensitivityCeiling cls =>
    if rank cls < rank policy.sensitivityCeiling then { policy with sensitivityCeiling := cls }
    else policy

def withConstraints (policy : ExportPolicy) (constraints : List ExportConstraint) :
    ExportPolicy :=
  constraints.foldl fold policy

def refusal (policy : ExportPolicy) (now : DateTime) (c : ApprovedConcept) :
    Option ExportRejectionReason :=
  if c.isExpired now then some .expired
  else if rank policy.sensitivityCeiling < rank c.sensitivityClass then
    some (.sensitivityExceeded c.sensitivityClass policy.sensitivityCeiling)
  else if policy.scopeWhitelist.any fun whitelist => !whitelist.contains c.scopeId then
    some (.scopeNotWhitelisted c.scopeId)
  else if policy.requireProvenance && !isProvenancePopulated c.provenance then
    some .missingProvenance
  else if policy.timeWindow.any fun window => !approvedWithin c.approvedAt window now then
    some .outsideTimeWindow
  else none

def passes (policy : ExportPolicy) (now : DateTime) (c : ApprovedConcept) : Bool :=
  (policy.refusal now c).isNone

theorem passes_iff {policy : ExportPolicy} {now : DateTime} {c : ApprovedConcept} :
    policy.passes now c = true ↔ c.isExpired now = false ∧
      rank c.sensitivityClass ≤ rank policy.sensitivityCeiling ∧
      (∀ whitelist, policy.scopeWhitelist = some whitelist → c.scopeId ∈ whitelist) ∧
      (policy.requireProvenance = true → isProvenancePopulated c.provenance = true) ∧
      ∀ window, policy.timeWindow = some window →
        approvedWithin c.approvedAt window now = true := by
  unfold passes refusal
  cases policy.scopeWhitelist <;> cases policy.timeWindow <;>
    cases policy.requireProvenance <;> split_ifs <;> simp_all

theorem approvedWithin_mono {approvedAt now : DateTime} {window wider : Duration}
    (h : window ≤ wider) (hw : approvedWithin approvedAt window now = true) :
    approvedWithin approvedAt wider now = true := by
  simp only [approvedWithin] at hw ⊢
  split_ifs at hw ⊢
  · exact hw
  · simp only [decide_eq_true_eq] at hw ⊢
    exact Nat.le_trans hw h

theorem passes_of_fold {policy : ExportPolicy} {constraint : ExportConstraint} {now : DateTime}
    {c : ApprovedConcept} (h : (policy.fold constraint).passes now c = true) :
    policy.passes now c = true := by
  rw [passes_iff] at h ⊢
  obtain ⟨hfresh, hrank, hscope, hprov, hwindow⟩ := h
  cases constraint with
  | maxConcepts n => exact ⟨hfresh, hrank, hscope, hprov, hwindow⟩
  | maxAge d =>
    refine ⟨hfresh, hrank, hscope, hprov, fun window hw => ?_⟩
    have h := hwindow (min window d) (by simp [fold, hw])
    exact approvedWithin_mono (Nat.min_le_left window d) h
  | scopeRestriction scopes =>
    refine ⟨hfresh, hrank, fun whitelist hw => ?_, hprov, hwindow⟩
    have h := hscope (whitelist.filter fun s => scopes.contains s) (by simp [fold, hw])
    exact List.mem_of_mem_filter h
  | sensitivityCeiling cls =>
    simp only [fold] at hrank hscope hprov hwindow
    split_ifs at hrank hscope hprov hwindow with hlow
    · exact ⟨hfresh, by simp only at hrank; omega, hscope, hprov, hwindow⟩
    · exact ⟨hfresh, hrank, hscope, hprov, hwindow⟩

theorem allowRawEvidence_fold (policy : ExportPolicy) (constraint : ExportConstraint) :
    (policy.fold constraint).allowRawEvidence = policy.allowRawEvidence := by
  cases constraint <;> simp only [fold]
  split <;> simp

theorem passes_of_withConstraints {policy : ExportPolicy} {constraints : List ExportConstraint}
    {now : DateTime} {c : ApprovedConcept}
    (h : (policy.withConstraints constraints).passes now c = true) :
    policy.passes now c = true := by
  induction constraints generalizing policy with
  | nil => exact h
  | cons k ks ih => exact passes_of_fold (ih h)

@[simp] theorem allowRawEvidence_withConstraints (policy : ExportPolicy)
    (constraints : List ExportConstraint) :
    (policy.withConstraints constraints).allowRawEvidence = policy.allowRawEvidence := by
  induction constraints generalizing policy with
  | nil => rfl
  | cons k ks ih => exact (ih (policy.fold k)).trans (allowRawEvidence_fold policy k)

end ExportPolicy

namespace PolicyEngine

def consider (policy : ExportPolicy) (now : DateTime)
    (acc : List ApprovedConcept × List ExportRejection) (c : ApprovedConcept) :
    List ApprovedConcept × List ExportRejection :=
  match policy.refusal now c with
  | some reason => (acc.1, acc.2 ++ [⟨c.conceptId, reason⟩])
  | none =>
    if policy.maxConcepts ≤ acc.1.length then
      (acc.1, acc.2 ++ [⟨c.conceptId, .maxConceptsReached⟩])
    else (acc.1 ++ [c], acc.2)

def suppressedWarning : String :=
  "raw evidence requested but suppressed because the approved set contains a Critical concept"

def anyCritical (approved : List ApprovedConcept) : Bool :=
  approved.any fun c => c.sensitivityClass = .critical

def evaluate (policy : ExportPolicy) (now : DateTime) (candidates : List ApprovedConcept) :
    ExportDecision :=
  let (approved, rejected) := candidates.foldl (consider policy now) ([], [])
  let critical := anyCritical approved
  { approved
    rejected
    warnings := if policy.allowRawEvidence && critical then [suppressedWarning] else []
    allowRawEvidence := policy.allowRawEvidence && !critical }

theorem foldl_consider_approved (policy : ExportPolicy) (now : DateTime)
    (candidates approved : List ApprovedConcept) (rejected : List ExportRejection) :
    (candidates.foldl (consider policy now) (approved, rejected)).1 =
      approved ++ firstPassing (policy.passes now) (policy.maxConcepts - approved.length)
        candidates := by
  induction candidates generalizing approved rejected with
  | nil => simp [firstPassing]
  | cons c cs ih =>
    rw [List.foldl_cons]
    cases href : policy.refusal now c with
    | some reason =>
      have hpass : ¬policy.passes now c = true := by simp [ExportPolicy.passes, href]
      simp only [consider, href, ih, firstPassing, List.filter_cons_of_neg hpass]
    | none =>
      have hpass : policy.passes now c = true := by simp [ExportPolicy.passes, href]
      by_cases hcap : policy.maxConcepts ≤ approved.length
      · have hfull : policy.maxConcepts - approved.length = 0 := by omega
        simp [consider, href, hcap, ih, firstPassing, hfull]
      · have hroom : policy.maxConcepts - approved.length =
            policy.maxConcepts - (approved.length + 1) + 1 := by omega
        simp [consider, href, hcap, ih, firstPassing, hpass, hroom]

theorem evaluate_approved (policy : ExportPolicy) (now : DateTime)
    (candidates : List ApprovedConcept) :
    (evaluate policy now candidates).approved =
      firstPassing (policy.passes now) policy.maxConcepts candidates := by
  have h := foldl_consider_approved policy now candidates [] []
  simpa [evaluate] using h

theorem mem_approved_iff {policy : ExportPolicy} {now : DateTime}
    {candidates : List ApprovedConcept} {c : ApprovedConcept} :
    c ∈ (evaluate policy now candidates).approved ↔
      Within (policy.passes now) policy.maxConcepts candidates c := by
  rw [evaluate_approved, mem_firstPassing_iff]

theorem allowRawEvidence_iff {policy : ExportPolicy} {now : DateTime}
    {candidates : List ApprovedConcept} :
    (evaluate policy now candidates).allowRawEvidence = true ↔ policy.allowRawEvidence = true ∧
      ∀ c ∈ (evaluate policy now candidates).approved, c.sensitivityClass ≠ .critical := by
  simp [evaluate, anyCritical]

/-- A Critical candidate passes the checks before the cap is full. -/
def CriticalWithin (policy : ExportPolicy) (now : DateTime) (candidates : List ApprovedConcept) :
    Prop :=
  ∃ before c after, candidates = before ++ c :: after ∧ c.sensitivityClass = .critical ∧
    policy.passes now c = true ∧ before.countP (policy.passes now) < policy.maxConcepts

theorem allowRawEvidence_iff_not_criticalWithin {policy : ExportPolicy} {now : DateTime}
    {candidates : List ApprovedConcept} :
    (evaluate policy now candidates).allowRawEvidence = true ↔
      policy.allowRawEvidence = true ∧ ¬CriticalWithin policy now candidates := by
  rw [allowRawEvidence_iff]
  refine and_congr_right fun _ => ?_
  simp only [mem_approved_iff]
  constructor
  · rintro h ⟨before, c, after, hl, hc, hpass, hroom⟩
    exact h c ⟨before, after, hl, hpass, hroom⟩ hc
  · rintro h c ⟨before, after, hl, hpass, hroom⟩ hc
    exact h ⟨before, c, after, hl, hc, hpass, hroom⟩

end PolicyEngine

/-- What folding constraints into a policy promises: the stricter policy approves no concept that
the bare one does not, and lets no raw evidence out that the bare one holds back. -/
def Tightens (policy : ExportPolicy) (constraints : List ExportConstraint) (now : DateTime)
    (candidates : List ApprovedConcept) : Prop :=
  let bare := PolicyEngine.evaluate policy now candidates
  let tightened := PolicyEngine.evaluate (policy.withConstraints constraints) now candidates
  (∀ c ∈ tightened.approved, c ∈ bare.approved) ∧
    (tightened.allowRawEvidence = true → bare.allowRawEvidence = true)

instance (policy : ExportPolicy) (constraints : List ExportConstraint) (now : DateTime)
    (candidates : List ApprovedConcept) :
    Decidable (Tightens policy constraints now candidates) := by
  unfold Tightens
  infer_instance

/-- Folded constraints keep their promise exactly when no candidate gets a slot that they free, and
when they do not take out every Critical candidate that holds raw evidence back. -/
theorem constraints_tighten_iff (policy : ExportPolicy) (constraints : List ExportConstraint)
    (now : DateTime) (candidates : List ApprovedConcept) :
    let effective := policy.withConstraints constraints
    Tightens policy constraints now candidates ↔
      ¬Freed (policy.passes now) (effective.passes now) policy.maxConcepts effective.maxConcepts
          candidates ∧
        (policy.allowRawEvidence = true → PolicyEngine.CriticalWithin policy now candidates →
          PolicyEngine.CriticalWithin effective now candidates) := by
  intro effective
  have hstrict : ∀ c, effective.passes now c = true → policy.passes now c = true :=
    fun c => ExportPolicy.passes_of_withConstraints
  rw [Tightens, ← firstPassing_subset_iff hstrict, PolicyEngine.evaluate_approved,
    PolicyEngine.evaluate_approved]
  refine and_congr_right fun _ => ?_
  rw [PolicyEngine.allowRawEvidence_iff_not_criticalWithin,
    PolicyEngine.allowRawEvidence_iff_not_criticalWithin,
    ExportPolicy.allowRawEvidence_withConstraints]
  tauto

def handbook : ApprovedConcept where
  conceptId := 1
  label := "handbook"
  definition := "how to file a report"
  scopeId := 7
  provenance :=
    { entityId := 1
      activity := ⟨"agent", "model", "prompt", 3⟩
      agent := ⟨.software, "synthesis"⟩
      derivations := []
      createdAt := 0 }
  sensitivityClass := .useful
  approvedAt := 0
  expiresAt := none

def payroll : ApprovedConcept :=
  { handbook with conceptId := 2, label := "payroll", sensitivityClass := .critical }

/-- With room for one concept, a ceiling that drops the Critical one lets the next one in, and the
raw evidence with it. -/
theorem ceiling_frees_slot :
    ¬Tightens ⟨true, 1, 25, .critical, none, none, true⟩ [.sensitivityCeiling .useful] 0
      [payroll, handbook] := by
  decide +kernel

end Knowledge.Export
