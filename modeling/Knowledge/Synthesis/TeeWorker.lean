import Knowledge.Lib.Concurrent
import Knowledge.Sync.AddWinsSet

/-!
`crates/synthesis_engine/src/tee_worker.rs` and `crates/crypto/src/attestation.rs`: the lifecycle
of the confidential worker, one locked step at a time. One cell is both the attestation that is
cached and the mark of the synthesis call that is running.
-/

set_option autoImplicit false

namespace Knowledge.Tee
open Knowledge.Concurrent
open Knowledge.Transition
open Knowledge.Sync (Uuid)

abbrev ContentHash := List UInt8

inductive TeePlatform where
  | intelTdx
  | amdSevSnp
  | nitroEnclaves
  | mock
  deriving DecidableEq

def TeePlatform.asStr : TeePlatform → String
  | intelTdx => "intel_tdx"
  | amdSevSnp => "amd_sev_snp"
  | nitroEnclaves => "nitro_enclaves"
  | mock => "mock"

structure AttestationReport where
  reportId : Uuid
  platform : TeePlatform
  measurement : ContentHash
  reportData : List UInt8
  signature : List UInt8
  createdAt : Int

structure AttestationBinding where
  bindingId : Uuid
  reportId : Uuid
  synthesizerKeyHash : ContentHash
  synthesizerPubKey : List UInt8
  platform : TeePlatform
  createdAt : Int

structure AttestationAuditEntry where
  entryId : Uuid
  reportId : Uuid
  bindingId : Option Uuid
  scopeId : Uuid
  platform : TeePlatform
  verified : Bool
  failureReason : Option String
  createdAt : Int

inductive CryptoError where
  | attestationUnsupported (platform : String)

def CryptoError.display : CryptoError → String
  | attestationUnsupported platform =>
    "attestation verification unsupported for TEE platform: " ++ platform

/-- `EngineError::Engine`, the only kind of error the worker itself makes. -/
structure EngineError where
  message : String

def verifyAttestation (report : AttestationReport) (expectedMeasurement : ContentHash) :
    Except CryptoError Bool :=
  match report.platform with
  | .mock => .ok (report.measurement == expectedMeasurement)
  | platform => .error (.attestationUnsupported platform.asStr)

structure TeeWorkerConfig where
  platform : TeePlatform
  expectedMeasurement : ContentHash
  synthesizerPubKey : List UInt8
  scopeBindings : List Uuid
  attestationTtl : Int

structure Attestation where
  report : AttestationReport
  binding : AttestationBinding
  attestedAt : Int

inductive Lifecycle where
  | unattested
  | attesting
  | attested (a : Attestation) (active : Bool)
  | idle (a : Attestation)

open Lifecycle

inductive TeeWorkerLifecycle where
  | unattested
  | attesting
  | attested
  | synthesizing
  | idle
  deriving DecidableEq

def Lifecycle.asPublic : Lifecycle → TeeWorkerLifecycle
  | unattested => .unattested
  | attesting => .attesting
  | attested _ true => .synthesizing
  | attested _ false => .attested
  | idle _ => .idle

def Lifecycle.cached : Lifecycle → Option Attestation
  | attested a _ | idle a => some a
  | _ => none

def Lifecycle.settleIdle : Lifecycle → Lifecycle
  | idle a => .attested a false
  | other => other

def Lifecycle.exitSynthesizing : Lifecycle → Lifecycle
  | attested a true => .idle a
  | other => other

structure TeeWorkerState where
  lifecycle : Lifecycle
  audit : List AttestationAuditEntry
  now : Int

def TeeWorkerState.new (now : Int) : TeeWorkerState := ⟨.unattested, [], now⟩

inductive Tier where
  | domain
  | tenant

/-- The quote the runtime will give, and the identifiers the call will draw. -/
structure Quote where
  report : AttestationReport
  bindingId : Uuid
  entryId : Uuid

inductive Call where
  | attest (quote : Quote)
  | synthesize (tier : Tier) (scope : Uuid)
  | settleIdle

/-- What an attest call brings to the lock: its audit entry, and what it attested or its error. -/
structure Verdict where
  entry : AttestationAuditEntry
  outcome : Except EngineError (AttestationReport × AttestationBinding)

inductive Answer where
  | report (r : AttestationReport)
  | synthesized
  | settled

/-- Where a call is. That a synthesis call runs under the attestation `a`, since the time
`since`, is not recorded anywhere in the source. -/
inductive Phase where
  | called
  | quoting
  | quoted (v : Verdict)
  | entered (a : Attestation) (since : Int)
  | returned (r : Except EngineError Answer)

section

variable (contentHash : List UInt8 → ContentHash) (config : TeeWorkerConfig)

def bindSynthesizerKey (report : AttestationReport) (synthesizerPubKey : List UInt8)
    (bindingId : Uuid) (now : Int) : AttestationBinding :=
  ⟨bindingId, report.reportId, contentHash synthesizerPubKey, synthesizerPubKey, report.platform,
    now⟩

def AttestationAuditEntry.success (entryId reportId bindingId scopeId : Uuid)
    (platform : TeePlatform) (now : Int) : AttestationAuditEntry :=
  ⟨entryId, reportId, some bindingId, scopeId, platform, true, none, now⟩

def AttestationAuditEntry.failure (entryId reportId scopeId : Uuid) (platform : TeePlatform)
    (reason : String) (now : Int) : AttestationAuditEntry :=
  ⟨entryId, reportId, none, scopeId, platform, false, some reason, now⟩

/-- The part of `attest_with_scope` between its two locked blocks. `attest` passes the nil
scope. -/
def verdict (quote : Quote) (now : Int) : Verdict :=
  let failed (reason message : String) : Verdict :=
    ⟨.failure quote.entryId quote.report.reportId 0 quote.report.platform reason now,
      .error ⟨message⟩⟩
  if quote.report.platform ≠ config.platform then
    failed "tee platform mismatch" "tee: platform mismatch"
  else
    match verifyAttestation quote.report config.expectedMeasurement with
    | .error e => failed "attestation verification error" ("tee: verify_attestation: " ++ e.display)
    | .ok false => failed "measurement mismatch" "tee: measurement mismatch"
    | .ok true =>
      let binding := bindSynthesizerKey contentHash quote.report config.synthesizerPubKey
        quote.bindingId now
      ⟨.success quote.entryId quote.report.reportId binding.bindingId 0 quote.report.platform now,
        .ok (quote.report, binding)⟩

def assertScopeAllowed (showUuid : Uuid → String) (scope : Uuid) : Except EngineError Unit :=
  if config.scopeBindings.isEmpty then
    .error ⟨"tee: no scope bindings configured; refusing to synthesise"⟩
  else if !config.scopeBindings.contains scope then
    .error ⟨"tee: scope " ++ showUuid scope ++ " not bound to this worker"⟩
  else .ok ()

/-- The locked part of `enter_synthesizing`. An attestation that has expired is dropped before
anyone asks whether a call is running under it. -/
def enterSynthesizing (lifecycle : Lifecycle) (now : Int) :
    Lifecycle × Except EngineError Attestation :=
  match lifecycle.settleIdle with
  | .attested a active =>
    if now-a.attestedAt > config.attestationTtl then
      (.unattested, .error ⟨"tee: attestation expired"⟩)
    else if active then
      (.attested a active, .error ⟨"tee: worker is already inside a synthesis call"⟩)
    else (.attested a true, .ok a)
  | other => (other, .error ⟨"tee: worker is not attested"⟩)

def step (showUuid : Uuid → String) (s : TeeWorkerState) :
    Call → Phase → TeeWorkerState × Phase
  | .attest _, .called =>
    match s.lifecycle with
    | .attested _ true =>
      (s, .returned (.error ⟨"tee: cannot attest while a synthesis call is in flight"⟩))
    | _ => ({ s with lifecycle := .attesting }, .quoting)
  | .attest quote, .quoting => (s, .quoted (verdict contentHash config quote s.now))
  | .attest _, .quoted v =>
    match v.outcome with
    | .error e =>
      ({ s with audit := s.audit ++ [v.entry], lifecycle := .unattested }, .returned (.error e))
    | .ok (report, binding) =>
      ({ s with
          audit := s.audit ++ [v.entry]
          lifecycle := .attested ⟨report, binding, s.now⟩ false }, .returned (.ok (.report report)))
  | .synthesize _ scope, .called =>
    match assertScopeAllowed config showUuid scope with
    | .error e => (s, .returned (.error e))
    | .ok _ =>
      match enterSynthesizing config s.lifecycle s.now with
      | (lifecycle, .error e) => ({ s with lifecycle }, .returned (.error e))
      | (lifecycle, .ok a) => ({ s with lifecycle }, .entered a s.now)
  | .synthesize _ _, .entered _ _ =>
    ({ s with lifecycle := s.lifecycle.exitSynthesizing }, .returned (.ok .synthesized))
  | .settleIdle, .called =>
    ({ s with lifecycle := s.lifecycle.settleIdle }, .returned (.ok .settled))
  | _, phase => (s, phase)

def worker (showUuid : Uuid → String) : Code TeeWorkerState Call Phase Unit Nat where
  first _ := .called
  step s c p _ := step contentHash config showUuid s c p
  act s elapsed := { s with now := s.now+elapsed }

end

def system (contentHash : List UInt8 → ContentHash) (config : TeeWorkerConfig)
    (showUuid : Uuid → String) : System (Pool TeeWorkerState Call Phase) (Event Call Unit Nat) :=
  (worker contentHash config showUuid).system (fun s => ∃ now, s = .new now) fun _ _ => True

/-- The report is of the configured platform, was verified against the expected measurement, and
the configured key is bound to it. -/
structure Verified (contentHash : List UInt8 → ContentHash) (config : TeeWorkerConfig)
    (report : AttestationReport) (binding : AttestationBinding) : Prop where
  platform : report.platform = config.platform
  verified : verifyAttestation report config.expectedMeasurement = .ok true
  bound : ∃ bindingId now,
    binding = bindSynthesizerKey contentHash report config.synthesizerPubKey bindingId now

def runs : Call → Phase → Option (Uuid × Attestation × Int)
  | .synthesize _ scope, .entered a since => some (scope, a, since)
  | _, _ => none

def InFlight (t : Pool TeeWorkerState Call Phase) (i : Nat) (scope : Uuid) (a : Attestation)
    (since : Int) : Prop :=
  ∃ c p, t.calls[i]? = some (c, p) ∧ runs c p = some (scope, a, since)

/-- One call at a time is in flight, and the lifecycle shows whether one is. It was entered for a
bound scope under a verified attestation that was fresh, and the worker still has that
attestation: it becomes idle with it when the call exits. -/
structure Exclusive (contentHash : List UInt8 → ContentHash) (config : TeeWorkerConfig)
    (showUuid : Uuid → String) (t : Pool TeeWorkerState Call Phase) : Prop where
  one : ∀ i j scope scope' a a' since since', InFlight t i scope a since →
    InFlight t j scope' a' since' → i = j
  shown : t.shared.lifecycle.asPublic = .synthesizing ↔ ∃ i scope a since,
    InFlight t i scope a since
  granted : ∀ i scope a since, InFlight t i scope a since → scope ∈ config.scopeBindings ∧
    Verified contentHash config a.report a.binding ∧ since-a.attestedAt ≤ config.attestationTtl
  kept : ∀ i scope a since, InFlight t i scope a since →
    t.shared.lifecycle = .attested a true ∧
    ((worker contentHash config showUuid).next t (.advance i ())).shared.lifecycle = .idle a

def overdue (config : TeeWorkerConfig) (s : TeeWorkerState) : Bool :=
  match s.lifecycle with
  | .attested a true => decide (s.now-a.attestedAt > config.attestationTtl)
  | _ => false

/-- No attest call writes its result while a synthesis call is running, and no synthesis call for
a bound scope asks to enter while one is running under an attestation that has expired. -/
def Careful (config : TeeWorkerConfig) (s : TeeWorkerState) : Call → Phase → Unit → Prop
  | .attest _, .quoted _, _ => s.lifecycle.asPublic ≠ .synthesizing
  | .synthesize _ scope, .called, _ =>
    config.scopeBindings.contains scope = true → overdue config s = false
  | _, _, _ => True

instance (config : TeeWorkerConfig) (s : TeeWorkerState) (c : Call) (p : Phase) (x : Unit) :
    Decidable (Careful config s c p x) := by
  unfold Careful
  split <;> infer_instance

section

variable {contentHash : List UInt8 → ContentHash} {config : TeeWorkerConfig}
  {showUuid : Uuid → String}

theorem asPublic_eq_synthesizing {l : Lifecycle} :
    l.asPublic = .synthesizing ↔ ∃ a, l = .attested a true := by
  fun_cases asPublic l <;> simp

theorem asPublic_settleIdle (l : Lifecycle) :
    l.settleIdle.asPublic = .synthesizing ↔ l.asPublic = .synthesizing := by
  fun_cases settleIdle l <;> simp [asPublic]

@[simp] theorem cached_settleIdle (l : Lifecycle) : l.settleIdle.cached = l.cached := by
  fun_cases settleIdle l <;> rfl

@[simp] theorem cached_exitSynthesizing (l : Lifecycle) :
    l.exitSynthesizing.cached = l.cached := by
  fun_cases exitSynthesizing l <;> rfl

theorem settleIdle_of_synthesizing {l : Lifecycle} (h : l.asPublic = .synthesizing) :
    l.settleIdle = l := by
  obtain ⟨a, rfl⟩ := asPublic_eq_synthesizing.mp h
  rfl

theorem assertScopeAllowed_cases (config : TeeWorkerConfig) (showUuid : Uuid → String)
    (scope : Uuid) :
    (config.scopeBindings.contains scope = true ∧
      assertScopeAllowed config showUuid scope = .ok ()) ∨
    (config.scopeBindings.contains scope = false ∧
      ∃ e, assertScopeAllowed config showUuid scope = .error e) := by
  unfold assertScopeAllowed
  cases hempty : config.scopeBindings.isEmpty with
  | true => simp [List.isEmpty_iff.mp hempty]
  | false => cases hmem : config.scopeBindings.contains scope <;> simp

/-- What an attempt to enter may do: it starts, it is refused, or it drops an attestation that has
expired. -/
theorem enterSynthesizing_cases (config : TeeWorkerConfig) (s : TeeWorkerState) :
    (∃ a, s.lifecycle.cached = some a ∧ s.lifecycle.asPublic ≠ .synthesizing ∧
      s.now-a.attestedAt ≤ config.attestationTtl ∧ overdue config s = false ∧
      enterSynthesizing config s.lifecycle s.now = (.attested a true, .ok a)) ∨
    (∃ e, overdue config s = false ∧
      enterSynthesizing config s.lifecycle s.now = (s.lifecycle.settleIdle, .error e)) ∨
    ∃ e, (overdue config s = true ↔ s.lifecycle.asPublic = .synthesizing) ∧
      enterSynthesizing config s.lifecycle s.now = (.unattested, .error e) := by
  cases hl : s.lifecycle with
  | unattested => exact .inr (.inl ⟨_, by simp [overdue, hl], rfl⟩)
  | attesting => exact .inr (.inl ⟨_, by simp [overdue, hl], rfl⟩)
  | idle a =>
    by_cases hfresh : s.now-a.attestedAt ≤ config.attestationTtl
    · refine .inl ⟨a, rfl, by simp [asPublic], hfresh, by simp [overdue, hl], ?_⟩
      simp [enterSynthesizing, settleIdle, not_lt.mpr hfresh]
    · refine .inr (.inr ⟨⟨"tee: attestation expired"⟩, by simp [overdue, hl, asPublic], ?_⟩)
      simp [enterSynthesizing, settleIdle, not_le.mp hfresh]
  | attested a active =>
    by_cases hfresh : s.now-a.attestedAt ≤ config.attestationTtl
    · cases active with
      | false =>
        refine .inl ⟨a, rfl, by simp [asPublic], hfresh, by simp [overdue, hl], ?_⟩
        simp [enterSynthesizing, settleIdle, not_lt.mpr hfresh]
      | true =>
        refine .inr (.inl ⟨⟨"tee: worker is already inside a synthesis call"⟩, ?_, ?_⟩)
        · simp [overdue, hl, hfresh]
        · simp [enterSynthesizing, settleIdle, not_lt.mpr hfresh]
    · refine .inr (.inr ⟨⟨"tee: attestation expired"⟩, ?_, ?_⟩)
      · cases active <;> simp [overdue, hl, asPublic, not_le.mp hfresh]
      · simp [enterSynthesizing, settleIdle, not_le.mp hfresh]

theorem verdict_ok {quote : Quote} {now : Int} {report : AttestationReport}
    {binding : AttestationBinding}
    (h : (verdict contentHash config quote now).outcome = .ok (report, binding)) :
    Verified contentHash config report binding := by
  unfold verdict at h
  split at h
  · simp at h
  · rename_i hplatform
    cases hv : verifyAttestation quote.report config.expectedMeasurement with
    | error e => simp [hv] at h
    | ok verified =>
      cases verified with
      | false => simp [hv] at h
      | true =>
        simp only [hv, Except.ok.injEq, Prod.mk.injEq] at h
        obtain ⟨rfl, rfl⟩ := h
        exact ⟨not_not.mp hplatform, hv, _, _, rfl⟩

section

variable (contentHash : List UInt8 → ContentHash) (config : TeeWorkerConfig)

/-- A step starts a synthesis call, ends one, or leaves the lifecycle alone or away from
`Synthesizing` before and after; only a careless one takes it out of `Synthesizing`. -/
theorem step_cases (showUuid : Uuid → String) (s : TeeWorkerState) (c : Call) (p : Phase) :
    (∃ scope a, runs c p = none ∧ scope ∈ config.scopeBindings ∧ s.lifecycle.cached = some a ∧
      s.lifecycle.asPublic ≠ .synthesizing ∧ s.now-a.attestedAt ≤ config.attestationTtl ∧
      Careful config s c p () ∧
      runs c (step contentHash config showUuid s c p).2 = some (scope, a, s.now) ∧
      (step contentHash config showUuid s c p).1.lifecycle = .attested a true) ∨
    (∃ scope a since, runs c p = some (scope, a, since) ∧ Careful config s c p () ∧
      runs c (step contentHash config showUuid s c p).2 = none ∧
      (step contentHash config showUuid s c p).1.lifecycle = s.lifecycle.exitSynthesizing) ∨
    (runs c p = none ∧ runs c (step contentHash config showUuid s c p).2 = none ∧
      (Careful config s c p () ∧
          (step contentHash config showUuid s c p).1.lifecycle = s.lifecycle ∨
        (step contentHash config showUuid s c p).1.lifecycle.asPublic ≠ .synthesizing ∧
          (Careful config s c p () ↔ s.lifecycle.asPublic ≠ .synthesizing))) := by
  cases c with
  | attest quote =>
    refine .inr (.inr ⟨rfl, rfl, ?_⟩)
    cases p with
    | called =>
      by_cases hbusy : s.lifecycle.asPublic = .synthesizing
      · obtain ⟨a, ha⟩ := asPublic_eq_synthesizing.mp hbusy
        exact .inl ⟨trivial, by simp [step, ha]⟩
      · refine .inr ⟨?_, by simp [Careful, hbusy]⟩
        simp only [step]
        split
        · rename_i a ha
          simp [ha, asPublic] at hbusy
        · simp [asPublic]
    | quoted v =>
      refine .inr ⟨?_, Iff.rfl⟩
      simp only [step]
      split <;> simp [asPublic]
    | _ => exact .inl ⟨trivial, rfl⟩
  | settleIdle =>
    refine .inr (.inr ⟨rfl, rfl, ?_⟩)
    cases p with
    | called =>
      by_cases hbusy : s.lifecycle.asPublic = .synthesizing
      · exact .inl ⟨trivial, settleIdle_of_synthesizing hbusy⟩
      · refine .inr ⟨?_, by simp [Careful, hbusy]⟩
        rw [step, ne_eq, asPublic_settleIdle]
        exact hbusy
    | _ => exact .inl ⟨trivial, rfl⟩
  | synthesize tier scope =>
    cases p with
    | called =>
      obtain ⟨hscope, hok⟩ | ⟨hscope, e, herr⟩ := assertScopeAllowed_cases config showUuid scope
      · obtain ⟨a, hcached, hbusy, hage, hdue, heq⟩ | ⟨e, hdue, heq⟩ | ⟨e, hdue, heq⟩ :=
          enterSynthesizing_cases config s
        · exact .inl ⟨scope, a, rfl, by simpa using hscope, hcached, hbusy, hage, fun _ => hdue,
            by simp [step, hok, heq, runs], by simp [step, hok, heq]⟩
        · refine .inr (.inr ⟨rfl, by simp [step, hok, heq, runs], ?_⟩)
          by_cases hbusy : s.lifecycle.asPublic = .synthesizing
          · refine .inl ⟨fun _ => hdue, ?_⟩
            simp only [step, hok, heq]
            exact settleIdle_of_synthesizing hbusy
          · refine .inr ⟨?_, by simp [Careful, hdue, hbusy]⟩
            simp only [step, hok, heq, ne_eq, asPublic_settleIdle]
            exact hbusy
        · refine .inr (.inr ⟨rfl, by simp [step, hok, heq, runs], .inr ⟨?_, ?_⟩⟩)
          · simp [step, hok, heq, asPublic]
          · simp only [Careful, hscope, forall_const, ne_eq, ← hdue, Bool.not_eq_true]
      · refine .inr (.inr ⟨rfl, by simp [step, herr, runs], .inl ⟨?_, by simp [step, herr]⟩⟩)
        intro hmem
        rw [hscope] at hmem
        cases hmem
    | entered a since => exact .inr (.inl ⟨scope, a, since, rfl, trivial, rfl, rfl⟩)
    | _ => exact .inr (.inr ⟨rfl, rfl, .inl ⟨trivial, rfl⟩⟩)

/-- What a call has brought about by the time it is in the phase. -/
def PhaseSound :
    Call → Phase → Prop
  | _, .quoted v => ∀ report binding, v.outcome = .ok (report, binding) →
    Verified contentHash config report binding
  | .synthesize _ scope, .entered a since => scope ∈ config.scopeBindings ∧
    Verified contentHash config a.report a.binding ∧ since-a.attestedAt ≤ config.attestationTtl
  | _, _ => True

def StateSound (s : TeeWorkerState) : Prop :=
  ∀ a, s.lifecycle.cached = some a → Verified contentHash config a.report a.binding

end

theorem step_sound {s : TeeWorkerState} {c : Call} {p : Phase}
    (hs : StateSound contentHash config s) (hp : PhaseSound contentHash config c p) :
    StateSound contentHash config (step contentHash config showUuid s c p).1 ∧
      PhaseSound contentHash config c (step contentHash config showUuid s c p).2 := by
  cases c with
  | attest quote =>
    cases p with
    | called =>
      simp only [step]
      split
      · exact ⟨hs, trivial⟩
      · refine ⟨fun a ha => ?_, trivial⟩
        simp [cached] at ha
    | quoting => exact ⟨hs, fun report binding h => verdict_ok h⟩
    | quoted v =>
      simp only [step]
      split
      · refine ⟨fun a ha => ?_, trivial⟩
        simp [cached] at ha
      · rename_i report binding hv
        refine ⟨fun a ha => ?_, trivial⟩
        simp only [cached, Option.some.injEq] at ha
        subst ha
        exact hp report binding hv
    | _ => exact ⟨hs, hp⟩
  | settleIdle =>
    cases p with
    | called =>
      refine ⟨fun a ha => hs a ?_, trivial⟩
      simpa [step] using ha
    | _ => exact ⟨hs, hp⟩
  | synthesize tier scope =>
    cases p with
    | called =>
      obtain ⟨hscope, hok⟩ | ⟨-, e, herr⟩ := assertScopeAllowed_cases config showUuid scope
      · obtain ⟨a, hcached, -, hage, -, heq⟩ | ⟨e, -, heq⟩ | ⟨e, -, heq⟩ :=
          enterSynthesizing_cases config s
        · simp only [step, hok, heq]
          refine ⟨fun a' ha' => ?_, by simpa using hscope, hs a hcached, hage⟩
          simp only [cached, Option.some.injEq] at ha'
          subst ha'
          exact hs a hcached
        · simp only [step, hok, heq]
          refine ⟨fun a ha => hs a ?_, trivial⟩
          simpa using ha
        · simp only [step, hok, heq]
          refine ⟨fun a ha => ?_, trivial⟩
          simp [cached] at ha
      · simp only [step, herr]
        exact ⟨hs, trivial⟩
    | entered a since =>
      refine ⟨fun a ha => hs a ?_, trivial⟩
      simpa [step] using ha
    | _ => exact ⟨hs, hp⟩

theorem sound {t : Pool TeeWorkerState Call Phase}
    (h : ((system contentHash config showUuid).restrict (Code.Each (Careful config))).Reachable t) :
    StateSound contentHash config t.shared ∧
      ∀ c p, (c, p) ∈ t.calls → PhaseSound contentHash config c p := by
  refine Code.invariant (StateSound contentHash config)
    (fun _ c p => PhaseSound contentHash config c p) ?_ ?_ ?_ ?_ ?_ h
  · intro s ⟨now, hs⟩ a ha
    subst hs
    simp [TeeWorkerState.new, cached] at ha
  · intro s c _
    cases c <;> trivial
  · intro s c p _ hs hp _
    exact step_sound hs hp
  · intro s c p _ d q _ _ hq _
    exact hq
  · intro t e _ hs
    exact ⟨hs, fun d q _ hq => hq⟩

theorem runs_eq_some {c : Call} {p : Phase} {scope : Uuid} {a : Attestation} {since : Int}
    (h : runs c p = some (scope, a, since)) :
    ∃ tier, c = .synthesize tier scope ∧ p = .entered a since := by
  revert h
  fun_cases runs c p
  · simp
  · simp

theorem inFlight_set {t : Pool TeeWorkerState Call Phase} {s : TeeWorkerState} {i j : Nat}
    {c : Call} {p p' : Phase} {scope : Uuid} {a : Attestation} {since : Int}
    (h : t.calls[i]? = some (c, p)) :
    InFlight ⟨s, t.calls.set i (c, p')⟩ j scope a since ↔
      i = j ∧ runs c p' = some (scope, a, since) ∨ i ≠ j ∧ InFlight t j scope a since := by
  have hlt : i < t.calls.length := (List.getElem?_eq_some_iff.mp h).1
  by_cases hij : i = j
  · subst j
    simp [InFlight, List.getElem?_set_self hlt]
  · simp [InFlight, List.getElem?_set_ne hij, hij]

theorem inFlight_call {t : Pool TeeWorkerState Call Phase} {c : Call} {j : Nat} {scope : Uuid}
    {a : Attestation} {since : Int} :
    InFlight { t with calls := t.calls ++ [(c, .called)] } j scope a since ↔
      InFlight t j scope a since := by
  have hnone : runs c .called = none := by cases c <;> rfl
  simp only [InFlight]
  constructor
  · intro ⟨d, q, hj, hruns⟩
    rw [List.getElem?_append] at hj
    split at hj
    · exact ⟨d, q, hj, hruns⟩
    · obtain ⟨rfl, rfl⟩ := Prod.mk.inj (List.mem_singleton.mp (List.mem_of_getElem? hj))
      rw [hnone] at hruns
      cases hruns
  · intro ⟨d, q, hj, hruns⟩
    have hlt : j < t.calls.length := (List.getElem?_eq_some_iff.mp hj).1
    exact ⟨d, q, by rw [List.getElem?_append_left hlt]; exact hj, hruns⟩

/-- The part of `Exclusive` that speaks of the lifecycle and the calls only. -/
structure Held (t : Pool TeeWorkerState Call Phase) : Prop where
  one : ∀ i j scope scope' a a' since since', InFlight t i scope a since →
    InFlight t j scope' a' since' → i = j
  shown : t.shared.lifecycle.asPublic = .synthesizing → ∃ i scope a since,
    InFlight t i scope a since
  kept : ∀ i scope a since, InFlight t i scope a since → t.shared.lifecycle = .attested a true

theorem Held.congr {t t' : Pool TeeWorkerState Call Phase} (h : Held t)
    (hl : t'.shared.lifecycle = t.shared.lifecycle)
    (hf : ∀ i scope a since, InFlight t' i scope a since ↔ InFlight t i scope a since) :
    Held t' := by
  obtain ⟨hone, hshown, hkept⟩ := h
  refine ⟨?_, ?_, ?_⟩
  · intro i j scope scope' a a' since since' hi hj
    exact hone i j _ _ _ _ _ _ ((hf ..).mp hi) ((hf ..).mp hj)
  · intro hbusy
    obtain ⟨i, scope, a, since, hi⟩ := hshown (by rwa [← hl])
    exact ⟨i, scope, a, since, (hf ..).mpr hi⟩
  · intro i scope a since hi
    rw [hl]
    exact hkept i scope a since ((hf ..).mp hi)

section

variable {t : Pool TeeWorkerState Call Phase}

theorem Held.none_of_free (h : Held t)
    (hfree : t.shared.lifecycle.asPublic ≠ .synthesizing) {i : Nat} {scope : Uuid}
    {a : Attestation} {since : Int} : ¬InFlight t i scope a since := by
  intro hi
  rw [h.kept i scope a since hi] at hfree
  exact hfree rfl

theorem Held.start (h : Held t) {s : TeeWorkerState} {i : Nat}
    {c : Call} {p p' : Phase} {scope : Uuid} {a : Attestation} {since : Int}
    (hi : t.calls[i]? = some (c, p)) (hfree : t.shared.lifecycle.asPublic ≠ .synthesizing)
    (hruns : runs c p' = some (scope, a, since)) (hl : s.lifecycle = .attested a true) :
    Held ⟨s, t.calls.set i (c, p')⟩ := by
  have honly : ∀ j scope' a' since', InFlight ⟨s, t.calls.set i (c, p')⟩ j scope' a' since' →
      i = j ∧ a = a' := by
    intro j scope' a' since' hj
    obtain ⟨hij, heq⟩ | ⟨-, hj⟩ := (inFlight_set hi).mp hj
    · simp_all
    · exact absurd hj (h.none_of_free hfree)
  refine ⟨?_, ?_, ?_⟩
  · intro j k _ _ _ _ _ _ hj hk
    exact (honly j _ _ _ hj).1.symm.trans (honly k _ _ _ hk).1
  · intro _
    exact ⟨i, scope, a, since, (inFlight_set hi).mpr (.inl ⟨rfl, hruns⟩)⟩
  · intro j scope' a' since' hj
    rw [← (honly j _ _ _ hj).2]
    exact hl

theorem Held.stop (h : Held t) {s : TeeWorkerState} {i : Nat}
    {c : Call} {p p' : Phase} {scope : Uuid} {a : Attestation} {since : Int}
    (hi : t.calls[i]? = some (c, p)) (hsome : runs c p = some (scope, a, since))
    (hruns : runs c p' = none) (hl : s.lifecycle.asPublic ≠ .synthesizing) :
    Held ⟨s, t.calls.set i (c, p')⟩ := by
  have hempty : ∀ j scope' a' since',
      ¬InFlight ⟨s, t.calls.set i (c, p')⟩ j scope' a' since' := by
    intro j scope' a' since' hj
    obtain ⟨-, heq⟩ | ⟨hne, hj⟩ := (inFlight_set hi).mp hj
    · rw [hruns] at heq
      cases heq
    · exact hne (h.one i j _ _ _ _ _ _ ⟨c, p, hi, hsome⟩ hj)
  refine ⟨?_, ?_, ?_⟩
  · intro j k _ _ _ _ _ _ hj
    exact (hempty _ _ _ _ hj).elim
  · intro hbusy
    exact absurd hbusy hl
  · intro j _ _ _ hj
    exact (hempty _ _ _ _ hj).elim

theorem inFlight_set_none {s : TeeWorkerState} {i : Nat}
    {c : Call} {p p' : Phase} (hi : t.calls[i]? = some (c, p)) (hp : runs c p = none)
    (hp' : runs c p' = none) (j : Nat) (scope : Uuid) (a : Attestation) (since : Int) :
    InFlight ⟨s, t.calls.set i (c, p')⟩ j scope a since ↔ InFlight t j scope a since := by
  rw [inFlight_set hi]
  by_cases hij : i = j
  · subst j
    simp [hp', InFlight, hi, hp]
  · simp [hij]

theorem Held.advance_iff (h : Held t) {i : Nat} {c : Call}
    {p : Phase} (hi : t.calls[i]? = some (c, p)) :
    Held ((worker contentHash config showUuid).next t (.advance i ())) ↔
      Careful config t.shared c p () := by
  rw [Code.next_advance () hi]
  change Held ⟨(step contentHash config showUuid t.shared c p).1,
    t.calls.set i (c, (step contentHash config showUuid t.shared c p).2)⟩ ↔ _
  obtain ⟨scope, a, -, -, -, hfree, -, hcareful, hruns, hl⟩ |
      ⟨scope, a, since, hsome, hcareful, hruns, hl⟩ | ⟨hnone, hruns, hcase⟩ :=
    step_cases contentHash config showUuid t.shared c p
  · exact iff_of_true (h.start hi hfree hruns hl) hcareful
  · refine iff_of_true (h.stop hi hsome hruns ?_) hcareful
    rw [hl, h.kept i scope a since ⟨c, p, hi, hsome⟩]
    simp [exitSynthesizing, asPublic]
  · have hsame := inFlight_set_none (s := (step contentHash config showUuid t.shared c p).1) hi
      hnone hruns
    obtain ⟨hcareful, hl⟩ | ⟨hl, hiff⟩ := hcase
    · exact iff_of_true (h.congr hl hsame) hcareful
    · rw [hiff]
      constructor
      · intro h' hbusy
        obtain ⟨j, scope, a, since, hj⟩ := h.shown hbusy
        exact h'.none_of_free hl ((hsame ..).mpr hj)
      · intro hfree
        have hempty : ∀ j scope a since, ¬InFlight t j scope a since :=
          fun _ _ _ _ => h.none_of_free hfree
        refine ⟨?_, fun hbusy => absurd hbusy hl, ?_⟩
        · intro j k _ _ _ _ _ _ hj
          exact (hempty _ _ _ _ ((hsame ..).mp hj)).elim
        · intro j _ _ _ hj
          exact (hempty _ _ _ _ ((hsame ..).mp hj)).elim

theorem Held.next_iff (h : Held t) (event : Event Call Unit Nat) :
    Held ((worker contentHash config showUuid).next t event) ↔
      Code.Each (Careful config) t event := by
  cases event with
  | call c => exact iff_of_true (h.congr rfl fun _ _ _ _ => inFlight_call) trivial
  | act e => exact iff_of_true (h.congr rfl fun _ _ _ _ => Iff.rfl) trivial
  | advance i x =>
    cases hi : t.calls[i]? with
    | none =>
      rw [Code.next_advance_none x hi]
      simp [h, Code.Each, hi]
    | some e =>
      obtain ⟨c, p⟩ := e
      rw [h.advance_iff hi]
      simp [Code.Each, hi]

theorem held (h : ((system contentHash config showUuid).restrict (Code.Each (Careful config))).Reachable t) :
    Held t := by
  refine System.Reachable.invariant Held ?_ ?_ h
  · intro t ⟨⟨now, hs⟩, hcalls⟩
    have hempty : ∀ i scope a since, ¬InFlight t i scope a since := by
      simp [InFlight, hcalls]
    refine ⟨fun i _ _ _ _ _ _ _ hi => (hempty _ _ _ _ hi).elim, fun hbusy => ?_,
      fun i _ _ _ hi => (hempty _ _ _ _ hi).elim⟩
    simp [hs, TeeWorkerState.new, asPublic] at hbusy
  · intro t event t' _ ht ⟨⟨_, ht'⟩, hcareful⟩
    subst ht'
    exact ht.next_iff event |>.mpr hcareful

theorem Held.exclusive (h : Held t)
    (hsound : ∀ c p, (c, p) ∈ t.calls → PhaseSound contentHash config c p) :
    Exclusive contentHash config showUuid t := by
  refine ⟨h.one, ⟨h.shown, ?_⟩, ?_, ?_⟩
  · intro ⟨i, scope, a, since, hi⟩
    rw [h.kept i scope a since hi]
    rfl
  · intro i scope a since ⟨c, p, hi, hruns⟩
    obtain ⟨tier, rfl, rfl⟩ := runs_eq_some hruns
    exact hsound _ _ (List.mem_of_getElem? hi)
  · intro i scope a since hflight
    have hl := h.kept i scope a since hflight
    refine ⟨hl, ?_⟩
    obtain ⟨c, p, hi, hruns⟩ := hflight
    obtain ⟨tier, rfl, rfl⟩ := runs_eq_some hruns
    rw [Code.next_advance () hi]
    simp [worker, step, hl, exitSynthesizing]

theorem Exclusive.held (h : Exclusive contentHash config showUuid t) : Held t :=
  ⟨h.one, h.shown.mp, fun i scope a since hi => (h.kept i scope a since hi).1⟩

end

end

/-- In a run whose steps are all careful the worker runs one attested call at a time, and a step
that is not careful is one after which it does not. -/
theorem tee_worker_exclusive (contentHash : List UInt8 → ContentHash) (config : TeeWorkerConfig)
    (showUuid : Uuid → String) (t : Pool TeeWorkerState Call Phase)
    (h : ((system contentHash config showUuid).restrict (Code.Each (Careful config))).Reachable t) :
    Exclusive contentHash config showUuid t ∧
    ∀ event, Exclusive contentHash config showUuid
      ((worker contentHash config showUuid).next t event) ↔ Code.Each (Careful config) t event := by
  refine ⟨(held h).exclusive (sound h).2, fun event => ⟨fun h' => ?_, fun hcareful => ?_⟩⟩
  · exact (held h).next_iff event |>.mp h'.held
  · have h' := h.step ⟨⟨trivial, rfl⟩, hcareful⟩
    exact (held h').exclusive (sound h').2

def mockConfig : TeeWorkerConfig := ⟨.mock, [1], [2], [7, 8], 300⟩

def mockQuote : Quote := ⟨⟨10, .mock, [1], [], [], 0⟩, 11, 12⟩

def after (events : List (Event Call Unit Nat)) : Pool TeeWorkerState Call Phase :=
  events.foldl (worker id mockConfig fun _ => "").next ⟨.new 0, []⟩

def attestThenSynthesize : List (Event Call Unit Nat) :=
  [.call (.attest mockQuote), .advance 0 (), .advance 0 (), .advance 0 (), .act 20,
    .call (.synthesize .domain 7), .advance 1 ()]

theorem tee_worker_exclusive_one_call :
    ((system id mockConfig fun _ => "").restrict (Code.Each (Careful mockConfig))).Reachable
      (after attestThenSynthesize) ∧
    InFlight (after attestThenSynthesize) 1 7
      ⟨mockQuote.report, bindSynthesizerKey id mockQuote.report [2] 11 0, 0⟩ 20 ∧
    Exclusive id mockConfig (fun _ => "") (after attestThenSynthesize) := by
  have hlegal : Legal (fun t event => True ∧ Code.Each (Careful mockConfig) t event)
      (worker id mockConfig fun _ => "").next ⟨.new 0, []⟩ attestThenSynthesize := by
    decide +kernel
  have hrun : ((system id mockConfig fun _ => "").restrict
      (Code.Each (Careful mockConfig))).Reachable (after attestThenSynthesize) :=
    hlegal.reachable_restrict (.init ⟨⟨0, rfl⟩, rfl⟩)
  exact ⟨hrun, ⟨.synthesize .domain 7, _, rfl, rfl⟩,
    (tee_worker_exclusive id mockConfig (fun _ => "") _ hrun).1⟩

/-- Two attest calls race; the second one writes its result while a call runs under the first
one's. -/
def racingAttests : List (Event Call Unit Nat) :=
  [.call (.attest mockQuote), .call (.attest mockQuote), .advance 0 (), .advance 1 (),
    .advance 0 (), .advance 1 (), .advance 0 (), .call (.synthesize .domain 7), .advance 2 (),
    .advance 1 (), .call (.synthesize .tenant 8), .advance 3 ()]

/-- A call asks to enter when the attestation of the one that is running has expired. -/
def lateEntry : List (Event Call Unit Nat) :=
  attestThenSynthesize ++ [.act 300, .call (.synthesize .domain 7), .advance 2 ()]

/-- Two calls are in flight at once; and a call is in flight in a worker that shows `Unattested`,
where its exit leaves it. -/
theorem tee_worker_clobbered :
    ((system id mockConfig fun _ => "").Reachable (after racingAttests) ∧
      (∃ a since, InFlight (after racingAttests) 2 7 a since) ∧
      (∃ a since, InFlight (after racingAttests) 3 8 a since) ∧
      ¬Exclusive id mockConfig (fun _ => "") (after racingAttests)) ∧
    (system id mockConfig fun _ => "").Reachable (after lateEntry) ∧
      (∃ a since, InFlight (after lateEntry) 1 7 a since) ∧
      (after lateEntry).shared.lifecycle = .unattested ∧
      (after (lateEntry ++ [.advance 1 ()])).shared.lifecycle = .unattested ∧
      ¬Exclusive id mockConfig (fun _ => "") (after lateEntry) := by
  have h2 : ∃ a since, InFlight (after racingAttests) 2 7 a since :=
    ⟨_, _, .synthesize .domain 7, _, rfl, rfl⟩
  have h3 : ∃ a since, InFlight (after racingAttests) 3 8 a since :=
    ⟨_, _, .synthesize .tenant 8, _, rfl, rfl⟩
  have h1 : ∃ a since, InFlight (after lateEntry) 1 7 a since :=
    ⟨_, _, .synthesize .domain 7, _, rfl, rfl⟩
  have hreach : ∀ events, (system id mockConfig fun _ => "").Reachable (after events) :=
    fun events => Code.reachable_foldl _ _ ⟨0, rfl⟩ events
  refine ⟨⟨hreach _, h2, h3, fun h => ?_⟩, hreach _, h1, rfl, rfl, fun h => ?_⟩
  · obtain ⟨a, since, ha⟩ := h2
    obtain ⟨b, since', hb⟩ := h3
    exact absurd (h.one 2 3 _ _ _ _ _ _ ha hb) (by decide)
  · obtain ⟨a, since, ha⟩ := h1
    have hl : (after lateEntry).shared.lifecycle = .attested a true := (h.kept 1 7 a since ha).1
    have hun : (after lateEntry).shared.lifecycle = .unattested := rfl
    rw [hun] at hl
    cases hl

end Knowledge.Tee
