import Knowledge.Memory.Policy

/-!
`crates/synthesis_pipeline`: synthesis windows with their manager, the inputs of the domain and
tenant tiers, and the validators that keep the tiers apart.
-/

set_option autoImplicit false

namespace Knowledge.Synthesis
open Knowledge.Memory (ScopeId)
open Knowledge.Transition
open Knowledge.Sync (Uuid)

abbrev WindowId := Uuid

inductive WindowStatus where
  | pending
  | inProgress
  | complete
  | failed
  deriving DecidableEq

inductive WindowScopeTier where
  | channel
  | domain
  | tenant
  deriving DecidableEq

inductive SynthesisObjectType where
  | episodicSummary
  | channelRecap
  | domainSummary
  | tenantSummary
  deriving DecidableEq

/-- The reason of a `HierarchyViolation`, with the values its message shows. -/
inductive Violation where
  | expectedObject (expected actual : SynthesisObjectType)
  | scopeNotRegistered (scope owner : ScopeId)
  | documentNotAdmitted (document : Uuid) (tenant : ScopeId)
  | wrongTier (actual : WindowScopeTier)
  | otherTarget (input window : ScopeId)
  | foreignWindow (window : WindowId) (owner claimed : ScopeId)
  deriving DecidableEq

inductive PipelineError where
  | invalidWindow
  | invalidWindowTransition
  | windowNotFound (id : WindowId)
  | hierarchyViolation (reason : Violation)
  deriving DecidableEq

structure SynthesisWindow where
  id : WindowId
  scopeId : ScopeId
  windowStart : Int
  windowEnd : Int
  status : WindowStatus
  tier : Option WindowScopeTier
  deriving DecidableEq

/-- The id stands for the random one that `WindowId::new_v4` draws. -/
def SynthesisWindow.new (id : WindowId) (scopeId : ScopeId) (windowStart windowEnd : Int) :
    Except PipelineError SynthesisWindow :=
  if windowEnd ≤ windowStart then .error .invalidWindow
  else .ok ⟨id, scopeId, windowStart, windowEnd, .pending, none⟩

structure SynthesisWindowManager where
  windows : Table WindowId SynthesisWindow
  byScope : Table ScopeId (List WindowId)

open SynthesisWindowManager

structure TieredWindowHandle where
  windowId : WindowId
  scopeId : ScopeId
  tier : WindowScopeTier

structure SynthesisObject where
  id : Uuid
  scopeId : ScopeId
  windowId : WindowId
  objectType : SynthesisObjectType
  payload : List UInt8
  deriving DecidableEq

/-- The object is private and checked when it is wrapped; the scope is a public field. -/
structure ChannelOutput where
  object : SynthesisObject
  channelScope : ScopeId
  recap : object.objectType = .channelRecap

def ChannelOutput.fromChannelObject (object : SynthesisObject) :
    Except PipelineError ChannelOutput :=
  if h : object.objectType = .channelRecap then .ok ⟨object, object.scopeId, h⟩
  else .error (.hierarchyViolation (.expectedObject .channelRecap object.objectType))

theorem ChannelOutput.wrapped (o : ChannelOutput) :
    ∃ b, fromChannelObject o.object = .ok b ∧ o = { b with channelScope := o.channelScope } :=
  ⟨⟨o.object, o.object.scopeId, o.recap⟩, dif_pos o.recap, rfl⟩

structure DomainOutput where
  object : SynthesisObject
  domainScope : ScopeId
  summary : object.objectType = .domainSummary

def DomainOutput.fromDomainObject (object : SynthesisObject) : Except PipelineError DomainOutput :=
  if h : object.objectType = .domainSummary then .ok ⟨object, object.scopeId, h⟩
  else .error (.hierarchyViolation (.expectedObject .domainSummary object.objectType))

theorem DomainOutput.wrapped (o : DomainOutput) :
    ∃ b, fromDomainObject o.object = .ok b ∧ o = { b with domainScope := o.domainScope } :=
  ⟨⟨o.object, o.object.scopeId, o.summary⟩, dif_pos o.summary, rfl⟩

structure DomainMemoryObject where
  scopeId : ScopeId
  channelScopes : List ScopeId

structure TenantMemoryObject where
  scopeId : ScopeId
  domainScopes : List ScopeId
  approvedDocuments : List Uuid

structure ApprovedDocument where
  reference : Uuid
  payload : List UInt8

structure DomainSynthesisInput where
  domainScope : ScopeId
  channelOutputs : List ChannelOutput
  assembledAt : Int

open DomainSynthesisInput

structure TenantSynthesisInput where
  tenantScope : ScopeId
  domainOutputs : List DomainOutput
  approvedDocuments : List ApprovedDocument
  assembledAt : Int

def checkRegistered (owner : ScopeId) (registered : List ScopeId) :
    List ScopeId → Except PipelineError Unit
  | [] => .ok ()
  | scope :: rest =>
    if scope ∈ registered then checkRegistered owner registered rest
    else .error (.hierarchyViolation (.scopeNotRegistered scope owner))

def checkAdmitted (tenant : TenantMemoryObject) :
    List ApprovedDocument → Except PipelineError Unit
  | [] => .ok ()
  | d :: rest =>
    if d.reference ∈ tenant.approvedDocuments then checkAdmitted tenant rest
    else .error (.hierarchyViolation (.documentNotAdmitted d.reference tenant.scopeId))

def DomainSynthesisInput.new (domain : DomainMemoryObject) (channelOutputs : List ChannelOutput)
    (now : Int) : Except PipelineError DomainSynthesisInput := do
  checkRegistered domain.scopeId domain.channelScopes (channelOutputs.map (·.channelScope))
  .ok ⟨domain.scopeId, channelOutputs, now⟩

def TenantSynthesisInput.new (tenant : TenantMemoryObject) (domainOutputs : List DomainOutput)
    (approvedDocuments : List ApprovedDocument) (now : Int) :
    Except PipelineError TenantSynthesisInput := do
  checkRegistered tenant.scopeId tenant.domainScopes (domainOutputs.map (·.domainScope))
  checkAdmitted tenant approvedDocuments
  .ok ⟨tenant.scopeId, domainOutputs, approvedDocuments, now⟩

namespace SynthesisWindowManager

section

variable (m : SynthesisWindowManager) (id : WindowId)

def openWindow (scopeId : ScopeId) (windowStart windowEnd : Int) :
    SynthesisWindowManager × Except PipelineError WindowId :=
  match SynthesisWindow.new id scopeId windowStart windowEnd with
  | .error err => (m, .error err)
  | .ok window =>
    let ids := (m.byScope.lookup scopeId).getD [] ++ [id]
    (⟨m.windows.insert id window, m.byScope.insert scopeId ids⟩, .ok id)

def get : Option SynthesisWindow :=
  m.windows.lookup id

def setTier (tier : WindowScopeTier) :
    SynthesisWindowManager × Except PipelineError Unit :=
  match m.windows.lookup id with
  | none => (m, .error (.windowNotFound id))
  | some w => ({ m with windows := m.windows.insert id { w with tier := some tier } }, .ok ())

end

def mark (sources : List WindowStatus) (target : WindowStatus) (m : SynthesisWindowManager)
    (id : WindowId) : SynthesisWindowManager × Except PipelineError Unit :=
  match m.windows.lookup id with
  | none => (m, .error (.windowNotFound id))
  | some w =>
    if w.status ∈ sources then
      ({ m with windows := m.windows.insert id { w with status := target } }, .ok ())
    else (m, .error .invalidWindowTransition)

section

variable (m : SynthesisWindowManager) (id : WindowId)

def markInProgress :
    SynthesisWindowManager × Except PipelineError Unit :=
  mark [.pending, .failed] .inProgress m id

def markComplete :
    SynthesisWindowManager × Except PipelineError Unit :=
  mark [.inProgress] .complete m id

def markFailed :
    SynthesisWindowManager × Except PipelineError Unit :=
  mark [.inProgress] .failed m id

def markReplayPending :
    SynthesisWindowManager × Except PipelineError Unit :=
  mark [.complete] .pending m id

def openTieredWindow (scopeId : ScopeId) (tier : WindowScopeTier) (windowStart windowEnd : Int) :
    SynthesisWindowManager × Except PipelineError TieredWindowHandle :=
  match m.openWindow id scopeId windowStart windowEnd with
  | (m, .error err) => (m, .error err)
  | (m, .ok id) => ((m.setTier id tier).1, .ok ⟨id, scopeId, tier⟩)

end

/-- The two validators, each with its tier and the scope its input targets. The tier is read
off the handle. -/
def validateInput (tier : WindowScopeTier) (m : SynthesisWindowManager)
    (handle : TieredWindowHandle) (target : ScopeId) : Except PipelineError Unit :=
  if handle.tier ≠ tier then .error (.hierarchyViolation (.wrongTier handle.tier))
  else if handle.scopeId ≠ target then
    .error (.hierarchyViolation (.otherTarget target handle.scopeId))
  else
    match m.get handle.windowId with
    | none => .error (.windowNotFound handle.windowId)
    | some window =>
      if window.scopeId ≠ handle.scopeId then
        .error (.hierarchyViolation
          (.foreignWindow handle.windowId window.scopeId handle.scopeId))
      else if window.status = .complete then .error .invalidWindowTransition
      else .ok ()

def validateDomainInput (m : SynthesisWindowManager) (handle : TieredWindowHandle)
    (input : DomainSynthesisInput) : Except PipelineError Unit :=
  validateInput .domain m handle input.domainScope

def validateTenantInput (m : SynthesisWindowManager) (handle : TieredWindowHandle)
    (input : TenantSynthesisInput) : Except PipelineError Unit :=
  validateInput .tenant m handle input.tenantScope

/-- A window of the target's scope that is not complete, under a handle that claims the tier. -/
def Offers (tier : WindowScopeTier) (m : SynthesisWindowManager) (handle : TieredWindowHandle)
    (target : ScopeId) (window : SynthesisWindow) : Prop :=
  m.get handle.windowId = some window ∧ handle.tier = tier ∧ handle.scopeId = target ∧
    window.scopeId = target ∧ window.status ≠ .complete

theorem validateInput_eq_ok_iff (tier : WindowScopeTier) (m : SynthesisWindowManager)
    (handle : TieredWindowHandle) (target : ScopeId) :
    validateInput tier m handle target = .ok () ↔ ∃ window, Offers tier m handle target window := by
  unfold validateInput Offers
  by_cases htier : handle.tier = tier
  · by_cases hscope : handle.scopeId = target
    · rw [if_neg (not_not_intro htier), if_neg (not_not_intro hscope)]
      cases hw : m.get handle.windowId with
      | none => simp
      | some window =>
        dsimp only
        by_cases hown : window.scopeId = handle.scopeId
        · rw [if_neg (not_not_intro hown)]
          rw [hscope] at hown
          by_cases hdone : window.status = .complete <;> simp [htier, hscope, hown, hdone]
        · rw [if_pos hown]
          rw [hscope] at hown
          simp [hown]
    · rw [if_neg (not_not_intro htier), if_pos hscope]
      simp [hscope]
  · rw [if_pos htier]
    simp [htier]

end SynthesisWindowManager

/-- A call on the manager; windows get the id that is drawn for them. -/
inductive WindowCall where
  | openWindow (id : WindowId) (scopeId : ScopeId) (windowStart windowEnd : Int)
  | openTieredWindow (id : WindowId) (scopeId : ScopeId) (tier : WindowScopeTier)
      (windowStart windowEnd : Int)
  | markInProgress (id : WindowId)
  | markComplete (id : WindowId)
  | markFailed (id : WindowId)
  | markReplayPending (id : WindowId)

/-- A manager with a record of the scope and the tier each window was opened with. -/
structure Opened where
  manager : SynthesisWindowManager
  openedWith : WindowId → Option (ScopeId × Option WindowScopeTier)

namespace WindowCall

def run (m : SynthesisWindowManager) : WindowCall → SynthesisWindowManager
  | openWindow id scope windowStart windowEnd => (m.openWindow id scope windowStart windowEnd).1
  | openTieredWindow id scope tier windowStart windowEnd =>
    (m.openTieredWindow id scope tier windowStart windowEnd).1
  | markInProgress id => (m.markInProgress id).1
  | markComplete id => (m.markComplete id).1
  | markFailed id => (m.markFailed id).1
  | markReplayPending id => (m.markReplayPending id).1

def opens : WindowCall → Option (WindowId × ScopeId × Option WindowScopeTier)
  | openWindow id scope windowStart windowEnd =>
    if windowStart < windowEnd then some (id, scope, none) else none
  | openTieredWindow id scope tier windowStart windowEnd =>
    if windowStart < windowEnd then some (id, scope, some tier) else none
  | _ => none

def next (s : Opened) (call : WindowCall) : Opened where
  manager := call.run s.manager
  openedWith k :=
    match call.opens with
    | some (id, how) => if k = id then some how else s.openedWith k
    | none => s.openedWith k

end WindowCall

def windowSystem : System Opened WindowCall :=
  .ofNext (fun s => s = ⟨⟨∅, ∅⟩, fun _ => none⟩) (fun _ _ => True) WindowCall.next

/-- Each window has the scope and the tier it was opened with. -/
def Recorded (s : Opened) : Prop :=
  ∀ id w, s.manager.get id = some w → s.openedWith id = some (w.scopeId, w.tier)

theorem Recorded.mark {s : Opened} (h : Recorded s) (sources : List WindowStatus)
    (target : WindowStatus) (id : WindowId) :
    Recorded ⟨(mark sources target s.manager id).1, s.openedWith⟩ := by
  intro k w hw
  unfold SynthesisWindowManager.mark at hw
  split at hw
  · exact h k w hw
  · rename_i v hv
    split at hw
    · rw [SynthesisWindowManager.get, Table.lookup_insert_ite] at hw
      split at hw
      · rename_i hk
        cases hw
        rw [hk]
        exact h id v hv
      · exact h k w hw
    · exact h k w hw

section

variable (m : SynthesisWindowManager) (id : WindowId) (scope : ScopeId)

theorem openWindow_of_lt {windowStart windowEnd : Int} (h : windowStart < windowEnd) :
    m.openWindow id scope windowStart windowEnd =
      (⟨m.windows.insert id ⟨id, scope, windowStart, windowEnd, .pending, none⟩,
        m.byScope.insert scope ((m.byScope.lookup scope).getD [] ++ [id])⟩, .ok id) := by
  unfold openWindow SynthesisWindow.new
  rw [if_neg (by omega)]

theorem openWindow_of_not_lt {windowStart windowEnd : Int} (h : ¬windowStart < windowEnd) :
    m.openWindow id scope windowStart windowEnd = (m, .error .invalidWindow) := by
  unfold openWindow SynthesisWindow.new
  rw [if_pos (by omega)]

theorem get_openTieredWindow (tier : WindowScopeTier) {windowStart windowEnd : Int} (h : windowStart < windowEnd)
    (k : WindowId) :
    (m.openTieredWindow id scope tier windowStart windowEnd).1.get k =
      if k = id then some ⟨id, scope, windowStart, windowEnd, .pending, some tier⟩
      else m.get k := by
  unfold openTieredWindow setTier
  rw [openWindow_of_lt m id scope h]
  simp only [AList.lookup_insert, SynthesisWindowManager.get, Table.lookup_insert_ite]
  split <;> rfl

end

theorem Recorded.insert {s : Opened} (h : Recorded s) {m : SynthesisWindowManager}
    {id : WindowId} (w : SynthesisWindow)
    (hget : ∀ k, m.get k = if k = id then some w else s.manager.get k) :
    Recorded ⟨m, fun k => if k = id then some (w.scopeId, w.tier) else s.openedWith k⟩ := by
  intro k v hv
  dsimp only at hv ⊢
  rw [hget] at hv
  split at hv
  · rename_i hk
    cases hv
    rw [if_pos hk]
  · rename_i hk
    rw [if_neg hk]
    exact h k v hv

theorem recorded_of_reachable {s : Opened} (h : windowSystem.Reachable s) : Recorded s := by
  refine h.invariant Recorded ?_ ?_
  · rintro s rfl id w hw
    cases hw
  · rintro s call t - hs ⟨-, rfl⟩
    cases call with
    | openWindow id scope windowStart windowEnd =>
      simp only [WindowCall.next, WindowCall.run, WindowCall.opens]
      by_cases hlt : windowStart < windowEnd
      · simp only [hlt, if_true, openWindow_of_lt _ _ _ hlt]
        exact hs.insert ⟨id, scope, windowStart, windowEnd, .pending, none⟩
          fun k => Table.lookup_insert_ite _ _ _ _
      · simp only [hlt, if_false, openWindow_of_not_lt _ _ _ hlt]
        exact hs
    | openTieredWindow id scope tier windowStart windowEnd =>
      simp only [WindowCall.next, WindowCall.run, WindowCall.opens]
      by_cases hlt : windowStart < windowEnd
      · simp only [hlt, if_true]
        exact hs.insert ⟨id, scope, windowStart, windowEnd, .pending, some tier⟩
          (get_openTieredWindow s.manager id scope tier hlt)
      · simp only [hlt, if_false, openTieredWindow, openWindow_of_not_lt _ _ _ hlt]
        exact hs
    | markInProgress id => exact hs.mark _ _ id
    | markComplete id => exact hs.mark _ _ id
    | markFailed id => exact hs.mark _ _ id
    | markReplayPending id => exact hs.mark _ _ id

theorem domainInput_new_ok {domain : DomainMemoryObject} {outputs : List ChannelOutput} {now : Int}
    {input : DomainSynthesisInput} (h : new domain outputs now = .ok input) :
    input = ⟨domain.scopeId, outputs, now⟩ := by
  unfold new at h
  cases hc : checkRegistered domain.scopeId domain.channelScopes
      (outputs.map (·.channelScope)) with
  | error err => rw [hc] at h; cases h
  | ok u => rw [hc] at h; cases h; rfl

theorem tenantInput_new_ok {tenant : TenantMemoryObject} {outputs : List DomainOutput}
    {documents : List ApprovedDocument} {now : Int} {input : TenantSynthesisInput}
    (h : TenantSynthesisInput.new tenant outputs documents now = .ok input) :
    input = ⟨tenant.scopeId, outputs, documents, now⟩ := by
  unfold TenantSynthesisInput.new at h
  cases hc : checkRegistered tenant.scopeId tenant.domainScopes (outputs.map (·.domainScope)) with
  | error err => rw [hc] at h; cases h
  | ok u =>
    cases ha : checkAdmitted tenant documents with
    | error err => rw [hc, ha] at h; cases h
    | ok u => rw [hc, ha] at h; cases h; rfl

theorem validated_iff {s : Opened} (h : windowSystem.Reachable s) (tier : WindowScopeTier)
    (handle : TieredWindowHandle) (target : ScopeId) (P : Prop) :
    (validateInput tier s.manager handle target = .ok () →
      s.openedWith handle.windowId = some (target, some tier) ∧ P) ↔
    ∀ window, SynthesisWindowManager.Offers tier s.manager handle target window →
      window.tier = some tier ∧ P := by
  rw [validateInput_eq_ok_iff, forall_exists_index]
  refine forall₂_congr fun window hoffers => and_congr_left fun _ => ?_
  rw [recorded_of_reachable h _ window hoffers.1, hoffers.2.2.2.1]
  simp

/-- The tiers are kept apart just when a handle that claims a tier points at a window that was
opened at that tier, and no output carries a registered scope in place of its own. -/
theorem hierarchy_enforced_iff {s : Opened} (h : windowSystem.Reachable s)
    (handle : TieredWindowHandle) :
    (∀ domain outputs now input, new domain outputs now = .ok input →
      ((s.manager.validateDomainInput handle input = .ok () →
        s.openedWith handle.windowId = some (domain.scopeId, some .domain) ∧
          ∀ o ∈ input.channelOutputs, o.object.objectType = .channelRecap ∧
            o.object.scopeId ∈ domain.channelScopes) ↔
      ∀ window, SynthesisWindowManager.Offers .domain s.manager handle domain.scopeId window →
        window.tier = some .domain ∧ ∀ o ∈ outputs, o.object.scopeId ∈ domain.channelScopes)) ∧
    ∀ tenant outputs documents now input,
      TenantSynthesisInput.new tenant outputs documents now = .ok input →
      ((s.manager.validateTenantInput handle input = .ok () →
        s.openedWith handle.windowId = some (tenant.scopeId, some .tenant) ∧
          ∀ o ∈ input.domainOutputs, o.object.objectType = .domainSummary ∧
            o.object.scopeId ∈ tenant.domainScopes) ↔
      ∀ window, SynthesisWindowManager.Offers .tenant s.manager handle tenant.scopeId window →
        window.tier = some .tenant ∧ ∀ o ∈ outputs, o.object.scopeId ∈ tenant.domainScopes) := by
  constructor
  · intro domain outputs now input hnew
    rw [domainInput_new_ok hnew, ← validated_iff h]
    simp only [ChannelOutput.recap, true_and]
    rfl
  · intro tenant outputs documents now input hnew
    rw [tenantInput_new_ok hnew, ← validated_iff h]
    simp only [DomainOutput.summary, true_and]
    rfl

def channelRecap (scope : ScopeId) : ChannelOutput :=
  ⟨⟨1, scope, 2, .channelRecap, []⟩, scope, rfl⟩

def engineering : DomainMemoryObject := ⟨7, [3]⟩

def withWindow (tier : WindowScopeTier) : Opened :=
  WindowCall.next ⟨⟨∅, ∅⟩, fun _ => none⟩ (.openTieredWindow 5 7 tier 0 10)

theorem withWindow_reachable (tier : WindowScopeTier) :
    windowSystem.Reachable (withWindow tier) := .step (.init rfl) ⟨trivial, rfl⟩

theorem hierarchy_enforced_domain :
    (withWindow .domain).manager.validateDomainInput ⟨5, 7, .domain⟩
        ⟨7, [channelRecap 3], 0⟩ = .ok () ∧
      (withWindow .domain).openedWith 5 = some (7, some .domain) := by
  have hok : (withWindow .domain).manager.validateDomainInput ⟨5, 7, .domain⟩
      ⟨7, [channelRecap 3], 0⟩ = .ok () := by decide +kernel
  have henforced := (hierarchy_enforced_iff (withWindow_reachable .domain) ⟨5, 7, .domain⟩).1
    engineering [channelRecap 3] 0 ⟨7, [channelRecap 3], 0⟩ rfl
  refine ⟨hok, (henforced.mpr (fun window hoffers => ?_) hok).1⟩
  have hwindow : (withWindow .domain).manager.get 5 = some ⟨5, 7, 0, 10, .pending, some .domain⟩ := by
    decide +kernel
  cases hwindow.symm.trans hoffers.1
  exact ⟨rfl, by decide⟩

/-- A channel window under a handle that claims the domain tier, and a recap of an unregistered
channel under a registered scope, both pass. -/
theorem hierarchy_bypassed :
    (∃ s, windowSystem.Reachable s ∧ ∃ handle input,
      new engineering [channelRecap 3] 0 = .ok input ∧
      s.manager.validateDomainInput handle input = .ok () ∧
      s.openedWith handle.windowId = some (7, some .channel)) ∧
    ∃ s, windowSystem.Reachable s ∧ ∃ handle input,
      new engineering [{ channelRecap 4 with channelScope := 3 }] 0 =
        .ok input ∧
      s.manager.validateDomainInput handle input = .ok () ∧
      ∃ o ∈ input.channelOutputs, o.object.scopeId ∉ engineering.channelScopes := by
  constructor
  · exact ⟨withWindow .channel, withWindow_reachable .channel, ⟨5, 7, .domain⟩,
      ⟨7, [channelRecap 3], 0⟩, rfl, by decide +kernel, by decide +kernel⟩
  · exact ⟨withWindow .domain, withWindow_reachable .domain, ⟨5, 7, .domain⟩,
      ⟨7, [{ channelRecap 4 with channelScope := 3 }], 0⟩, rfl, by decide +kernel,
      _, List.mem_singleton_self _, by decide⟩

end Knowledge.Synthesis
