import Knowledge.Lib.Table
import Knowledge.Permission.Store

/-!
`crates/tenant_service/src`: `config.rs`, `lifecycle.rs`, `member.rs` and the in-memory tenant
registry of `tenant.rs`.
-/

set_option autoImplicit false

namespace Knowledge.TenantService
open Knowledge.Permission (Relation)
open Knowledge.Sync (Uuid)

def minMillis : Int := -8334601228800000

def maxMillis : Int := 8210266876799999

/-- `DateTime<Utc>`: nanoseconds since the epoch, within what the calendar has. -/
structure DateTime where
  nanos : Int
  lower : minMillis*1000000 ≤ nanos
  upper : nanos < (maxMillis+1)*1000000

namespace DateTime

def timestampMillis (t : DateTime) : Int := t.nanos / 1000000

def fromTimestampMillis (ms : Int) : Option DateTime :=
  if h : minMillis ≤ ms ∧ ms ≤ maxMillis then
    some ⟨ms*1000000, by omega, by omega⟩
  else none

theorem fromTimestampMillis_timestampMillis (t : DateTime) :
    ∃ u, fromTimestampMillis t.timestampMillis = some u ∧
      u.timestampMillis = t.timestampMillis := by
  have hlower := t.lower
  have hupper := t.upper
  have hfits : minMillis ≤ t.timestampMillis ∧ t.timestampMillis ≤ maxMillis := by
    unfold timestampMillis
    omega
  refine ⟨_, dif_pos hfits, ?_⟩
  simp [timestampMillis]

end DateTime

structure TenantKeyRef where
  handle : Uuid
  destroyed : Bool

def TenantKeyRef.destroy (self : TenantKeyRef) : TenantKeyRef := { self with destroyed := true }

structure StorageConfig where
  softCapBytes : Option Nat
  hardCapBytes : Option Nat
  serverColdTier : Bool

structure SynthesisConfig where
  tenantSynthesisEnabled : Bool
  tenantWindowSecs : Nat
  domainWindowSecs : Nat
  managedEndpoint : Option String

structure TenantConfig where
  rootKey : TenantKeyRef
  storage : StorageConfig
  synthesis : SynthesisConfig

inductive TenantStatus where
  | active | suspended | deleted
  deriving DecidableEq

inductive TenantMemberStatus where
  | active | suspended | removed
  deriving DecidableEq

def TenantStatus.asStr : TenantStatus → String
  | active => "active"
  | suspended => "suspended"
  | deleted => "deleted"

def TenantMemberStatus.asStr : TenantMemberStatus → String
  | active => "active"
  | suspended => "suspended"
  | removed => "removed"

inductive TenantError where
  | notFound (id : Uuid)
  | invalidLifecycleTransition (current target : TenantStatus)
  | invalidConfig (message : String)
  | alreadyExists (id : Uuid)
  | memberAlreadyProvisioned (user : Uuid)
  | memberNotProvisioned (user : Uuid)
  | memberAlreadyRemoved (user : Uuid)
  | persistence (message : String)
  | sqlite
  | crypto
  deriving DecidableEq

def StorageConfig.validate (self : StorageConfig) : Except TenantError Unit :=
  match self.softCapBytes, self.hardCapBytes with
  | some soft, some hard =>
    if hard < soft then .error (.invalidConfig "soft_cap_bytes must be <= hard_cap_bytes")
    else .ok ()
  | _, _ => .ok ()

def SynthesisConfig.validate (self : SynthesisConfig) : Except TenantError Unit :=
  if self.tenantWindowSecs < 60 ∨ self.domainWindowSecs < 60 then
    .error (.invalidConfig "synthesis windows must be at least 60 seconds")
  else .ok ()

def TenantConfig.validate (self : TenantConfig) : Except TenantError Unit :=
  match self.storage.validate with
  | .error err => .error err
  | .ok () => self.synthesis.validate

def TenantStatus.validateTransition (self target : TenantStatus) : Except TenantError Unit :=
  match self, target with
  | active, suspended | active, deleted | suspended, active | suspended, deleted => .ok ()
  | _, _ => .error (.invalidLifecycleTransition self target)

abbrev TenantId := Uuid

structure Tenant where
  id : TenantId
  name : String
  status : TenantStatus
  config : TenantConfig
  createdAt : DateTime
  updatedAt : DateTime

structure TenantMember where
  tenantId : Uuid
  userId : Uuid
  role : Relation
  status : TenantMemberStatus
  provisionedAt : DateTime
  updatedAt : DateTime

def Tenant.new (id : TenantId) (name : String) (config : TenantConfig) (now : DateTime) : Tenant :=
  ⟨id, name, .active, config, now, now⟩

def TenantMember.new (tenantId userId : Uuid) (role : Relation) (now : DateTime) : TenantMember :=
  ⟨tenantId, userId, role, .active, now, now⟩

structure TenantRegistry where
  tenants : Table TenantId Tenant
  members : Table (TenantId × Uuid) TenantMember

namespace TenantRegistry

def new : TenantRegistry := ⟨∅, ∅⟩

section

variable (self : TenantRegistry)

def get (id : TenantId) : Except TenantError Tenant :=
  match self.tenants.lookup id with
  | none => .error (.notFound id)
  | some tenant => .ok tenant

def getMember (tenantId userId : Uuid) : Except TenantError TenantMember :=
  match self.members.lookup (tenantId, userId) with
  | none => .error (.memberNotProvisioned userId)
  | some member => .ok member

def create (id : TenantId) (name : String) (config : TenantConfig)
    (now : DateTime) : Except TenantError TenantRegistry :=
  match config.validate with
  | .error err => .error err
  | .ok () =>
    match self.tenants.lookup id with
    | some _ => .error (.alreadyExists id)
    | none => .ok { self with tenants := self.tenants.insert id (.new id name config now) }

def transition (id : TenantId) (target : TenantStatus) (now : DateTime) :
    Except TenantError TenantRegistry :=
  match self.tenants.lookup id with
  | none => .error (.notFound id)
  | some tenant =>
    match tenant.status.validateTransition target with
    | .error err => .error err
    | .ok () =>
      .ok { self with
        tenants := self.tenants.insert id { tenant with status := target, updatedAt := now } }

def suspend (id : TenantId) (now : DateTime) :
    Except TenantError TenantRegistry := self.transition id .suspended now

def activate (id : TenantId) (now : DateTime) :
    Except TenantError TenantRegistry := self.transition id .active now

def delete (id : TenantId) (now : DateTime) :
    Except TenantError TenantRegistry :=
  match self.tenants.lookup id with
  | none => .error (.notFound id)
  | some tenant =>
    match tenant.status.validateTransition .deleted with
    | .error err => .error err
    | .ok () =>
      let config := { tenant.config with rootKey := tenant.config.rootKey.destroy }
      .ok { self with
        tenants := self.tenants.insert id
          { tenant with config, status := .deleted, updatedAt := now } }

def requireActive (tenantId : TenantId) : Except TenantError Unit :=
  match self.tenants.lookup tenantId with
  | none => .error (.notFound tenantId)
  | some tenant =>
    if tenant.status ≠ .active then
      .error (.invalidLifecycleTransition tenant.status .active)
    else .ok ()

def setMember (key : TenantId × Uuid) (member : TenantMember) :
    TenantRegistry :=
  { self with members := self.members.insert key member }

def addMember (tenantId userId : Uuid) (role : Relation)
    (now : DateTime) : Except TenantError (TenantRegistry × TenantMember) :=
  match self.requireActive tenantId with
  | .error err => .error err
  | .ok () =>
    let key := (tenantId, userId)
    let member : TenantMember := .new tenantId userId role now
    match self.members.lookup key with
    | some existing =>
      if existing.status ≠ .removed then .error (.memberAlreadyProvisioned userId)
      else .ok (self.setMember key member, member)
    | none => .ok (self.setMember key member, member)

def liveMember (tenantId userId : Uuid) : Except TenantError TenantMember :=
  match self.requireActive tenantId with
  | .error err => .error err
  | .ok () =>
    match self.members.lookup (tenantId, userId) with
    | none => .error (.memberNotProvisioned userId)
    | some member =>
      if member.status = .removed then .error (.memberAlreadyRemoved userId) else .ok member

def removeMember (tenantId userId : Uuid) (now : DateTime) :
    Except TenantError TenantRegistry :=
  match self.liveMember tenantId userId with
  | .error err => .error err
  | .ok member =>
    .ok (self.setMember (tenantId, userId) { member with status := .removed, updatedAt := now })

def updateRole (tenantId userId : Uuid) (role : Relation)
    (now : DateTime) : Except TenantError TenantRegistry :=
  match self.liveMember tenantId userId with
  | .error err => .error err
  | .ok member => .ok (self.setMember (tenantId, userId) { member with role, updatedAt := now })

def insertPersisted (tenant : Tenant) :
    Except TenantError TenantRegistry :=
  match self.tenants.lookup tenant.id with
  | some _ => .error (.alreadyExists tenant.id)
  | none => .ok { self with tenants := self.tenants.insert tenant.id tenant }

def insertPersistedMember (member : TenantMember) :
    Except TenantError TenantRegistry :=
  match self.tenants.lookup member.tenantId with
  | none => .error (.notFound member.tenantId)
  | some _ => .ok (self.setMember (member.tenantId, member.userId) member)

end

end TenantRegistry

end Knowledge.TenantService
