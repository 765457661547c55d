import Knowledge.Lib.Table

/-!
`server/internal/tenant/model.go` and `store.go`: a tenant's record, its members, and the
in-memory store of both.
-/

set_option autoImplicit false

namespace Knowledge.Tenancy

/-- A tier that the service does not know is kept as the text it came as. -/
inductive SynthesisTier where
  | basic
  | standard
  | premium
  | unknown (text : String)
  deriving DecidableEq

def SynthesisTier.valid : SynthesisTier → Bool
  | basic | standard | premium => true
  | unknown _ => false

structure Quota where
  requestsPerMin : Int
  synthesesPerDay : Int
  storageSoftCapBytes : Int
  deriving DecidableEq

namespace Quota

def default : Quota := ⟨1200, 500, 50*1024*1024*1024⟩

def isZero (q : Quota) : Bool := q = ⟨0, 0, 0⟩

def normalized (q : Quota) : Quota where
  requestsPerMin := if q.requestsPerMin ≤ 0 then default.requestsPerMin else q.requestsPerMin
  synthesesPerDay := if q.synthesesPerDay ≤ 0 then default.synthesesPerDay else q.synthesesPerDay
  storageSoftCapBytes :=
    if q.storageSoftCapBytes ≤ 0 then default.storageSoftCapBytes else q.storageSoftCapBytes

end Quota

structure Config where
  connectorLimit : Int
  synthesisTier : SynthesisTier
  retentionDays : Int
  quota : Quota
  deriving DecidableEq

def Config.default : Config := ⟨10, .standard, 365, .default⟩

structure CryptoKey where
  algorithm : String
  publicKeyHex : String
  deriving DecidableEq

structure Tenant where
  id : String
  name : String
  config : Config
  key : CryptoKey
  createdAt : Int

inductive MemberStatus where
  | invited
  | active
  | suspended
  deriving DecidableEq

structure Member where
  tenantId : String
  userId : String
  email : String
  status : MemberStatus
  updatedAt : Int

inductive StoreError where
  | notFound
  | conflict

def TenantsKeyed (tenants : Table String Tenant) : Prop :=
  ∀ id t, tenants.lookup id = some t → t.id = id

def MembersKeyed (members : Table String (Table String Member)) : Prop :=
  ∀ tenantId byUser userId m, members.lookup tenantId = some byUser →
    byUser.lookup userId = some m → m.tenantId = tenantId ∧ m.userId = userId

theorem TenantsKeyed.insert {tenants : Table String Tenant} (h : TenantsKeyed tenants)
    (t : Tenant) : TenantsKeyed (tenants.insert t.id t) := by
  intro id t' hl
  rw [Table.lookup_insert_ite] at hl
  split at hl
  · rename_i hid
    rw [← Option.some.inj hl, hid]
  · exact h id t' hl

theorem TenantsKeyed.erase {tenants : Table String Tenant} (h : TenantsKeyed tenants)
    (gone : String) : TenantsKeyed (tenants.erase gone) := by
  intro id t hl
  rw [Table.lookup_erase_ite] at hl
  split at hl
  · cases hl
  · exact h id t hl

theorem MembersKeyed.erase {members : Table String (Table String Member)}
    (h : MembersKeyed members) (gone : String) : MembersKeyed (members.erase gone) := by
  intro tenantId byUser userId m hl
  rw [Table.lookup_erase_ite] at hl
  split at hl
  · cases hl
  · exact h tenantId byUser userId m hl

theorem MembersKeyed.insert {members : Table String (Table String Member)}
    (h : MembersKeyed members) {tenantId : String} {byUser : Table String Member}
    (hb : ∀ userId m, byUser.lookup userId = some m → m.tenantId = tenantId ∧ m.userId = userId) :
    MembersKeyed (members.insert tenantId byUser) := by
  intro tenantId' byUser' userId m hl hm
  rw [Table.lookup_insert_ite] at hl
  split at hl
  · rename_i hid
    subst hid
    obtain rfl := Option.some.inj hl
    exact hb userId m hm
  · exact h tenantId' byUser' userId m hl hm

/-- Every row is stored under the id it has itself. -/
structure MemoryStore where
  tenants : Table String Tenant
  members : Table String (Table String Member)
  tenants_keyed : TenantsKeyed tenants
  members_keyed : MembersKeyed members

namespace MemoryStore

def empty : MemoryStore := ⟨∅, ∅, by simp [TenantsKeyed], by simp [MembersKeyed]⟩

section

variable (s : MemoryStore)

def createTenant (t : Tenant) : Except StoreError MemoryStore :=
  match s.tenants.lookup t.id with
  | some _ => .error .conflict
  | none => .ok { s with
    tenants := s.tenants.insert t.id t
    tenants_keyed := s.tenants_keyed.insert t }

def getTenant (id : String) : Except StoreError Tenant :=
  match s.tenants.lookup id with
  | some t => .ok t
  | none => .error .notFound

def updateTenant (t : Tenant) : Except StoreError MemoryStore :=
  match s.tenants.lookup t.id with
  | none => .error .notFound
  | some _ => .ok { s with
    tenants := s.tenants.insert t.id t
    tenants_keyed := s.tenants_keyed.insert t }

def membersOf (tenantId : String) : Table String Member :=
  (s.members.lookup tenantId).getD ∅

theorem membersOf_keyed {tenantId userId : String} {m : Member}
    (h : (s.membersOf tenantId).lookup userId = some m) :
    m.tenantId = tenantId ∧ m.userId = userId := by
  cases hb : s.members.lookup tenantId with
  | none => simp [membersOf, hb] at h
  | some byUser =>
    simp only [membersOf, hb, Option.getD_some] at h
    exact s.members_keyed tenantId byUser userId m hb h

def deleteTenant (id : String) : Except StoreError MemoryStore :=
  match s.tenants.lookup id with
  | none => .error .notFound
  | some _ => .ok {
    tenants := s.tenants.erase id
    members := s.members.erase id
    tenants_keyed := s.tenants_keyed.erase id
    members_keyed := s.members_keyed.erase id }

theorem keyed_upsert (m : Member) (userId : String) (m' : Member)
    (h : ((s.membersOf m.tenantId).insert m.userId m).lookup userId = some m') :
    m'.tenantId = m.tenantId ∧ m'.userId = userId := by
  rw [Table.lookup_insert_ite] at h
  split at h
  · rename_i hid
    rw [← Option.some.inj h, hid]
    exact ⟨rfl, rfl⟩
  · exact s.membersOf_keyed h

def upsertMember (m : Member) : Except StoreError MemoryStore :=
  match s.tenants.lookup m.tenantId with
  | none => .error .notFound
  | some _ => .ok { s with
    members := s.members.insert m.tenantId ((s.membersOf m.tenantId).insert m.userId m)
    members_keyed := s.members_keyed.insert (s.keyed_upsert m) }

def getMember (tenantId userId : String) : Except StoreError Member :=
  match s.members.lookup tenantId with
  | none => .error .notFound
  | some byUser =>
    match byUser.lookup userId with
    | none => .error .notFound
    | some m => .ok m

theorem keyed_remove (tenantId gone userId : String) (m : Member)
    (h : ((s.membersOf tenantId).erase gone).lookup userId = some m) :
    m.tenantId = tenantId ∧ m.userId = userId := by
  rw [Table.lookup_erase_ite] at h
  split at h
  · cases h
  · exact s.membersOf_keyed h

def deleteMember (tenantId userId : String) : Except StoreError MemoryStore :=
  match s.members.lookup tenantId with
  | none => .error .notFound
  | some byUser =>
    match byUser.lookup userId with
    | none => .error .notFound
    | some _ => .ok { s with
      members := s.members.insert tenantId ((s.membersOf tenantId).erase userId)
      members_keyed := s.members_keyed.insert (s.keyed_remove tenantId userId) }

def tenant (id : String) : Option Tenant := s.tenants.lookup id

def member (tenantId userId : String) : Option Member :=
  (s.membersOf tenantId).lookup userId

end

theorem getTenant_eq_ok {s : MemoryStore} {id : String} {t : Tenant} :
    s.getTenant id = .ok t ↔ s.tenant id = some t := by
  simp only [getTenant, tenant]
  split <;> simp_all

theorem getMember_eq_ok {s : MemoryStore} {tenantId userId : String} {m : Member} :
    s.getMember tenantId userId = .ok m ↔ s.member tenantId userId = some m := by
  simp only [getMember, member, membersOf]
  split
  · simp_all
  · rename_i byUser hb
    simp only [hb, Option.getD_some]
    split <;> simp_all

theorem tenant_id {s : MemoryStore} {id : String} {t : Tenant} (h : s.tenant id = some t) :
    t.id = id := s.tenants_keyed id t h

theorem member_ids {s : MemoryStore} {tenantId userId : String} {m : Member}
    (h : s.member tenantId userId = some m) : m.tenantId = tenantId ∧ m.userId = userId :=
  s.membersOf_keyed h

theorem updateTenant_ok {s s' : MemoryStore} {t : Tenant} (h : s.updateTenant t = .ok s') :
    (∃ row, s.tenant t.id = some row) ∧
      (∀ id, s'.tenant id = if id = t.id then some t else s.tenant id) ∧
      ∀ tenantId userId, s'.member tenantId userId = s.member tenantId userId := by
  simp only [updateTenant] at h
  split at h
  · cases h
  · rename_i row hrow
    obtain rfl := Except.ok.inj h
    refine ⟨⟨row, hrow⟩, fun id => ?_, fun tenantId userId => ?_⟩
    · simp only [tenant, Table.lookup_insert_ite]
    · simp only [member, membersOf]

theorem upsertMember_ok {s s' : MemoryStore} {m : Member} (h : s.upsertMember m = .ok s') :
    (∃ t, s.tenant m.tenantId = some t) ∧ (∀ id, s'.tenant id = s.tenant id) ∧
      ∀ tenantId userId, s'.member tenantId userId =
        if tenantId = m.tenantId ∧ userId = m.userId then some m
        else s.member tenantId userId := by
  simp only [upsertMember] at h
  split at h
  · cases h
  · rename_i t ht
    obtain rfl := Except.ok.inj h
    refine ⟨⟨t, ht⟩, fun id => rfl, fun tenantId userId => ?_⟩
    simp only [member, membersOf, Table.lookup_insert_ite]
    by_cases htid : tenantId = m.tenantId
    · subst htid
      simp [Table.lookup_insert_ite]
    · simp [htid]

theorem deleteTenant_ok {s s' : MemoryStore} {id : String} (h : s.deleteTenant id = .ok s') :
    ∀ id', s'.tenant id' = if id' = id then none else s.tenant id' := by
  simp only [deleteTenant] at h
  split at h
  · cases h
  · obtain rfl := Except.ok.inj h
    exact Table.lookup_erase_ite _ _

theorem deleteMember_ok {s s' : MemoryStore} {tenantId userId : String}
    (h : s.deleteMember tenantId userId = .ok s') : ∀ id, s'.tenant id = s.tenant id := by
  simp only [deleteMember] at h
  split at h
  · cases h
  · split at h
    · cases h
    · obtain rfl := Except.ok.inj h
      exact fun id => rfl

end MemoryStore

end Knowledge.Tenancy
