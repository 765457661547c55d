import Knowledge.Crypto.Vault
import Knowledge.Lib.Collect
import Knowledge.Tenancy.Registry

/-!
`crates/tenant_service/src/persist.rs`: the tenant registry mirrored to a database. A tenant is a
sealed row, a member a plain one with its instants in milliseconds.
-/

set_option autoImplicit false

namespace Knowledge.TenantService
open Knowledge.Cipher
open Knowledge.Collect
open Knowledge.Permission (Relation)
open Knowledge.Sync (Uuid)
open Knowledge.Transition
open Knowledge.Vault
open TenantRegistry

abbrev Aad := String × Uuid

def tenantAad (id : Uuid) : Aad := ("tenant_row:v1:", id)

def pageContext : String := "sqlcipher:tenants:v1"

def payloadContext : String := "tenant_row:v1"

structure TenantRow where
  name : String
  status : String
  createdAt : Int
  updatedAt : Int
  deletedAt : Option Int
  rootKeyRef : Uuid
  payload : Sealed DerivedKey Nat Aad Tenant

/-- The two configurations are stored as JSON, which nothing reads back. -/
structure ConfigRow where
  encryptionKeyRef : Uuid
  storageConfig : StorageConfig
  synthesisConfig : SynthesisConfig

structure MemberRow where
  role : String
  status : String
  createdAt : Int
  updatedAt : Int

structure Rows where
  tenants : Table Uuid TenantRow
  members : Table (Uuid × Uuid) MemberRow
  configs : Table Uuid ConfigRow

inductive ConfigFault where
  | storage | synthesis | execute

def ConfigFault.error : ConfigFault → TenantError
  | storage => .persistence "storage config could not be serialised"
  | synthesis => .persistence "synthesis config could not be serialised"
  | execute => .sqlite

def ofVault : VaultError → TenantError
  | .sqlite => .sqlite
  | .crypto => .crypto
  | .persistence message => .persistence message

namespace Rows

def persistTenantIn (rows : Rows) (key : DerivedKey) (tenant : Tenant) (nonce : Nat)
    (fault : Option WriteFault) : Except TenantError Rows :=
  match fault with
  | some fault => .error (ofVault (fault.error "tenant payload could not be serialised"))
  | none =>
    let row : TenantRow :=
      { name := tenant.name
        status := tenant.status.asStr
        createdAt := tenant.createdAt.timestampMillis
        updatedAt := tenant.updatedAt.timestampMillis
        deletedAt := none
        rootKeyRef := tenant.config.rootKey.handle
        payload := ⟨key, nonce, tenantAad tenant.id, tenant⟩ }
    -- `ON CONFLICT(id)` leaves `created_at` and `deleted_at` alone
    let row := match rows.tenants.lookup tenant.id with
      | none => row
      | some old => { row with createdAt := old.createdAt, deletedAt := old.deletedAt }
    .ok { rows with tenants := rows.tenants.insert tenant.id row }

def persistConfigIn (rows : Rows) (id : TenantId) (config : TenantConfig)
    (fault : Option ConfigFault) : Except TenantError Rows :=
  match fault with
  | some fault => .error fault.error
  | none =>
    .ok { rows with
      configs := rows.configs.insert id
        ⟨config.rootKey.handle, config.storage, config.synthesis⟩ }

def stampDeleted (rows : Rows) (id : TenantId) (now : DateTime) : Rows :=
  match rows.tenants.lookup id with
  | none => rows
  | some row =>
    { rows with
      tenants := rows.tenants.insert id { row with deletedAt := some now.timestampMillis } }

def persistMember (rows : Rows) (member : TenantMember) (fails : Bool) : Except TenantError Rows :=
  if fails then .error .sqlite
  else
    let key := (member.tenantId, member.userId)
    let row : MemberRow :=
      { role := member.role.asStr
        status := member.status.asStr
        createdAt := member.provisionedAt.timestampMillis
        updatedAt := member.updatedAt.timestampMillis }
    -- `ON CONFLICT(tenant_id, user_id)` leaves `created_at` alone
    let row := match rows.members.lookup key with
      | none => row
      | some old => { row with createdAt := old.createdAt }
    .ok { rows with members := rows.members.insert key row }

end Rows

structure PersistentTenantRegistry where
  registry : TenantRegistry
  conn : DbFile Rows
  payloadKey : DerivedKey
  masterKey : MasterKey

open PersistentTenantRegistry

/-- What the statements of a deletion fail in. -/
structure DeleteFaults where
  beginFails : Bool
  tenant : Option WriteFault
  config : Option ConfigFault
  updateFails : Bool
  commitFails : Bool

def DeleteFaults.none : DeleteFaults := ⟨false, .none, .none, false, false⟩

namespace PersistentTenantRegistry

def setRows (self : PersistentTenantRegistry) (rows : Rows) : PersistentTenantRegistry :=
  { self with conn := { self.conn with rows } }

def persistTenant (self : PersistentTenantRegistry) (tenant : Tenant) (nonce : Nat)
    (fault : Option WriteFault) : PersistentTenantRegistry × Except TenantError Unit :=
  match self.conn.rows.persistTenantIn self.payloadKey tenant nonce fault with
  | .error err => (self, .error err)
  | .ok rows => (self.setRows rows, .ok ())

def persistMember (self : PersistentTenantRegistry) (member : TenantMember) (fails : Bool) :
    PersistentTenantRegistry × Except TenantError Unit :=
  match self.conn.rows.persistMember member fails with
  | .error err => (self, .error err)
  | .ok rows => (self.setRows rows, .ok ())

def create (self : PersistentTenantRegistry) (id : TenantId) (name : String)
    (config : TenantConfig) (now : DateTime) (nonce : Nat) (tenantFault : Option WriteFault)
    (configFault : Option ConfigFault) :
    PersistentTenantRegistry × Except TenantError TenantId :=
  match self.registry.create id name config now with
  | .error err => (self, .error err)
  | .ok registry =>
    let self := { self with registry }
    match registry.get id with
    | .error err => (self, .error err)
    | .ok tenant =>
      match self.persistTenant tenant nonce tenantFault with
      | (self, .error err) => (self, .error err)
      | (self, .ok ()) =>
        match self.conn.rows.persistConfigIn id tenant.config configFault with
        | .error err => (self, .error err)
        | .ok rows => (self.setRows rows, .ok id)

def mirrorTenant (self : PersistentTenantRegistry) (changed : Except TenantError TenantRegistry)
    (id : TenantId) (nonce : Nat) (fault : Option WriteFault) :
    PersistentTenantRegistry × Except TenantError Unit :=
  match changed with
  | .error err => (self, .error err)
  | .ok registry =>
    let self := { self with registry }
    match registry.get id with
    | .error err => (self, .error err)
    | .ok tenant => self.persistTenant tenant nonce fault

def suspend (self : PersistentTenantRegistry) (id : TenantId) (now : DateTime) (nonce : Nat)
    (fault : Option WriteFault) : PersistentTenantRegistry × Except TenantError Unit :=
  self.mirrorTenant (self.registry.suspend id now) id nonce fault

def activate (self : PersistentTenantRegistry) (id : TenantId) (now : DateTime) (nonce : Nat)
    (fault : Option WriteFault) : PersistentTenantRegistry × Except TenantError Unit :=
  self.mirrorTenant (self.registry.activate id now) id nonce fault

def deleteTx (self : PersistentTenantRegistry) (tenant : Tenant) (id : TenantId)
    (deletedAt : DateTime) (nonce : Nat) (faults : DeleteFaults) : Except TenantError Rows :=
  if faults.beginFails then .error .sqlite
  else
    match self.conn.rows.persistTenantIn self.payloadKey tenant nonce faults.tenant with
    | .error err => .error err
    | .ok rows =>
      match rows.persistConfigIn id tenant.config faults.config with
      | .error err => .error err
      | .ok rows =>
        if faults.updateFails || faults.commitFails then .error .sqlite
        else .ok (rows.stampDeleted id deletedAt)

def delete (self : PersistentTenantRegistry) (id : TenantId) (now deletedAt : DateTime)
    (nonce : Nat) (faults : DeleteFaults) : PersistentTenantRegistry × Except TenantError Unit :=
  match self.registry.delete id now with
  | .error err => (self, .error err)
  | .ok registry =>
    let self := { self with registry }
    match registry.get id with
    | .error err => (self, .error err)
    | .ok tenant =>
      match self.deleteTx tenant id deletedAt nonce faults with
      | .error err => (self, .error err)
      | .ok rows => (self.setRows rows, .ok ())

def addMember (self : PersistentTenantRegistry) (tenantId userId : Uuid) (role : Relation)
    (now : DateTime) (fails : Bool) :
    PersistentTenantRegistry × Except TenantError TenantMember :=
  match self.registry.addMember tenantId userId role now with
  | .error err => (self, .error err)
  | .ok (registry, member) =>
    match { self with registry }.persistMember member fails with
    | (self, .error err) => (self, .error err)
    | (self, .ok ()) => (self, .ok member)

def mirrorMember (self : PersistentTenantRegistry) (changed : Except TenantError TenantRegistry)
    (tenantId userId : Uuid) (fails : Bool) :
    PersistentTenantRegistry × Except TenantError Unit :=
  match changed with
  | .error err => (self, .error err)
  | .ok registry =>
    let self := { self with registry }
    match registry.getMember tenantId userId with
    | .error err => (self, .error err)
    | .ok member => self.persistMember member fails

def removeMember (self : PersistentTenantRegistry) (tenantId userId : Uuid) (now : DateTime)
    (fails : Bool) : PersistentTenantRegistry × Except TenantError Unit :=
  self.mirrorMember (self.registry.removeMember tenantId userId now) tenantId userId fails

def updateRole (self : PersistentTenantRegistry) (tenantId userId : Uuid) (role : Relation)
    (now : DateTime) (fails : Bool) : PersistentTenantRegistry × Except TenantError Unit :=
  self.mirrorMember (self.registry.updateRole tenantId userId role now) tenantId userId fails

end PersistentTenantRegistry

def parseRelation (tag : String) : Except TenantError Relation :=
  match Relation.all.find? fun r => r.asStr = tag with
  | none => .error (.persistence "unknown relation tag on disk")
  | some role => .ok role

def parseMemberStatus (tag : String) : Except TenantError TenantMemberStatus :=
  match [TenantMemberStatus.active, .suspended, .removed].find? fun s => s.asStr = tag with
  | none => .error (.persistence "unknown member-status tag on disk")
  | some status => .ok status

def msToDt (ms : Int) : Except TenantError DateTime :=
  match DateTime.fromTimestampMillis ms with
  | none => .error (.persistence "timestamp column out of range for DateTime<Utc>")
  | some t => .ok t

structure LoadFault where
  tenantsFail : Bool
  membersFail : Bool

namespace Rows

def readTenant (key : DerivedKey) (id : Uuid) (row : TenantRow) : Except TenantError Tenant :=
  match row.payload.openWith key (tenantAad id) with
  | none => .error .crypto
  | some tenant =>
    if tenant.id ≠ id then .error (.persistence "tenant id does not match its row")
    else .ok tenant

def readMember (key : Uuid × Uuid) (row : MemberRow) : Except TenantError TenantMember := do
  let role ← parseRelation row.role
  let status ← parseMemberStatus row.status
  let createdAt ← msToDt row.createdAt
  let updatedAt ← msToDt row.updatedAt
  return ⟨key.1, key.2, role, status, createdAt, updatedAt⟩

def orderedTenants (rows : Rows) : List (Uuid × TenantRow) :=
  rows.tenants.rows.insertionSort fun a b => a.2.createdAt ≤ b.2.createdAt

def orderedMembers (rows : Rows) : List ((Uuid × Uuid) × MemberRow) :=
  rows.members.rows.insertionSort fun a b =>
    a.1.1.toNat < b.1.1.toNat ∨ a.1.1 = b.1.1 ∧ a.2.createdAt ≤ b.2.createdAt

def loadTenants (rows : Rows) (key : DerivedKey) (fails : Bool) :
    Except TenantError (List Tenant) :=
  if fails then .error .sqlite
  else rows.orderedTenants.mapM fun e => readTenant key e.1 e.2

def loadMembers (rows : Rows) (fails : Bool) : Except TenantError (List TenantMember) :=
  if fails then .error .sqlite
  else rows.orderedMembers.mapM fun e => readMember e.1 e.2

def loadAll (rows : Rows) (key : DerivedKey) (fault : LoadFault) :
    Except TenantError TenantRegistry := do
  let tenants ← rows.loadTenants key fault.tenantsFail
  let members ← rows.loadMembers fault.membersFail
  let registry ← tenants.foldlM TenantRegistry.insertPersisted .new
  members.foldlM TenantRegistry.insertPersistedMember registry

end Rows

namespace PersistentTenantRegistry

def emptyFile : DbFile Rows := ⟨none, 0, ⟨∅, ∅, ∅⟩⟩

def «open» (file : Option (DbFile Rows)) (masterKey : MasterKey) (fault : OpenFault)
    (load : LoadFault) : DbFile Rows × Except TenantError PersistentTenantRegistry :=
  match (file.getD emptyFile).unlock (deriveKey masterKey pageContext) fault with
  | (file, .error err) => (file, .error (ofVault err))
  | (file, .ok ()) =>
    let payloadKey := deriveKey masterKey payloadContext
    match file.rows.loadAll payloadKey load with
    | .error err => (file, .error err)
    | .ok registry => (file, .ok ⟨registry, file, payloadKey, masterKey⟩)

end PersistentTenantRegistry

abbrev World := Process Rows PersistentTenantRegistry

/-- The calls of a run, each with what it draws, reads off the clock and fails in. -/
inductive Call where
  | create (id : TenantId) (name : String) (config : TenantConfig) (now : DateTime) (nonce : Nat)
      (tenantFault : Option WriteFault) (configFault : Option ConfigFault)
  | suspend (id : TenantId) (now : DateTime) (nonce : Nat) (fault : Option WriteFault)
  | activate (id : TenantId) (now : DateTime) (nonce : Nat) (fault : Option WriteFault)
  | delete (id : TenantId) (now deletedAt : DateTime) (nonce : Nat) (faults : DeleteFaults)
  | addMember (tenantId userId : Uuid) (role : Relation) (now : DateTime) (fails : Bool)
  | removeMember (tenantId userId : Uuid) (now : DateTime) (fails : Bool)
  | updateRole (tenantId userId : Uuid) (role : Relation) (now : DateTime) (fails : Bool)

def PersistentTenantRegistry.perform (p : PersistentTenantRegistry) :
    Call → PersistentTenantRegistry
  | .create id name config now nonce tenantFault configFault =>
    (p.create id name config now nonce tenantFault configFault).1
  | .suspend id now nonce fault => (p.suspend id now nonce fault).1
  | .activate id now nonce fault => (p.activate id now nonce fault).1
  | .delete id now deletedAt nonce faults => (p.delete id now deletedAt nonce faults).1
  | .addMember tenantId userId role now fails => (p.addMember tenantId userId role now fails).1
  | .removeMember tenantId userId now fails => (p.removeMember tenantId userId now fails).1
  | .updateRole tenantId userId role now fails => (p.updateRole tenantId userId role now fails).1

inductive Event where
  | call (call : Call)
  | close
  | «open» (fault : OpenFault) (load : LoadFault)

def World.next (masterKey : MasterKey) : World → Event → World
  | .opened p, .call call => .opened (p.perform call)
  | .opened p, .close => .closed (some p.conn)
  | .closed file, .open fault load =>
    match PersistentTenantRegistry.open file masterKey fault load with
    | (file, .error _) => .closed (some file)
    | (_, .ok p) => .opened p
  | w, _ => w

def system (masterKey : MasterKey) : System World Event :=
  .ofNext (· = .closed none) (fun _ _ => True) (World.next masterKey)

def stored (member : TenantMember) : Relation × TenantMemberStatus × Int × Int :=
  (member.role, member.status, member.provisionedAt.timestampMillis,
    member.updatedAt.timestampMillis)

/-- The file opens anew to the same tenants, and to the same members at the stored precision. -/
def PersistentTenantRegistry.Reloads (p : PersistentTenantRegistry) : Prop :=
  ∃ left q, PersistentTenantRegistry.open (some p.conn) p.masterKey .none ⟨false, false⟩ =
      (left, .ok q) ∧
    (∀ id, q.registry.tenants.lookup id = p.registry.tenants.lookup id) ∧
    ∀ key, (q.registry.members.lookup key).map stored = (p.registry.members.lookup key).map stored

def memberRow (member : TenantMember) : MemberRow :=
  ⟨member.role.asStr, member.status.asStr, member.provisionedAt.timestampMillis,
    member.updatedAt.timestampMillis⟩

def SealedFor (key : DerivedKey) (id : Uuid) (row : TenantRow) (tenant : Tenant) : Prop :=
  tenant.id = id ∧ ∃ nonce, row.payload = ⟨key, nonce, tenantAad id, tenant⟩

structure RowsMirror (key : DerivedKey) (rows : Rows) (registry : TenantRegistry) : Prop where
  tenants : ∀ id, Option.Rel (SealedFor key id) (rows.tenants.lookup id)
    (registry.tenants.lookup id)
  members : ∀ k, rows.members.lookup k = (registry.members.lookup k).map memberRow
  owned : ∀ k member, registry.members.lookup k = some member →
    (member.tenantId, member.userId) = k ∧ registry.tenants.lookup k.1 ≠ none

/-- The same tenants, and the same members at the stored precision. -/
def Agree (r r' : TenantRegistry) : Prop :=
  (∀ id, r.tenants.lookup id = r'.tenants.lookup id) ∧
    ∀ k, (r.members.lookup k).map stored = (r'.members.lookup k).map stored

theorem parseRelation_asStr (role : Relation) : parseRelation role.asStr = .ok role := by
  cases role <;> decide +kernel

theorem parseMemberStatus_asStr (status : TenantMemberStatus) :
    parseMemberStatus status.asStr = .ok status := by
  cases status <;> decide +kernel

theorem readMember_memberRow (k : Uuid × Uuid) (member : TenantMember) :
    ∃ read, Rows.readMember k (memberRow member) = .ok read ∧
      (read.tenantId, read.userId) = k ∧ stored read = stored member := by
  obtain ⟨created, hcreated, hcms⟩ :=
    DateTime.fromTimestampMillis_timestampMillis member.provisionedAt
  obtain ⟨updated, hupdated, hums⟩ :=
    DateTime.fromTimestampMillis_timestampMillis member.updatedAt
  refine ⟨⟨k.1, k.2, member.role, member.status, created, updated⟩, ?_, rfl, ?_⟩
  · simp only [Rows.readMember, memberRow, parseRelation_asStr, parseMemberStatus_asStr, msToDt,
      hcreated, hupdated]
    rfl
  · simp only [stored, hcms, hums]

theorem memberRow_of_stored {m m' : TenantMember} (h : stored m = stored m') :
    memberRow m = memberRow m' := by
  simp only [stored, Prod.mk.injEq] at h
  simp [memberRow, h]

theorem insertPersisted_all {ts : List Tenant} {r : TenantRegistry}
    (hnodup : (ts.map Tenant.id).Nodup) (hfresh : ∀ t ∈ ts, r.tenants.lookup t.id = none) :
    ∃ r', ts.foldlM insertPersisted r = .ok r' ∧ r'.members = r.members ∧
      (∀ t ∈ ts, r'.tenants.lookup t.id = some t) ∧
      ∀ id, id ∉ ts.map Tenant.id → r'.tenants.lookup id = r.tenants.lookup id := by
  induction ts generalizing r with
  | nil => exact ⟨r, rfl, rfl, by simp, fun _ _ => rfl⟩
  | cons t ts ih =>
    rw [List.map_cons, List.nodup_cons] at hnodup
    have hinsert : r.insertPersisted t = .ok { r with tenants := r.tenants.insert t.id t } := by
      rw [insertPersisted, hfresh t List.mem_cons_self]
    have hfresh' : ∀ t' ∈ ts, (r.tenants.insert t.id t).lookup t'.id = none := by
      intro t' ht'
      have hne : t'.id ≠ t.id := fun heq => hnodup.1 (heq ▸ List.mem_map_of_mem ht')
      rw [AList.lookup_insert_ne hne]
      exact hfresh t' (List.mem_cons_of_mem _ ht')
    obtain ⟨r', hr', hmembers, hin, hout⟩ :=
      ih (r := { r with tenants := r.tenants.insert t.id t }) hnodup.2 hfresh'
    refine ⟨r', ?_, hmembers, fun t' ht' => ?_, fun id hid => ?_⟩
    · rw [List.foldlM_cons, hinsert]
      exact hr'
    · obtain rfl | ht' := List.mem_cons.mp ht'
      · rw [hout _ hnodup.1]
        exact AList.lookup_insert _
      · exact hin t' ht'
    · rw [List.map_cons, List.mem_cons, not_or] at hid
      rw [hout id hid.2]
      exact AList.lookup_insert_ne hid.1

theorem insertPersistedMember_all {ms : List TenantMember} {r : TenantRegistry}
    (hnodup : (ms.map fun m => (m.tenantId, m.userId)).Nodup)
    (howner : ∀ m ∈ ms, r.tenants.lookup m.tenantId ≠ none) :
    ∃ r', ms.foldlM insertPersistedMember r = .ok r' ∧ r'.tenants = r.tenants ∧
      (∀ m ∈ ms, r'.members.lookup (m.tenantId, m.userId) = some m) ∧
      ∀ k, k ∉ ms.map (fun m => (m.tenantId, m.userId)) →
        r'.members.lookup k = r.members.lookup k := by
  induction ms generalizing r with
  | nil => exact ⟨r, rfl, rfl, by simp, fun _ _ => rfl⟩
  | cons m ms ih =>
    rw [List.map_cons, List.nodup_cons] at hnodup
    have hinsert : r.insertPersistedMember m = .ok (r.setMember (m.tenantId, m.userId) m) := by
      unfold insertPersistedMember
      cases ht : r.tenants.lookup m.tenantId with
      | none => exact absurd ht (howner m List.mem_cons_self)
      | some t => rfl
    obtain ⟨r', hr', htenants, hin, hout⟩ :=
      ih (r := r.setMember (m.tenantId, m.userId) m) hnodup.2
        (fun m' hm' => howner m' (List.mem_cons_of_mem _ hm'))
    refine ⟨r', ?_, htenants, fun m' hm' => ?_, fun k hk => ?_⟩
    · rw [List.foldlM_cons, hinsert]
      exact hr'
    · obtain rfl | hm' := List.mem_cons.mp hm'
      · rw [hout _ hnodup.1]
        exact AList.lookup_insert _
      · exact hin m' hm'
    · rw [List.map_cons, List.mem_cons, not_or] at hk
      rw [hout k hk.2]
      exact AList.lookup_insert_ne hk.1

theorem nodup_insertionSort_keys {K V : Type} (t : Table K V) (le : K × V → K × V → Prop)
    [DecidableRel le] : ((t.rows.insertionSort le).map Prod.fst).Nodup := by
  rw [((List.perm_insertionSort _ _).map _).nodup_iff]
  exact Table.keys_nodup_rows t

theorem mem_insertionSort_rows {K V : Type} [DecidableEq K] {t : Table K V}
    {le : K × V → K × V → Prop} [DecidableRel le] {e : K × V} :
    e ∈ t.rows.insertionSort le ↔ t.lookup e.1 = some e.2 := by
  rw [(List.perm_insertionSort _ _).mem_iff, Table.mem_rows_iff]

section Load

variable {key : DerivedKey} {rows : Rows} {r : TenantRegistry}

theorem RowsMirror.tenant_of_row (h : RowsMirror key rows r) {id : Uuid} {row : TenantRow}
    (hrow : rows.tenants.lookup id = some row) :
    ∃ tenant, r.tenants.lookup id = some tenant ∧ SealedFor key id row tenant := by
  have hid := h.tenants id
  rw [hrow] at hid
  cases ht : r.tenants.lookup id with
  | none => simp [ht] at hid
  | some tenant =>
    rw [ht, Option.rel_some_some] at hid
    exact ⟨tenant, rfl, hid⟩

theorem RowsMirror.row_of_tenant (h : RowsMirror key rows r) {id : Uuid} {tenant : Tenant}
    (ht : r.tenants.lookup id = some tenant) :
    ∃ row, rows.tenants.lookup id = some row ∧ SealedFor key id row tenant := by
  have hid := h.tenants id
  rw [ht] at hid
  cases hrow : rows.tenants.lookup id with
  | none => simp [hrow] at hid
  | some row =>
    rw [hrow, Option.rel_some_some] at hid
    exact ⟨row, rfl, hid⟩

def Keyed (r : TenantRegistry) : Prop :=
  ∀ k member, r.members.lookup k = some member → (member.tenantId, member.userId) = k

theorem RowsMirror.of_agree (h : RowsMirror key rows r) {r' : TenantRegistry} (ha : Agree r' r)
    (hkeyed : Keyed r') : RowsMirror key rows r' := by
  have hmember : ∀ k, (r'.members.lookup k).map memberRow = (r.members.lookup k).map memberRow := by
    intro k
    have hk := ha.2 k
    cases hm : r.members.lookup k with
    | none =>
      rw [hm, Option.map_none, Option.map_eq_none_iff] at hk
      rw [hk]
    | some member =>
      rw [hm, Option.map_some, Option.map_eq_some_iff] at hk
      obtain ⟨m, hm', hstored⟩ := hk
      rw [hm', Option.map_some, Option.map_some, memberRow_of_stored hstored]
  refine ⟨fun id => ?_, fun k => ?_, fun k m hm => ⟨hkeyed k m hm, ?_⟩⟩
  · rw [ha.1]
    exact h.tenants id
  · rw [h.members, hmember]
  · have hk := hmember k
    rw [hm, Option.map_some, eq_comm, Option.map_eq_some_iff] at hk
    obtain ⟨old, hold, -⟩ := hk
    rw [ha.1]
    exact (h.owned k old hold).2

theorem SealedFor.read {id : Uuid} {row : TenantRow} {tenant : Tenant}
    (h : SealedFor key id row tenant) : Rows.readTenant key id row = .ok tenant := by
  obtain ⟨hid, nonce, hpayload⟩ := h
  rw [Rows.readTenant, hpayload, Sealed.openWith_mk]
  simp [hid]

theorem RowsMirror.loadTenants (h : RowsMirror key rows r) :
    ∃ ts loaded, rows.loadTenants key false = .ok ts ∧
      ts.foldlM insertPersisted .new = .ok loaded ∧ loaded.members = ∅ ∧
      ∀ id, loaded.tenants.lookup id = r.tenants.lookup id := by
  have hread : ∀ e ∈ rows.orderedTenants, ∃ t, Rows.readTenant key e.1 e.2 = .ok t := by
    intro e he
    obtain ⟨tenant, -, hsealed⟩ := h.tenant_of_row (mem_insertionSort_rows.mp he)
    exact ⟨tenant, hsealed.read⟩
  obtain ⟨ts, hts, hall⟩ := mapM_ok hread
  have hids : ts.map Tenant.id = rows.orderedTenants.map Prod.fst := by
    refine map_eq hall fun e _ t het => ?_
    unfold Rows.readTenant at het
    split at het
    · cases het
    · split at het
      · cases het
      · rename_i hid
        rw [← Except.ok.inj het]
        exact not_not.mp hid
  have hnodup : (ts.map Tenant.id).Nodup := hids ▸ nodup_insertionSort_keys _ _
  obtain ⟨loaded, hloaded, hmembers, hin, hout⟩ :=
    insertPersisted_all (r := .new) hnodup fun _ _ => rfl
  refine ⟨ts, loaded, hts, hloaded, hmembers, fun id => ?_⟩
  cases hrow : rows.tenants.lookup id with
  | none =>
    have hnot : id ∉ ts.map Tenant.id := by
      rw [hids]
      intro hmem
      obtain ⟨e, he, rfl⟩ := List.mem_map.mp hmem
      rw [mem_insertionSort_rows.mp he] at hrow
      cases hrow
    have hid := h.tenants id
    rw [hout id hnot]
    cases ht : r.tenants.lookup id with
    | none => rfl
    | some tenant => simp [hrow, ht] at hid
  | some row =>
    obtain ⟨tenant, ht, hsealed⟩ := h.tenant_of_row hrow
    have he : (id, row) ∈ rows.orderedTenants := mem_insertionSort_rows.mpr hrow
    obtain ⟨t, htmem, hread⟩ := exists_right hall he
    rw [hsealed.read] at hread
    obtain rfl := Except.ok.inj hread
    rw [ht, ← hsealed.1]
    exact hin tenant htmem

theorem RowsMirror.readMember (h : RowsMirror key rows r) {e : (Uuid × Uuid) × MemberRow}
    (he : e ∈ rows.orderedMembers) :
    ∃ member read, r.members.lookup e.1 = some member ∧ Rows.readMember e.1 e.2 = .ok read ∧
      (read.tenantId, read.userId) = e.1 ∧ stored read = stored member := by
  have hrow := mem_insertionSort_rows.mp he
  rw [h.members, Option.map_eq_some_iff] at hrow
  obtain ⟨member, hmember, heq⟩ := hrow
  obtain ⟨read, hread, hk, hstored⟩ := readMember_memberRow e.1 member
  rw [heq] at hread
  exact ⟨member, read, hmember, hread, hk, hstored⟩

theorem RowsMirror.load (h : RowsMirror key rows r) :
    ∃ r', rows.loadAll key ⟨false, false⟩ = .ok r' ∧ Agree r' r ∧ RowsMirror key rows r' := by
  obtain ⟨ts, loaded, hts, hloaded, hempty, htenants⟩ := h.loadTenants
  have hread : ∀ e ∈ rows.orderedMembers, ∃ m, Rows.readMember e.1 e.2 = .ok m := by
    intro e he
    obtain ⟨-, read, -, hread, -⟩ := h.readMember he
    exact ⟨read, hread⟩
  obtain ⟨ms, hms, hall⟩ := mapM_ok hread
  have hof : ∀ e ∈ rows.orderedMembers, ∀ m, Rows.readMember e.1 e.2 = .ok m →
      (m.tenantId, m.userId) = e.1 ∧
        ∃ member, r.members.lookup e.1 = some member ∧ stored m = stored member := by
    intro e he m hm
    obtain ⟨member, read, hmember, hread, hk, hstored⟩ := h.readMember he
    rw [hread] at hm
    obtain rfl := Except.ok.inj hm
    exact ⟨hk, member, hmember, hstored⟩
  have hkeys : ms.map (fun m => (m.tenantId, m.userId)) = rows.orderedMembers.map Prod.fst :=
    map_eq hall fun e he m hem => (hof e he m hem).1
  have hsource : ∀ m ∈ ms, ∃ e ∈ rows.orderedMembers, Rows.readMember e.1 e.2 = .ok m :=
    fun m hm => exists_left hall hm
  have hnodup : (ms.map fun m => (m.tenantId, m.userId)).Nodup :=
    hkeys ▸ nodup_insertionSort_keys _ _
  have howner : ∀ m ∈ ms, loaded.tenants.lookup m.tenantId ≠ none := by
    intro m hm
    obtain ⟨e, he, hem⟩ := hsource m hm
    obtain ⟨hk, member, hmember, -⟩ := hof e he m hem
    have hid : m.tenantId = e.1.1 := congrArg Prod.fst hk
    rw [htenants, hid]
    exact (h.owned _ _ hmember).2
  obtain ⟨r', hr', hsame, hin, hout⟩ := insertPersistedMember_all hnodup howner
  have hmembers : ∀ k, (r'.members.lookup k).map stored = (r.members.lookup k).map stored := by
    intro k
    cases hrow : rows.members.lookup k with
    | none =>
      have hnot : k ∉ ms.map fun m => (m.tenantId, m.userId) := by
        rw [hkeys]
        intro hmem
        obtain ⟨e, he, rfl⟩ := List.mem_map.mp hmem
        rw [mem_insertionSort_rows.mp he] at hrow
        cases hrow
      rw [h.members, Option.map_eq_none_iff] at hrow
      rw [hout k hnot, hempty, hrow]
      rfl
    | some row =>
      have he : (k, row) ∈ rows.orderedMembers := mem_insertionSort_rows.mpr hrow
      obtain ⟨m, hm, hem⟩ := exists_right hall he
      obtain ⟨hk, member, hmember, hstored⟩ := hof _ he m hem
      have hl := hin m hm
      rw [hk] at hl
      dsimp only at hl hmember
      rw [hl, hmember, Option.map_some, Option.map_some, hstored]
  have hagree : Agree r' r := ⟨fun id => by rw [hsame, htenants], hmembers⟩
  refine ⟨r', ?_, hagree, h.of_agree hagree ?_⟩
  · have hms' : rows.loadMembers false = .ok ms := hms
    simp only [Rows.loadAll, hts, hms']
    change (ts.foldlM insertPersisted .new >>= fun registry =>
      ms.foldlM insertPersistedMember registry) = _
    rw [hloaded]
    exact hr'
  · intro k m hk
    have hmem : k ∈ ms.map fun m => (m.tenantId, m.userId) := by
      by_contra hnot
      rw [hout k hnot, hempty] at hk
      cases hk
    obtain ⟨m', hm', rfl⟩ := List.mem_map.mp hmem
    rw [hin m' hm'] at hk
    obtain rfl := Option.some.inj hk
    rfl

end Load

theorem Agree.refl (r : TenantRegistry) : Agree r r := ⟨fun _ => rfl, fun _ => rfl⟩

theorem Agree.symm {r r' : TenantRegistry} (h : Agree r r') : Agree r' r :=
  ⟨fun id => (h.1 id).symm, fun k => (h.2 k).symm⟩

theorem Agree.trans {r r' r'' : TenantRegistry} (h : Agree r r') (h' : Agree r' r'') :
    Agree r r'' :=
  ⟨fun id => (h.1 id).trans (h'.1 id), fun k => (h.2 k).trans (h'.2 k)⟩

namespace Rows

variable {key : DerivedKey} {rows : Rows} {r : TenantRegistry}

theorem persistTenantIn_ok (h : RowsMirror key rows r) (tenant : Tenant) (nonce : Nat) :
    ∃ written, rows.persistTenantIn key tenant nonce none = .ok written ∧
      RowsMirror key written { r with tenants := r.tenants.insert tenant.id tenant } := by
  refine ⟨_, rfl, fun id => ?_, h.members, fun k member hm => ⟨(h.owned k member hm).1, ?_⟩⟩
  · rw [Table.lookup_insert_ite, Table.lookup_insert_ite]
    split
    · rename_i hid
      subst hid
      rw [Option.rel_some_some]
      split
      · exact ⟨rfl, nonce, rfl⟩
      · exact ⟨rfl, nonce, rfl⟩
    · exact h.tenants id
  · rw [Table.lookup_insert_ite]
    split
    · simp
    · exact (h.owned k member hm).2

theorem persistConfigIn_ok (h : RowsMirror key rows r) {id : TenantId} {config : TenantConfig}
    {fault : Option ConfigFault} {written : Rows}
    (hw : rows.persistConfigIn id config fault = .ok written) : RowsMirror key written r := by
  cases fault with
  | some fault => cases hw
  | none =>
    obtain rfl := Except.ok.inj hw
    exact ⟨h.tenants, h.members, h.owned⟩

theorem stampDeleted_ok (h : RowsMirror key rows r) (id : TenantId) (now : DateTime) :
    RowsMirror key (rows.stampDeleted id now) r := by
  unfold stampDeleted
  cases hrow : rows.tenants.lookup id with
  | none => exact h
  | some row =>
    refine ⟨fun id' => ?_, h.members, h.owned⟩
    rw [Table.lookup_insert_ite]
    split
    · rename_i hid
      subst hid
      have hid := h.tenants id'
      rw [hrow] at hid
      cases ht : r.tenants.lookup id' with
      | none => simp [ht] at hid
      | some tenant =>
        rw [ht, Option.rel_some_some] at hid
        rw [Option.rel_some_some]
        exact hid
    · exact h.tenants id'

/-- What the row of a member keeps of it: `created_at` is that of the row already there. -/
def kept (r : TenantRegistry) (member : TenantMember) : TenantMember :=
  match r.members.lookup (member.tenantId, member.userId) with
  | none => member
  | some old => { member with provisionedAt := old.provisionedAt }

theorem persistMember_ok (h : RowsMirror key rows r) {member : TenantMember}
    (howner : r.tenants.lookup member.tenantId ≠ none) :
    ∃ written, rows.persistMember member false = .ok written ∧
      RowsMirror key written
        (r.setMember (member.tenantId, member.userId) (kept r member)) := by
  refine ⟨_, rfl, h.tenants, fun k => ?_, fun k old hold => ?_⟩
  · dsimp only [setMember]
    rw [Table.lookup_insert_ite, Table.lookup_insert_ite]
    split
    · rw [h.members]
      unfold kept
      cases r.members.lookup (member.tenantId, member.userId) <;> rfl
    · exact h.members k
  · dsimp only [setMember] at hold ⊢
    rw [Table.lookup_insert_ite] at hold
    split at hold
    · rename_i hk
      subst hk
      obtain rfl := Option.some.inj hold
      refine ⟨?_, howner⟩
      unfold kept
      cases r.members.lookup (member.tenantId, member.userId) <;> rfl
    · exact h.owned k old hold

end Rows

/-- The lifecycle lets the tenant pass to the status. -/
def PersistentTenantRegistry.Passes (p : PersistentTenantRegistry) (id : TenantId)
    (target : TenantStatus) : Prop :=
  ∃ tenant, p.registry.tenants.lookup id = some tenant ∧
    tenant.status.validateTransition target = .ok ()

/-- A call that the registry accepts has its row written, and provisions nobody anew who was
removed, unless in the millisecond of the first provisioning. A change of role may also fail where
it changes nothing at the stored precision. -/
def PersistentTenantRegistry.Lands (p : PersistentTenantRegistry) : Call → Prop
  | .create id _ config _ _ tenantFault _ =>
    config.validate = .ok () → p.registry.tenants.lookup id = none → tenantFault = none
  | .suspend id _ _ fault => p.Passes id .suspended → fault = none
  | .activate id _ _ fault => p.Passes id .active → fault = none
  | .delete id _ _ _ faults => p.Passes id .deleted → faults = .none
  | .addMember tenantId userId _ now fails =>
    p.registry.requireActive tenantId = .ok () →
      match p.registry.members.lookup (tenantId, userId) with
      | none => fails = false
      | some existing => existing.status = .removed →
        fails = false ∧ now.timestampMillis = existing.provisionedAt.timestampMillis
  | .removeMember tenantId userId _ fails =>
    ∀ member, p.registry.liveMember tenantId userId = .ok member → fails = false
  | .updateRole tenantId userId role now fails =>
    ∀ member, p.registry.liveMember tenantId userId = .ok member → fails = false ∨
      role = member.role ∧ now.timestampMillis = member.updatedAt.timestampMillis

structure Backed (p : PersistentTenantRegistry) (r : TenantRegistry) : Prop where
  own : p.conn.Own (deriveKey p.masterKey pageContext)
  key : p.payloadKey = deriveKey p.masterKey payloadContext
  rows : RowsMirror p.payloadKey p.conn.rows r
  keyed : Keyed p.registry

section Calls

variable {p : PersistentTenantRegistry} {r : TenantRegistry}

theorem Backed.reloads_iff (h : Backed p r) : p.Reloads ↔ Agree p.registry r := by
  obtain ⟨r', hload, hagree, -⟩ := h.rows.load
  have hopen : PersistentTenantRegistry.open (some p.conn) p.masterKey .none ⟨false, false⟩ =
      (⟨some (deriveKey p.masterKey pageContext), schemaVersion, p.conn.rows⟩,
        .ok ⟨r', ⟨some (deriveKey p.masterKey pageContext), schemaVersion, p.conn.rows⟩,
          deriveKey p.masterKey payloadContext, p.masterKey⟩) := by
    rw [h.key] at hload
    simp only [PersistentTenantRegistry.open, Option.getD_some, h.own.unlock_ok, hload]
  constructor
  · rintro ⟨left, q, hq, htenants, hmembers⟩
    rw [hopen] at hq
    obtain rfl := Except.ok.inj (Prod.mk.inj hq).2
    exact Agree.trans (Agree.symm ⟨htenants, hmembers⟩) hagree
  · intro h
    have hall := hagree.trans h.symm
    exact ⟨_, _, hopen, hall.1, hall.2⟩

def Mirrored (p : PersistentTenantRegistry) : Prop := Backed p p.registry

theorem Backed.mirrored (h : Backed p r) (ha : Agree p.registry r) : Mirrored p :=
  ⟨h.own, h.key, h.rows.of_agree ha h.keyed, h.keyed⟩

theorem Mirrored.reloads (h : Mirrored p) : p.Reloads :=
  (Backed.reloads_iff h).mpr (Agree.refl _)

/-- What the rows mirror after a call, and when that is the memory. -/
def Leads (p q : PersistentTenantRegistry) (lands : Prop) : Prop :=
  ∃ r, Backed q r ∧ q.masterKey = p.masterKey ∧ (Agree q.registry r ↔ lands)

theorem Mirrored.stays (h : Mirrored p) {lands : Prop} (hl : lands) : Leads p p lands :=
  ⟨p.registry, h, rfl, iff_of_true (Agree.refl _) hl⟩

theorem Mirrored.written (h : Mirrored p) {registry : TenantRegistry} {rows : Rows}
    (hrows : RowsMirror p.payloadKey rows registry) {lands : Prop} (hl : lands) :
    Leads p (({ p with registry } : PersistentTenantRegistry).setRows rows) lands := by
  refine ⟨registry, ⟨h.own, h.key, hrows, ?_⟩, rfl, iff_of_true (Agree.refl _) hl⟩
  exact fun k member hm => (hrows.owned k member hm).1

theorem Mirrored.left (h : Mirrored p) {registry : TenantRegistry} (hkeyed : Keyed registry)
    {lands : Prop} (hl : Agree registry p.registry ↔ lands) :
    Leads p { p with registry } lands :=
  ⟨p.registry, ⟨h.own, h.key, h.rows, hkeyed⟩, rfl, hl⟩

theorem not_agree_insert {tenant : Tenant} {id : TenantId}
    (hne : p.registry.tenants.lookup id ≠ some tenant) :
    ¬Agree { p.registry with tenants := p.registry.tenants.insert id tenant } p.registry := by
  intro h
  have hid := h.1 id
  rw [AList.lookup_insert] at hid
  exact hne hid.symm

theorem Mirrored.create (h : Mirrored p) (id : TenantId) (name : String) (config : TenantConfig)
    (now : DateTime) (nonce : Nat) (tenantFault : Option WriteFault)
    (configFault : Option ConfigFault) :
    Leads p (p.create id name config now nonce tenantFault configFault).1
      (p.Lands (.create id name config now nonce tenantFault configFault)) := by
  unfold PersistentTenantRegistry.create TenantRegistry.create PersistentTenantRegistry.Lands
  cases hvalid : config.validate with
  | error err => exact h.stays (by simp [hvalid])
  | ok _ =>
    cases hid : p.registry.tenants.lookup id with
    | some tenant => exact h.stays (by simp [hid])
    | none =>
      let tenant := Tenant.new id name config now
      let registry := { p.registry with tenants := p.registry.tenants.insert id tenant }
      have hget : registry.get id = .ok tenant := by
        simp only [TenantRegistry.get, registry, AList.lookup_insert]
      dsimp only
      change Leads p (Prod.fst (match registry.get id with | .error err => _ | .ok t => _)) _
      rw [hget]
      dsimp only
      cases tenantFault with
      | some fault =>
        have hkeyed : Keyed registry := h.keyed
        refine h.left hkeyed (iff_of_false (not_agree_insert ?_) (by simp [hvalid, hid]))
        simp [hid]
      | none =>
        obtain ⟨rows, hw, hrows⟩ := Rows.persistTenantIn_ok h.rows tenant nonce
        simp only [persistTenant, hw]
        cases hc : rows.persistConfigIn id tenant.config configFault with
        | error err =>
          simp only [setRows, hc]
          exact h.written hrows (fun _ _ => trivial)
        | ok written =>
          simp only [setRows, hc]
          exact h.written (Rows.persistConfigIn_ok hrows hc) (fun _ _ => trivial)

theorem Mirrored.tenant_id (h : Mirrored p) {id : TenantId} {tenant : Tenant}
    (ht : p.registry.tenants.lookup id = some tenant) : tenant.id = id := by
  obtain ⟨row, -, hid, -⟩ := h.rows.row_of_tenant ht
  exact hid

theorem not_passes_none {id : TenantId} {target : TenantStatus}
    (ht : p.registry.tenants.lookup id = none) : ¬p.Passes id target := by
  rintro ⟨tenant, hl, -⟩
  rw [ht] at hl
  cases hl

theorem not_passes_error {id : TenantId} {target : TenantStatus} {tenant : Tenant}
    {err : TenantError} (ht : p.registry.tenants.lookup id = some tenant)
    (hv : tenant.status.validateTransition target = .error err) : ¬p.Passes id target := by
  rintro ⟨other, hl, hok⟩
  rw [ht] at hl
  obtain rfl := Option.some.inj hl
  rw [hv] at hok
  cases hok

theorem ne_of_validateTransition {status target : TenantStatus}
    (h : status.validateTransition target = .ok ()) : status ≠ target := by
  rintro rfl
  cases status <;> cases h

/-- `suspend` and `activate`. -/
theorem Mirrored.mirrorTenant (h : Mirrored p) (id : TenantId) (target : TenantStatus)
    (now : DateTime) (nonce : Nat) (fault : Option WriteFault) :
    Leads p (p.mirrorTenant (p.registry.transition id target now) id nonce fault).1
      (p.Passes id target → fault = none) := by
  unfold PersistentTenantRegistry.mirrorTenant transition
  cases ht : p.registry.tenants.lookup id with
  | none => exact h.stays fun hp => absurd hp (not_passes_none ht)
  | some tenant =>
    cases hv : tenant.status.validateTransition target with
    | error err =>
      simp only [hv]
      exact h.stays fun hp => absurd hp (not_passes_error ht hv)
    | ok _ =>
      have hpasses : p.Passes id target := ⟨tenant, ht, hv⟩
      have htid := h.tenant_id ht
      simp only [hv, TenantRegistry.get, AList.lookup_insert]
      generalize hnew : ({ tenant with status := target, updatedAt := now } : Tenant) = changed
      have hid : changed.id = id := by
        rw [← hnew]
        exact htid
      cases fault with
      | none =>
        obtain ⟨rows, hw, hrows⟩ := Rows.persistTenantIn_ok h.rows changed nonce
        rw [hid] at hrows
        simp only [persistTenant, hw]
        exact h.written hrows (by simp)
      | some fault =>
        have hkeyed : Keyed { p.registry with tenants := p.registry.tenants.insert id changed } :=
          h.keyed
        refine h.left hkeyed (iff_of_false (not_agree_insert ?_) (by simp [hpasses]))
        rw [ht, ← hnew]
        intro heq
        exact ne_of_validateTransition hv (congrArg Tenant.status (Option.some.inj heq))

theorem deleteTx_ok {tenant : Tenant} {id deletedAt : _} {nonce : Nat} {faults : DeleteFaults}
    {rows : Rows} (h : p.deleteTx tenant id deletedAt nonce faults = .ok rows) :
    faults = .none := by
  obtain ⟨beginFails, tenantFault, configFault, updateFails, commitFails⟩ := faults
  unfold deleteTx at h
  cases beginFails <;> cases tenantFault <;> cases configFault <;> cases updateFails <;>
    cases commitFails <;> first | rfl | cases h

theorem Mirrored.delete (h : Mirrored p) (id : TenantId) (now deletedAt : DateTime) (nonce : Nat)
    (faults : DeleteFaults) :
    Leads p (p.delete id now deletedAt nonce faults).1
      (p.Passes id .deleted → faults = .none) := by
  unfold PersistentTenantRegistry.delete TenantRegistry.delete
  cases ht : p.registry.tenants.lookup id with
  | none => exact h.stays fun hp => absurd hp (not_passes_none ht)
  | some tenant =>
    cases hv : tenant.status.validateTransition .deleted with
    | error err =>
      simp only [hv]
      exact h.stays fun hp => absurd hp (not_passes_error ht hv)
    | ok _ =>
      have hpasses : p.Passes id .deleted := ⟨tenant, ht, hv⟩
      have htid := h.tenant_id ht
      simp only [hv, TenantRegistry.get, AList.lookup_insert]
      generalize hnew : ({ tenant with
        config := { tenant.config with rootKey := tenant.config.rootKey.destroy }
        status := .deleted, updatedAt := now } : Tenant) = changed
      have hid : changed.id = id := by
        rw [← hnew]
        exact htid
      have hne : p.registry.tenants.lookup id ≠ some changed := by
        rw [ht, ← hnew]
        intro heq
        exact ne_of_validateTransition hv (congrArg Tenant.status (Option.some.inj heq))
      have hkeyed : Keyed { p.registry with tenants := p.registry.tenants.insert id changed } :=
        h.keyed
      cases htx : ({ p with
          registry := { p.registry with tenants := p.registry.tenants.insert id changed } } :
          PersistentTenantRegistry).deleteTx changed id deletedAt nonce faults with
      | error err =>
        refine h.left hkeyed (iff_of_false (not_agree_insert hne) fun hl => ?_)
        obtain rfl := hl hpasses
        cases htx
      | ok rows =>
        obtain rfl := deleteTx_ok htx
        obtain ⟨written, hw, hrows⟩ := Rows.persistTenantIn_ok h.rows changed nonce
        rw [hid] at hrows
        simp only [deleteTx, DeleteFaults.none, hw] at htx
        obtain rfl := Except.ok.inj htx
        have hconfig := Rows.persistConfigIn_ok hrows
          (rfl : written.persistConfigIn id changed.config none = .ok _)
        exact h.written (Rows.stampDeleted_ok hconfig id deletedAt) fun _ => rfl

theorem agree_setMember_iff (r : TenantRegistry) (k : TenantId × Uuid) (m m' : TenantMember) :
    Agree (r.setMember k m) (r.setMember k m') ↔ stored m = stored m' := by
  constructor
  · intro h
    have hk := h.2 k
    simp only [setMember, AList.lookup_insert, Option.map_some] at hk
    exact Option.some.inj hk
  · refine fun h => ⟨fun _ => rfl, fun k' => ?_⟩
    simp only [setMember, Table.lookup_insert_ite]
    split
    · rw [Option.map_some, Option.map_some, h]
    · rfl

theorem agree_setMember_self_iff (r : TenantRegistry) (k : TenantId × Uuid) (m : TenantMember) :
    Agree (r.setMember k m) r ↔ (r.members.lookup k).map stored = some (stored m) := by
  constructor
  · intro h
    rw [← h.2 k, setMember, AList.lookup_insert, Option.map_some]
  · refine fun h => ⟨fun _ => rfl, fun k' => ?_⟩
    simp only [setMember, Table.lookup_insert_ite]
    split
    · rename_i hk
      subst hk
      rw [h, Option.map_some]
    · rfl

theorem requireActive_ok {tenantId : TenantId} (h : p.registry.requireActive tenantId = .ok ()) :
    p.registry.tenants.lookup tenantId ≠ none := by
  intro hnone
  rw [requireActive, hnone] at h
  cases h

theorem liveMember_ok {tenantId userId : Uuid} {member : TenantMember}
    (h : p.registry.liveMember tenantId userId = .ok member) :
    p.registry.tenants.lookup tenantId ≠ none ∧
      p.registry.members.lookup (tenantId, userId) = some member ∧ member.status ≠ .removed := by
  unfold liveMember at h
  cases hactive : p.registry.requireActive tenantId with
  | error err =>
    rw [hactive] at h
    cases h
  | ok _ =>
    rw [hactive] at h
    dsimp only at h
    cases hm : p.registry.members.lookup (tenantId, userId) with
    | none =>
      rw [hm] at h
      cases h
    | some found =>
      rw [hm] at h
      dsimp only at h
      split at h
      · cases h
      · obtain rfl := Except.ok.inj h
        exact ⟨requireActive_ok hactive, rfl, ‹_›⟩

theorem Mirrored.setMember_keyed (h : Mirrored p) (member : TenantMember) :
    Keyed (p.registry.setMember (member.tenantId, member.userId) member) := by
  intro k found hfound
  simp only [setMember, Table.lookup_insert_ite] at hfound
  split at hfound
  · rename_i hk
    rw [← Option.some.inj hfound, hk]
  · exact h.keyed k found hfound

theorem Mirrored.setMember (h : Mirrored p) (member : TenantMember)
    (howner : p.registry.tenants.lookup member.tenantId ≠ none) (fails : Bool) {lands : Prop}
    (hfails : fails = true →
      ((p.registry.members.lookup (member.tenantId, member.userId)).map stored =
        some (stored member) ↔ lands))
    (hwrites : fails = false →
      (stored member = stored (Rows.kept p.registry member) ↔ lands)) :
    Leads p (({ p with
      registry := p.registry.setMember (member.tenantId, member.userId) member } :
      PersistentTenantRegistry).persistMember member fails).1 lands := by
  have hkeyed := h.setMember_keyed member
  cases fails with
  | true => exact h.left hkeyed ((agree_setMember_self_iff _ _ _).trans (hfails rfl))
  | false =>
    obtain ⟨rows, hw, hrows⟩ := Rows.persistMember_ok h.rows howner
    simp only [persistMember, hw]
    refine ⟨_, ⟨h.own, h.key, hrows, hkeyed⟩, rfl, ?_⟩
    exact (agree_setMember_iff _ _ _ _).trans (hwrites rfl)

theorem addMember_cases (r : TenantRegistry) (tenantId userId : Uuid) (role : Relation)
    (now : DateTime) :
    (∃ err, r.addMember tenantId userId role now = .error err ∧
      (r.requireActive tenantId ≠ .ok () ∨ ∃ existing,
        r.members.lookup (tenantId, userId) = some existing ∧ existing.status ≠ .removed)) ∨
    (r.addMember tenantId userId role now =
        .ok (r.setMember (tenantId, userId) (.new tenantId userId role now),
          .new tenantId userId role now) ∧
      r.requireActive tenantId = .ok () ∧ ∀ existing,
        r.members.lookup (tenantId, userId) = some existing → existing.status = .removed) := by
  unfold TenantRegistry.addMember
  cases hactive : r.requireActive tenantId with
  | error err => exact .inl ⟨err, rfl, .inl (by simp)⟩
  | ok _ =>
    dsimp only
    cases hm : r.members.lookup (tenantId, userId) with
    | none => exact .inr ⟨rfl, rfl, by simp⟩
    | some existing =>
      by_cases hremoved : existing.status = .removed
      · refine .inr ⟨by simp [hremoved], rfl, ?_⟩
        rintro found hfound
        rwa [← Option.some.inj hfound]
      · exact .inl ⟨_, if_pos hremoved, .inr ⟨existing, rfl, hremoved⟩⟩

theorem Mirrored.addMember (h : Mirrored p) (tenantId userId : Uuid) (role : Relation)
    (now : DateTime) (fails : Bool) :
    Leads p (p.addMember tenantId userId role now fails).1
      (p.Lands (.addMember tenantId userId role now fails)) := by
  unfold PersistentTenantRegistry.addMember PersistentTenantRegistry.Lands
  obtain ⟨err, hadd, hrefused⟩ | ⟨hadd, hactive, hremoved⟩ :=
    addMember_cases p.registry tenantId userId role now
  · rw [hadd]
    refine h.stays fun hactive => ?_
    obtain hinactive | ⟨existing, hm, hlive⟩ := hrefused
    · exact absurd hactive hinactive
    · rw [hm]
      exact fun hr => absurd hr hlive
  · rw [hadd]
    generalize hnew : TenantMember.new tenantId userId role now = member
    have hcall : (match ({ p with registry := p.registry.setMember (tenantId, userId) member } :
          PersistentTenantRegistry).persistMember member fails with
        | (self, .error err) => (self, (.error err : Except TenantError TenantMember))
        | (self, .ok ()) => (self, .ok member)).1 =
        (({ p with registry := p.registry.setMember (tenantId, userId) member } :
          PersistentTenantRegistry).persistMember member fails).1 := by
      unfold persistMember
      cases Rows.persistMember _ member fails <;> rfl
    rw [hcall]
    subst hnew
    refine h.setMember _ (requireActive_ok hactive) fails ?_ ?_
    · rintro rfl
      cases hm : p.registry.members.lookup (tenantId, userId) with
      | none => simp [TenantMember.new, hm, hactive]
      | some existing =>
        simp [TenantMember.new, hm, hactive, stored, hremoved existing hm]
    · rintro rfl
      cases hm : p.registry.members.lookup (tenantId, userId) with
      | none => simp [TenantMember.new, Rows.kept, hm]
      | some existing =>
        simp [TenantMember.new, Rows.kept, hm, hactive, stored, hremoved existing hm]

theorem Mirrored.mirrorMember (h : Mirrored p) {tenantId userId : Uuid} {member : TenantMember}
    (hlive : p.registry.liveMember tenantId userId = .ok member) (role : Relation)
    (status : TenantMemberStatus) (now : DateTime) (fails : Bool) :
    Leads p (p.mirrorMember (.ok (p.registry.setMember (tenantId, userId)
        { member with role, status, updatedAt := now })) tenantId userId fails).1
      (fails = false ∨ member.role = role ∧ member.status = status ∧
        member.updatedAt.timestampMillis = now.timestampMillis) := by
  obtain ⟨howner, hm, -⟩ := liveMember_ok hlive
  obtain ⟨rfl, rfl⟩ := Prod.mk.inj (h.keyed _ _ hm)
  simp only [PersistentTenantRegistry.mirrorMember, TenantRegistry.getMember,
    TenantRegistry.setMember, AList.lookup_insert]
  let changed : TenantMember := { member with role, status, updatedAt := now }
  have hcall : Leads p (({ p with
      registry := p.registry.setMember (changed.tenantId, changed.userId) changed } :
      PersistentTenantRegistry).persistMember changed fails).1
      (fails = false ∨ member.role = role ∧ member.status = status ∧
        member.updatedAt.timestampMillis = now.timestampMillis) := by
    refine h.setMember changed howner fails ?_ ?_
    · rintro rfl
      simp [changed, hm, stored]
    · rintro rfl
      simp [changed, Rows.kept, hm]
  exact hcall

theorem Mirrored.removeMember (h : Mirrored p) (tenantId userId : Uuid) (now : DateTime)
    (fails : Bool) :
    Leads p (p.removeMember tenantId userId now fails).1
      (p.Lands (.removeMember tenantId userId now fails)) := by
  unfold PersistentTenantRegistry.removeMember TenantRegistry.removeMember
    PersistentTenantRegistry.Lands
  cases hlive : p.registry.liveMember tenantId userId with
  | error err => exact h.stays (by simp [hlive])
  | ok member =>
    obtain ⟨r, hback, hmaster, hagree⟩ := h.mirrorMember hlive member.role .removed now fails
    refine ⟨r, hback, hmaster, hagree.trans ?_⟩
    have hstatus := (liveMember_ok hlive).2.2
    simp [hlive, hstatus]

theorem Mirrored.updateRole (h : Mirrored p) (tenantId userId : Uuid) (role : Relation)
    (now : DateTime) (fails : Bool) :
    Leads p (p.updateRole tenantId userId role now fails).1
      (p.Lands (.updateRole tenantId userId role now fails)) := by
  unfold PersistentTenantRegistry.updateRole TenantRegistry.updateRole
    PersistentTenantRegistry.Lands
  cases hlive : p.registry.liveMember tenantId userId with
  | error err => exact h.stays (by simp [hlive])
  | ok member =>
    obtain ⟨r, hback, hmaster, hagree⟩ := h.mirrorMember hlive role member.status now fails
    refine ⟨r, hback, hmaster, hagree.trans ?_⟩
    simp [hlive, eq_comm]

theorem Mirrored.perform (h : Mirrored p) (call : Call) :
    Leads p (p.perform call) (p.Lands call) := by
  cases call with
  | create id name config now nonce tenantFault configFault =>
    exact h.create id name config now nonce tenantFault configFault
  | suspend id now nonce fault => exact h.mirrorTenant id .suspended now nonce fault
  | activate id now nonce fault => exact h.mirrorTenant id .active now nonce fault
  | delete id now deletedAt nonce faults => exact h.delete id now deletedAt nonce faults
  | addMember tenantId userId role now fails => exact h.addMember tenantId userId role now fails
  | removeMember tenantId userId now fails => exact h.removeMember tenantId userId now fails
  | updateRole tenantId userId role now fails => exact h.updateRole tenantId userId role now fails

end Calls

/-- Every call of the run lands. -/
def World.Lands : World → Event → Prop
  | .opened p, .call call => p.Lands call
  | _, _ => True

def World.Sound (masterKey : MasterKey) : World → Prop
  | .closed file =>
    (file.getD PersistentTenantRegistry.emptyFile).Own (deriveKey masterKey pageContext) ∧
      ∃ r, RowsMirror (deriveKey masterKey payloadContext)
        (file.getD PersistentTenantRegistry.emptyFile).rows r
  | .opened p => p.masterKey = masterKey ∧ Mirrored p

theorem loadAll_fault {rows : Rows} {key : DerivedKey} {load : LoadFault} {r : TenantRegistry}
    (h : rows.loadAll key load = .ok r) : load = ⟨false, false⟩ := by
  obtain ⟨tenantsFail, membersFail⟩ := load
  unfold Rows.loadAll at h
  cases tenantsFail with
  | true => cases h
  | false =>
    cases membersFail with
    | false => rfl
    | true =>
      dsimp only at h
      cases hts : rows.loadTenants key false with
      | error err =>
        rw [hts] at h
        cases h
      | ok ts =>
        rw [hts] at h
        cases h

theorem open_sound {masterKey : MasterKey} {file : Option (DbFile Rows)}
    (h : World.Sound masterKey (.closed file)) (fault : OpenFault) (load : LoadFault) :
    World.Sound masterKey (World.next masterKey (.closed file) (.open fault load)) := by
  obtain ⟨hown, r, hrows⟩ := h
  have hleft := hown.unlock fault
  have hsame := (file.getD emptyFile).unlock_rows
    (deriveKey masterKey pageContext) fault
  simp only [World.next, PersistentTenantRegistry.open]
  rcases hu : (file.getD PersistentTenantRegistry.emptyFile).unlock
    (deriveKey masterKey pageContext) fault with ⟨left, reply⟩
  rw [hu] at hleft hsame
  dsimp only at hleft hsame
  rw [← hsame] at hrows
  have hclosed : World.Sound masterKey (.closed (some left)) := ⟨hleft, r, hrows⟩
  cases reply with
  | error err => exact hclosed
  | ok _ =>
    obtain ⟨r', hload, -, hrows'⟩ := hrows.load
    dsimp only
    cases hread : left.rows.loadAll (deriveKey masterKey payloadContext) load with
    | error err => exact hclosed
    | ok registry =>
      rw [loadAll_fault hread, hload] at hread
      obtain rfl := Except.ok.inj hread
      have hopened : Mirrored ⟨r', left, deriveKey masterKey payloadContext, masterKey⟩ :=
        ⟨hleft, rfl, hrows', fun k m hm => (hrows'.owned k m hm).1⟩
      exact ⟨rfl, hopened⟩

theorem sound_of_reachable {masterKey : MasterKey} {w : World}
    (h : ((system masterKey).restrict World.Lands).Reachable w) : w.Sound masterKey := by
  refine h.invariant (World.Sound masterKey) ?_ ?_
  · rintro w rfl
    refine ⟨⟨.inl rfl, .inl rfl⟩, .new, fun _ => .none, fun _ => rfl, ?_⟩
    intro k member hm
    cases hm
  · rintro w event w' - hw ⟨⟨-, rfl⟩, hlands⟩
    cases w with
    | closed file =>
      cases event with
      | «open» fault load => exact open_sound hw fault load
      | call _ | close => exact hw
    | opened p =>
      cases event with
      | call call =>
        obtain ⟨r, hback, hmaster, hagree⟩ := hw.2.perform call
        exact ⟨hmaster.trans hw.1, hback.mirrored (hagree.mpr hlands)⟩
      | close =>
        refine ⟨?_, p.registry, ?_⟩
        · rw [← hw.1]
          exact hw.2.own
        · rw [← hw.1, ← hw.2.key]
          exact hw.2.rows
      | «open» _ _ => exact hw

/-- In a run whose calls all land the file always opens anew to what the memory shows, and the
next call keeps it so just in case it lands too. -/
theorem tenants_mirrored (masterKey : MasterKey) {w : World}
    (h : ((system masterKey).restrict World.Lands).Reachable w) (p : PersistentTenantRegistry)
    (hp : w = .opened p) :
    p.Reloads ∧ ∀ call, (p.perform call).Reloads ↔ p.Lands call := by
  subst hp
  have hsound := (sound_of_reachable h).2
  refine ⟨hsound.reloads, fun call => ?_⟩
  obtain ⟨r, hback, -, hagree⟩ := hsound.perform call
  exact hback.reloads_iff.trans hagree

def sampleConfig : TenantConfig :=
  ⟨⟨11, false⟩, ⟨none, none, false⟩, ⟨false, 86400, 3600, none⟩⟩

def sampleTime (ms : Fin 1000) : DateTime :=
  ⟨ms.val*1000000, by simp only [minMillis]; omega, by simp only [maxMillis]; omega⟩

def sampleRun (events : List Event) : World :=
  events.foldl (World.next 9) (.closed none)

def sampleEvents : List Event :=
  [.open .none ⟨false, false⟩, .call (.create 3 "alpha" sampleConfig (sampleTime 1) 0 none none),
    .call (.addMember 3 4 .owner (sampleTime 2) false),
    .call (.updateRole 3 4 .editor (sampleTime 3) false),
    .call (.removeMember 3 4 (sampleTime 4) false), .close, .open .none ⟨false, false⟩]

def World.handle : World → Option PersistentTenantRegistry
  | .closed _ => none
  | .opened p => some p

def World.status (w : World) (k : TenantId × Uuid) : Option TenantMemberStatus :=
  w.handle.bind fun p => (p.registry.members.lookup k).map TenantMember.status

theorem tenants_mirrored_sample :
    (sampleRun sampleEvents).status (3, 4) = some .removed ∧
      ∀ p, sampleRun sampleEvents = .opened p →
        p.Reloads ∧ ∀ call, (p.perform call).Reloads ↔ p.Lands call := by
  have hlegal : Legal (fun w event => True ∧ World.Lands w event) (World.next 9) (.closed none)
      sampleEvents :=
    ⟨⟨trivial, trivial⟩, ⟨trivial, fun _ _ => rfl⟩, ⟨trivial, fun _ => rfl⟩,
      ⟨trivial, fun _ _ => .inl rfl⟩, ⟨trivial, fun _ _ => rfl⟩, ⟨trivial, trivial⟩,
      ⟨trivial, trivial⟩, trivial⟩
  exact ⟨by decide +kernel, tenants_mirrored 9 (hlegal.reachable_restrict (.init rfl))⟩

theorem PersistentTenantRegistry.Reloads.status {p : PersistentTenantRegistry} (h : p.Reloads)
    (k : TenantId × Uuid) :
    World.status (World.next p.masterKey (.closed (some p.conn)) (.open .none ⟨false, false⟩)) k =
      World.status (.opened p) k := by
  obtain ⟨left, q, hopen, -, hmembers⟩ := h
  have hstatus := congrArg (Option.map fun m => m.2.1) (hmembers k)
  simp only [Option.map_map] at hstatus
  simp only [World.next, hopen]
  exact hstatus

def unwrittenRemoval : List Event :=
  [.open .none ⟨false, false⟩, .call (.create 3 "alpha" sampleConfig (sampleTime 1) 0 none none),
    .call (.addMember 3 4 .owner (sampleTime 2) false),
    .call (.removeMember 3 4 (sampleTime 4) true)]

theorem removal_comes_back :
    (sampleRun unwrittenRemoval).status (3, 4) = some .removed ∧
      (sampleRun (unwrittenRemoval ++ [.close, .open .none ⟨false, false⟩])).status (3, 4) =
        some .active ∧
      ¬∀ (masterKey : MasterKey) (w : World) (p : PersistentTenantRegistry),
        (system masterKey).Reachable w → w = .opened p → p.Reloads := by
  have hbefore : (sampleRun unwrittenRemoval).status (3, 4) = some .removed := by decide +kernel
  have hafter : (sampleRun (unwrittenRemoval ++ [.close, .open .none ⟨false, false⟩])).status
      (3, 4) = some .active := by decide +kernel
  have hmaster : (sampleRun unwrittenRemoval).handle.map (·.masterKey) = some 9 := by
    decide +kernel
  refine ⟨hbefore, hafter, fun hall => ?_⟩
  have hlegal : Legal (fun _ _ => True) (World.next 9) (.closed none) unwrittenRemoval :=
    ⟨trivial, trivial, trivial, trivial, trivial⟩
  have hreach : (system 9).Reachable _ := hlegal.reachable (.init rfl)
  rw [sampleRun, List.foldl_append] at hafter
  change (sampleRun unwrittenRemoval).handle.map (·.masterKey) = some 9 at hmaster
  cases hw : sampleRun unwrittenRemoval with
  | closed file =>
    rw [hw] at hmaster
    cases hmaster
  | opened p =>
    rw [hw] at hmaster hbefore
    have hkey : p.masterKey = 9 := Option.some.inj hmaster
    have hsame := (hall 9 _ p hreach hw).status (3, 4)
    rw [hkey, hbefore] at hsame
    unfold sampleRun at hw
    rw [hw] at hafter
    exact absurd (hsame.symm.trans hafter) (by decide)

end Knowledge.TenantService
