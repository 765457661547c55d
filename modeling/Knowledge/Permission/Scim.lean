import Knowledge.Lib.Atomic
import Knowledge.Permission.Store
import Mathlib.Data.List.AList

/-!
SCIM provisioning: the directory of users and groups, the relation tuples it is mapped to,
and the six write handlers. A handler is a program of atomic steps: a read under the read
lock, one call to the substrate, or a commit under the write lock.
-/

set_option autoImplicit false

namespace Knowledge.Permission
open Knowledge.Atomic
open Knowledge.Sync (Uuid)

structure Email where
  value : String
  primary : Bool
  deriving DecidableEq

structure User where
  id : String
  userName : String
  active : Bool
  emails : List Email
  created : Int
  lastModified : Int
  deriving DecidableEq

structure GroupMember where
  value : String
  display : String
  deriving DecidableEq

structure Group where
  id : String
  displayName : String
  members : List GroupMember
  created : Int
  lastModified : Int
  deriving DecidableEq

structure Directory where
  users : AList (fun _ : String => User)
  groups : AList (fun _ : String => Group)

structure WireTuple where
  objectType : String
  objectId : String
  relation : String
  subjectType : String
  subjectId : String
  subjectRelation : Option String

def ObjectType.ofStr (s : String) : Option ObjectType :=
  [tenant, domain, channel, user, group, device, concept, summary, workflow, exportProfile,
    agent].find? (fun t => t.asStr = s)

def Relation.ofStr (s : String) : Option Relation := all.find? (fun r => r.asStr = s)

def WireTuple.decode (parse : String → Option Uuid) (t : WireTuple) : Option RelationTuple := do
  let objectType ← ObjectType.ofStr t.objectType
  let objectId ← parse t.objectId
  let relation ← Relation.ofStr t.relation
  let subjectType ← ObjectType.ofStr t.subjectType
  let subjectId ← parse t.subjectId
  let subjectRelation ← match t.subjectRelation with
    | none => some none
    | some r => (Relation.ofStr r).map some
  some ⟨⟨objectType, objectId⟩, relation, ⟨subjectType, subjectId, subjectRelation⟩⟩

/-- What becomes of a call: it is answered, never arrives, or is carried out and the
answer is lost. -/
inductive Outcome where
  | answered
  | dropped
  | unanswered
  deriving DecidableEq

/-- The UUID package, and the fate of the calls to the substrate and to the directory
store, numbered in the order in which they are made. -/
structure Env where
  parse : String → Option Uuid
  format : Uuid → String
  net : Nat → Outcome

/-- The cache of the directory and the tuples of the substrate. For the record, the calls
made so far and how many of them failed. -/
structure Service where
  dir : Directory
  perms : TupleStore
  calls : Nat
  failures : Nat

inductive SubstrateError where
  | badRequest
  | notFound

def permissionGrant (parse : String → Option Uuid) (t : WireTuple) (perms : TupleStore) :
    Except SubstrateError TupleStore :=
  match t.decode parse with
  | none => .error .badRequest
  | some tuple => .ok (perms.upsert tuple).2

def permissionRevoke (parse : String → Option Uuid) (t : WireTuple) (perms : TupleStore) :
    Except SubstrateError TupleStore :=
  match t.decode parse with
  | none => .error .badRequest
  | some tuple =>
    match perms.remove tuple with
    | (.ok (), perms) => .ok perms
    | (.error _, _) => .error .notFound

structure TupleOp where
  grant : Bool
  tuple : WireTuple

def TupleOp.send (parse : String → Option Uuid) (op : TupleOp) (perms : TupleStore) :
    Except SubstrateError TupleStore :=
  if op.grant then permissionGrant parse op.tuple perms else permissionRevoke parse op.tuple perms

namespace Service

def empty : Service := ⟨⟨∅, ∅⟩, .new, 0, 0⟩

def failed (s : Service) : Service := { s with calls := s.calls+1, failures := s.failures+1 }

def callSubstrate (env : Env) (op : TupleOp) (s : Service) : Service × Bool :=
  match env.net s.calls, op.send env.parse s.perms with
  | .answered, .ok perms => ({ s with perms, calls := s.calls+1 }, true)
  | .unanswered, .ok perms => ({ s.failed with perms }, false)
  | _, _ => (s.failed, false)

def save (env : Env) (change : Directory → Directory) (s : Service) : Service × Bool :=
  match env.net s.calls with
  | .answered => ({ s with dir := change s.dir, calls := s.calls+1 }, true)
  | _ => (s.failed, false)

end Service

def runTupleOp (env : Env) (op : TupleOp) : Prog Service Bool := .modify (·.callSubstrate env op)

def rollbackTupleOps (env : Env) (applied : List TupleOp) : Prog Service Unit :=
  undo applied.reverse
where
  undo : List TupleOp → Prog Service Unit
    | [] => pure ()
    | op :: rest => do
      let _ ← runTupleOp env { op with grant := !op.grant }
      undo rest

def applyTupleOps (env : Env) (ops : List TupleOp) : Prog Service Bool :=
  go [] ops
where
  go (applied : List TupleOp) : List TupleOp → Prog Service Bool
    | [] => pure true
    | op :: rest => do
      if ← runTupleOp env op then go (applied ++ [op]) rest
      else do
        rollbackTupleOps env applied
        pure false

def compensateGrants (env : Env) : List TupleOp → Prog Service Unit
  | [] => pure ()
  | op :: rest => do
    if op.grant then
      let _ ← runTupleOp env { op with grant := false }
    compensateGrants env rest

def groupMemberTuple (groupId userId : String) : WireTuple :=
  ⟨"group", groupId, "member", "user", userId, none⟩

def groupRoleTuple (tenantId role groupId : String) : WireTuple :=
  ⟨"tenant", tenantId, role, "group", groupId, some "member"⟩

def groupRoleBindings : List String := ["admin", "editor", "member", "viewer"]

def parseGroupRole (parse : String → Option Uuid) (displayName : String) :
    Option (String × String) :=
  match (displayName.toList.splitOn ':').map String.ofList with
  | [p0, p1, p2, p3] =>
    if p0 ≠ "knowledge" ∨ p1 ≠ "tenant" then none
    else if parse p2 = none then none
    else if p3 ∉ groupRoleBindings then none
    else some (p2, p3)
  | _ => none

def validUserId (parse : String → Option Uuid) (value : String) : Bool := (parse value).isSome

def mappableMemberIds (parse : String → Option Uuid) (members : List GroupMember) : List String :=
  ((members.map GroupMember.value).filter (validUserId parse)).dedup

/-- An order in which a map with these keys may be ranged over. -/
structure MapOrder where
  list : List String → List String
  perm : ∀ keys, (list keys).Perm keys

namespace Directory

def userActive (dir : Directory) (userId : String) : Bool :=
  match dir.users.lookup userId with
  | none => true
  | some u => u.active

def inGroup (dir : Directory) (userId groupId : String) : Bool :=
  match dir.groups.lookup groupId with
  | none => false
  | some g => g.members.any (fun m => m.value = userId)

def setUser (dir : Directory) (id : String) (u : User) : Directory :=
  { dir with users := dir.users.insert id u }

def setGroup (dir : Directory) (id : String) (g : Group) : Directory :=
  { dir with groups := dir.groups.insert id g }

end Directory

def userActive (userId : String) : Prog Service Bool := .read (·.dir.userActive userId)

def groupsContainingUser (order : MapOrder) (userId : String) : Prog Service (List String) :=
  .read (fun s => (order.list s.dir.groups.keys).filter (s.dir.inGroup userId))

def reconcileLoop (grant : Bool) (groupId : String) (other : List String) :
    List String → Prog Service (List TupleOp)
  | [] => pure []
  | uid :: rest =>
    if uid ∈ other then reconcileLoop grant groupId other rest
    else do
      let active ← userActive uid
      let ops ← reconcileLoop grant groupId other rest
      pure (if active then ⟨grant, groupMemberTuple groupId uid⟩ :: ops else ops)

structure MapOrders where
  next : MapOrder
  prev : MapOrder

def groupReconcileOps (env : Env) (orders : MapOrders) (groupId : String)
    (prev next : List GroupMember) : Prog Service (List TupleOp) := do
  let prevSet := mappableMemberIds env.parse prev
  let nextSet := mappableMemberIds env.parse next
  let grants ← reconcileLoop true groupId prevSet (orders.next.list nextSet)
  let revokes ← reconcileLoop false groupId nextSet (orders.prev.list prevSet)
  pure (grants ++ revokes)

def groupRoleReconcileOps (parse : String → Option Uuid) (prevDisplayName nextDisplayName : String)
    (groupId : String) : List TupleOp :=
  let prev := parseGroupRole parse prevDisplayName
  let next := parseGroupRole parse nextDisplayName
  if prev.isSome ∧ prev = next then []
  else
    (next.toList.map fun p => ⟨true, groupRoleTuple p.1 p.2 groupId⟩) ++
      prev.toList.map fun p => ⟨false, groupRoleTuple p.1 p.2 groupId⟩

def userActiveToggleOps (order : MapOrder) (userId : String) (nowActive : Bool) :
    Prog Service (List TupleOp) := do
  let gids ← groupsContainingUser order userId
  pure (gids.map fun gid => ⟨nowActive, groupMemberTuple gid userId⟩)

def userRemovalOps (order : MapOrder) (userId : String) : Prog Service (List TupleOp) := do
  if ← userActive userId then
    let gids ← groupsContainingUser order userId
    pure (gids.map fun gid => ⟨false, groupMemberTuple gid userId⟩)
  else pure []

def removeMemberValue (members : List GroupMember) (userId : String) : List GroupMember × Bool :=
  (members.filter (fun m => m.value ≠ userId), members.any (fun m => m.value = userId))

inductive Reply where
  | user (status : Nat) (u : User)
  | group (status : Nat) (g : Group)
  | noContent
  | error (status : Nat) (detail : String)
  deriving DecidableEq

structure UserInput where
  userName : String
  active : Bool
  emails : List Email

structure GroupInput where
  displayName : String
  members : List GroupMember

inductive Commit where
  | gone
  | failed
  | saved

def scimCreateUser (env : Env) (id : String) (now : Int) (input : Option UserInput) :
    Prog Service Reply :=
  match input with
  | none => pure (.error 400 "invalid SCIM User payload")
  | some input =>
    if input.userName = "" then pure (.error 400 "userName is required")
    else
      let u : User := ⟨id, input.userName, true, input.emails, now, now⟩
      .modify fun s =>
        if s.dir.users.entries.any (fun e => e.2.userName = input.userName) then
          (s, .error 409 "userName already exists")
        else
          (s.save env (·.setUser id u)).map (fun s => s) fun ok =>
            if ok then .user 201 u else .error 500 "failed to persist user"

def commitUser (env : Env) (id : String) (next : User) : Prog Service Commit :=
  .modify fun s =>
    if s.dir.users.lookup id = none then (s, .gone)
    else
      (s.save env (·.setUser id next)).map (fun s => s) fun ok => if ok then .saved else .failed

def finishUser (env : Env) (id : String) (next : User) (toggleOps : List TupleOp) :
    Prog Service Reply := do
  match ← commitUser env id next with
  | .gone =>
    compensateGrants env toggleOps
    pure (.error 409 "user was deleted concurrently")
  | .failed =>
    rollbackTupleOps env toggleOps
    pure (.error 500 "failed to persist user")
  | .saved => pure (.user 200 next)

def User.replace (prev : User) (now : Int) (input : UserInput) : User :=
  { prev with
    userName := if input.userName ≠ "" then input.userName else prev.userName
    active := input.active
    emails := input.emails
    lastModified := now }

def scimReplaceUser (env : Env) (order : MapOrder) (id : String) (now : Int)
    (input : Option UserInput) : Prog Service Reply :=
  match input with
  | none => pure (.error 400 "invalid SCIM User payload")
  | some input => do
    match ← Prog.read (fun s : Service => s.dir.users.lookup id) with
    | none => pure (.error 404 "user not found")
    | some prev =>
      let next := prev.replace now input
      if prev.active ≠ next.active then
        let toggleOps ← userActiveToggleOps order id next.active
        if ← applyTupleOps env toggleOps then finishUser env id next toggleOps
        else pure (.error 500 "failed to reconcile membership tuples")
      else finishUser env id next []

def Directory.stripped (dir : Directory) (id : String) (now : Int) : List Group :=
  dir.groups.entries.filterMap fun e =>
    match removeMemberValue e.2.members id with
    | (members, true) => some { e.2 with members, lastModified := now }
    | (_, false) => none

def Directory.deleteUser (dir : Directory) (id : String) (now : Int) : Directory :=
  ⟨dir.users.erase id, (dir.stripped id now).foldl (fun groups g => groups.insert g.id g) dir.groups⟩

def finishDeleteUser (env : Env) (id : String) (now : Int) (removalOps : List TupleOp) :
    Prog Service Reply := do
  if ← Prog.modify (Service.save env (·.deleteUser id now)) then pure .noContent
  else
    rollbackTupleOps env removalOps
    pure (.error 500 "failed to persist user deletion")

def scimDeleteUser (env : Env) (order : MapOrder) (id : String) (now : Int) :
    Prog Service Reply := do
  match ← Prog.read (fun s : Service => s.dir.users.lookup id) with
  | none => pure (.error 404 "user not found")
  | some _ =>
    let removalOps ← userRemovalOps order id
    if ← applyTupleOps env removalOps then finishDeleteUser env id now removalOps
    else pure (.error 500 "failed to reconcile membership tuples")

def finishCreateGroup (env : Env) (g : Group) (ops : List TupleOp) : Prog Service Reply := do
  if ← Prog.modify (Service.save env (·.setGroup g.id g)) then pure (.group 201 g)
  else
    rollbackTupleOps env ops
    pure (.error 500 "failed to persist group")

def scimCreateGroup (env : Env) (orders : MapOrders) (id : String) (now : Int)
    (input : Option GroupInput) : Prog Service Reply :=
  match input with
  | none => pure (.error 400 "invalid SCIM Group payload")
  | some input =>
    if input.displayName = "" then pure (.error 400 "displayName is required")
    else do
      let g : Group := ⟨id, input.displayName, input.members, now, now⟩
      let memberOps ← groupReconcileOps env orders g.id [] g.members
      let ops := memberOps ++ groupRoleReconcileOps env.parse "" g.displayName g.id
      if ← applyTupleOps env ops then finishCreateGroup env g ops
      else pure (.error 500 "failed to sync group membership tuples")

def Group.replace (g : Group) (now : Int) (input : GroupInput) : Group :=
  { g with
    displayName := if input.displayName ≠ "" then input.displayName else g.displayName
    members := input.members
    lastModified := now }

def commitGroup (env : Env) (id : String) (next : Group) : Prog Service Commit :=
  .modify fun s =>
    if s.dir.groups.lookup id = none then (s, .gone)
    else
      (s.save env (·.setGroup id next)).map (fun s => s) fun ok => if ok then .saved else .failed

def finishReplaceGroup (env : Env) (id : String) (next : Group) (ops : List TupleOp) :
    Prog Service Reply := do
  match ← commitGroup env id next with
  | .gone =>
    compensateGrants env ops
    pure (.error 409 "group was deleted concurrently")
  | .failed =>
    rollbackTupleOps env ops
    pure (.error 500 "failed to persist group")
  | .saved => pure (.group 200 next)

def scimReplaceGroup (env : Env) (orders : MapOrders) (id : String) (now : Int)
    (input : Option GroupInput) : Prog Service Reply :=
  match input with
  | none => pure (.error 400 "invalid SCIM Group payload")
  | some input => do
    match ← Prog.read (fun s : Service => s.dir.groups.lookup id) with
    | none => pure (.error 404 "group not found")
    | some g =>
      let next := g.replace now input
      let memberOps ← groupReconcileOps env orders id g.members next.members
      let ops := memberOps ++ groupRoleReconcileOps env.parse g.displayName next.displayName id
      if ← applyTupleOps env ops then finishReplaceGroup env id next ops
      else pure (.error 500 "failed to sync group membership tuples")

def Directory.deleteGroup (dir : Directory) (id : String) : Directory :=
  { dir with groups := dir.groups.erase id }

def finishDeleteGroup (env : Env) (id : String) (ops : List TupleOp) : Prog Service Reply := do
  if ← Prog.modify (Service.save env (·.deleteGroup id)) then pure .noContent
  else
    rollbackTupleOps env ops
    pure (.error 500 "failed to persist group deletion")

def scimDeleteGroup (env : Env) (orders : MapOrders) (id : String) : Prog Service Reply := do
  match ← Prog.read (fun s : Service => s.dir.groups.lookup id) with
  | none => pure (.error 404 "group not found")
  | some g =>
    let memberOps ← groupReconcileOps env orders id g.members []
    let ops := memberOps ++ groupRoleReconcileOps env.parse g.displayName "" id
    if ← applyTupleOps env ops then finishDeleteGroup env id ops
    else pure (.error 500 "failed to sync group membership tuples")

/-- A request, with the id that is generated for a new resource, the time, and the orders
in which the handler happens to range over its maps. -/
inductive Request where
  | createUser (id : String) (now : Int) (input : Option UserInput)
  | replaceUser (order : MapOrder) (id : String) (now : Int) (input : Option UserInput)
  | deleteUser (order : MapOrder) (id : String) (now : Int)
  | createGroup (orders : MapOrders) (id : String) (now : Int) (input : Option GroupInput)
  | replaceGroup (orders : MapOrders) (id : String) (now : Int) (input : Option GroupInput)
  | deleteGroup (orders : MapOrders) (id : String)

def Request.handler (env : Env) : Request → Prog Service Reply
  | .createUser id now input => scimCreateUser env id now input
  | .replaceUser order id now input => scimReplaceUser env order id now input
  | .deleteUser order id now => scimDeleteUser env order id now
  | .createGroup orders id now input => scimCreateGroup env orders id now input
  | .replaceGroup orders id now input => scimReplaceGroup env orders id now input
  | .deleteGroup orders id => scimDeleteGroup env orders id

end Knowledge.Permission
