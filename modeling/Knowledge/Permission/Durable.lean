import Knowledge.Lib.Machine
import Knowledge.Permission.Scim

/-!
The directory store behind the cache, and the write handlers again with the store they write
through.
-/

set_option autoImplicit false

namespace Knowledge.Permission
open Knowledge.Atomic Knowledge.Machine

/-- What the writes of a store do to the directory it keeps, when they succeed. -/
structure DirectoryStore where
  saveUser : User → Directory → Directory
  saveGroup : Group → Directory → Directory
  deleteUser : String → List Group → Directory → Directory
  deleteGroup : String → Directory → Directory

def noopDirectoryStore : DirectoryStore :=
  ⟨fun _ => id, fun _ => id, fun _ _ => id, fun _ => id⟩

/-- The row of a user. Its two times are of whole microseconds. -/
def User.stored (u : User) : User :=
  { u with created := wholeMicros u.created, lastModified := wholeMicros u.lastModified }

def Group.stored (g : Group) : Group :=
  { g with created := wholeMicros g.created, lastModified := wholeMicros g.lastModified }

def postgresDirectoryStore : DirectoryStore where
  saveUser u dir :=
    dir.setUser u.id { u.stored with
      created := ((dir.users.lookup u.id).map User.created).getD (wholeMicros u.created) }
  saveGroup g dir :=
    dir.setGroup g.id { g.stored with
      created := ((dir.groups.lookup g.id).map Group.created).getD (wholeMicros g.created) }
  deleteUser userId updatedGroups dir :=
    ⟨dir.users.erase userId, updatedGroups.foldl updateMembers dir.groups⟩
  deleteGroup groupId dir := dir.deleteGroup groupId
where
  updateMembers (groups : AList (fun _ : String => Group)) (g : Group) :
      AList (fun _ : String => Group) :=
    match groups.lookup g.id with
    | none => groups
    | some row =>
      groups.insert g.id
        { row with members := g.members, lastModified := wholeMicros g.lastModified }

structure Host where
  svc : Service
  durable : Directory

def onHost {ρ : Type} (p : Prog Service ρ) : Prog Host ρ :=
  p.zoom Host.svc (fun svc h => { h with svc })

namespace Host

/-- One write to the directory store, which may use the cache, and the change of the cache
if it succeeds. -/
def save (env : Env) (write : Directory → Directory → Directory)
    (change : Directory → Directory) (h : Host) : Host × Bool :=
  let saved := h.svc.save env change
  let durable := if env.net h.svc.calls = .dropped then h.durable else write h.svc.dir h.durable
  (⟨saved.1, durable⟩, saved.2)

def persist (env : Env) (write : Directory → Directory → Directory)
    (change : Directory → Directory) (ops : List TupleOp) (detail : String) (reply : Reply) :
    Prog Host Reply := do
  if ← Prog.modify (save env write change) then pure reply
  else
    onHost (rollbackTupleOps env ops)
    pure (.error 500 detail)

def persistPresent (env : Env) (gone : Directory → Prop) [DecidablePred gone]
    (write : Directory → Directory → Directory) (change : Directory → Directory)
    (ops : List TupleOp) (conflict detail : String) (reply : Reply) : Prog Host Reply := do
  match ← commit with
  | .gone =>
    onHost (compensateGrants env ops)
    pure (.error 409 conflict)
  | .failed =>
    onHost (rollbackTupleOps env ops)
    pure (.error 500 detail)
  | .saved => pure reply
where
  commit : Prog Host Commit :=
    .modify fun h =>
      if gone h.svc.dir then (h, .gone)
      else (h.save env write change).map (fun h => h) fun ok => if ok then .saved else .failed

variable (env : Env) (store : DirectoryStore)

def scimCreateUser (id : String) (now : Int) (input : Option UserInput) : Prog Host Reply :=
  match input with
  | none => pure (.error 400 "invalid SCIM User payload")
  | some input =>
    if input.userName = "" then pure (.error 400 "userName is required")
    else
      let u : User := ⟨id, input.userName, true, input.emails, now, now⟩
      .modify fun h =>
        if h.svc.dir.users.entries.any (fun e => e.2.userName = input.userName) then
          (h, .error 409 "userName already exists")
        else
          (h.save env (fun _ => store.saveUser u) (·.setUser id u)).map (fun h => h) fun ok =>
            if ok then .user 201 u else .error 500 "failed to persist user"

def finishUser (id : String) (next : User) (toggleOps : List TupleOp) : Prog Host Reply :=
  persistPresent env (fun dir => dir.users.lookup id = none) (fun _ => store.saveUser next)
    (·.setUser id next) toggleOps "user was deleted concurrently" "failed to persist user"
    (.user 200 next)

def scimReplaceUser (order : MapOrder) (id : String) (now : Int) (input : Option UserInput) :
    Prog Host Reply :=
  match input with
  | none => pure (.error 400 "invalid SCIM User payload")
  | some input => do
    match ← onHost (Prog.read fun s : Service => s.dir.users.lookup id) with
    | none => pure (.error 404 "user not found")
    | some prev =>
      let next := prev.replace now input
      if prev.active ≠ next.active then
        let toggleOps ← onHost (userActiveToggleOps order id next.active)
        if ← onHost (applyTupleOps env toggleOps) then finishUser env store id next toggleOps
        else pure (.error 500 "failed to reconcile membership tuples")
      else finishUser env store id next []

def finishDeleteUser (id : String) (now : Int) (removalOps : List TupleOp) : Prog Host Reply :=
  persist env (fun dir => store.deleteUser id (dir.stripped id now)) (·.deleteUser id now)
    removalOps "failed to persist user deletion" .noContent

def scimDeleteUser (order : MapOrder) (id : String) (now : Int) : Prog Host Reply := do
  match ← onHost (Prog.read fun s : Service => s.dir.users.lookup id) with
  | none => pure (.error 404 "user not found")
  | some _ =>
    let removalOps ← onHost (userRemovalOps order id)
    if ← onHost (applyTupleOps env removalOps) then finishDeleteUser env store id now removalOps
    else pure (.error 500 "failed to reconcile membership tuples")

def finishCreateGroup (g : Group) (ops : List TupleOp) : Prog Host Reply :=
  persist env (fun _ => store.saveGroup g) (·.setGroup g.id g) ops "failed to persist group"
    (.group 201 g)

def scimCreateGroup (orders : MapOrders) (id : String) (now : Int) (input : Option GroupInput) :
    Prog Host Reply :=
  match input with
  | none => pure (.error 400 "invalid SCIM Group payload")
  | some input =>
    if input.displayName = "" then pure (.error 400 "displayName is required")
    else do
      let g : Group := ⟨id, input.displayName, input.members, now, now⟩
      let memberOps ← onHost (groupReconcileOps env orders g.id [] g.members)
      let ops := memberOps ++ groupRoleReconcileOps env.parse "" g.displayName g.id
      if ← onHost (applyTupleOps env ops) then finishCreateGroup env store g ops
      else pure (.error 500 "failed to sync group membership tuples")

def finishReplaceGroup (id : String) (next : Group) (ops : List TupleOp) : Prog Host Reply :=
  persistPresent env (fun dir => dir.groups.lookup id = none) (fun _ => store.saveGroup next)
    (·.setGroup id next) ops "group was deleted concurrently" "failed to persist group"
    (.group 200 next)

def scimReplaceGroup (orders : MapOrders) (id : String) (now : Int)
    (input : Option GroupInput) : Prog Host Reply :=
  match input with
  | none => pure (.error 400 "invalid SCIM Group payload")
  | some input => do
    match ← onHost (Prog.read fun s : Service => s.dir.groups.lookup id) with
    | none => pure (.error 404 "group not found")
    | some g =>
      let next := g.replace now input
      let memberOps ← onHost (groupReconcileOps env orders id g.members next.members)
      let ops := memberOps ++ groupRoleReconcileOps env.parse g.displayName next.displayName id
      if ← onHost (applyTupleOps env ops) then finishReplaceGroup env store id next ops
      else pure (.error 500 "failed to sync group membership tuples")

def finishDeleteGroup (id : String) (ops : List TupleOp) : Prog Host Reply :=
  persist env (fun _ => store.deleteGroup id) (·.deleteGroup id) ops
    "failed to persist group deletion" .noContent

def scimDeleteGroup (orders : MapOrders) (id : String) : Prog Host Reply := do
  match ← onHost (Prog.read fun s : Service => s.dir.groups.lookup id) with
  | none => pure (.error 404 "group not found")
  | some g =>
    let memberOps ← onHost (groupReconcileOps env orders id g.members [])
    let ops := memberOps ++ groupRoleReconcileOps env.parse g.displayName "" id
    if ← onHost (applyTupleOps env ops) then finishDeleteGroup env store id ops
    else pure (.error 500 "failed to sync group membership tuples")

end Host

def Request.durable (env : Env) (store : DirectoryStore) : Request → Prog Host Reply
  | .createUser id now input => Host.scimCreateUser env store id now input
  | .replaceUser order id now input => Host.scimReplaceUser env store order id now input
  | .deleteUser order id now => Host.scimDeleteUser env store order id now
  | .createGroup orders id now input => Host.scimCreateGroup env store orders id now input
  | .replaceGroup orders id now input => Host.scimReplaceGroup env store orders id now input
  | .deleteGroup orders id => Host.scimDeleteGroup env store orders id

end Knowledge.Permission
