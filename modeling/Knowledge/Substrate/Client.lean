import Knowledge.Permission.Check
import Knowledge.Replication.Primary

/-!
`server/internal/substrate/client.go` and the permission handlers of
`crates/substrate_server/src/lib.rs`: how the gateway picks the node for a request, and what
that node makes of it. A base URL of the client stands for its node.
-/

set_option autoImplicit false

namespace Knowledge.Substrate
open Knowledge.Permission
open Knowledge.Replication (ReplicationShared ReplError Role ensureWritable)

inductive Method where
  | get | post | delete

structure HttpError where
  status : Nat
  kind : String

structure Client where
  nodes : Nat
  primary : Nat

def isReadRoute (method : Method) (path : String) : Bool :=
  match method with
  | .get => true
  | .post => ["/query", "/memories", "/synthesis/recent", "/permission/check",
    "/reasoning/contradictions", "/reasoning/drift", "/reasoning/explain"].contains path
  | .delete => false

def isFailoverErr (err : HttpError) : Bool :=
  (err.status == 502 && err.kind == "SubstrateUnavailable") || err.status == 503

def isNotFound (err : HttpError) : Bool := err.status == 404

namespace Client

def new (nodes : Nat) : Client := ⟨nodes, 0⟩

def nodeOrder (c : Client) (write : Bool) : List Nat :=
  let others := (List.range c.nodes).filter (· ≠ c.primary)
  if write then c.primary :: others else others ++ [c.primary]

def setPrimary (c : Client) (idx : Nat) : Client := { c with primary := idx }

section

variable {σ α : Type} [Inhabited α]

def tryNodes (write : Bool) (attempt : Nat → σ → Except HttpError α × σ) :
    List Nat → Option HttpError → Client → σ → Except HttpError α × Client × σ
  | [], lastErr, c, s => (match lastErr with | some err => .error err | none => .ok default, c, s)
  | idx :: rest, _, c, s =>
    match attempt idx s with
    | (.ok out, s) => (.ok out, if write then c.setPrimary idx else c, s)
    | (.error err, s) =>
      if !rest.isEmpty && (isFailoverErr err || (!write && isNotFound err)) then
        tryNodes write attempt rest (some err) c s
      else (.error err, c, s)

def route (c : Client) (method : Method) (path : String)
    (attempt : Nat → σ → Except HttpError α × σ) (s : σ) : Except HttpError α × Client × σ :=
  let write := !isReadRoute method path
  tryNodes write attempt (c.nodeOrder write) none c s

end

end Client

inductive FfiError where
  | notFound (kind id : String)
  | unavailable (subsystem : String)

namespace FfiError

def status : FfiError → Nat
  | notFound _ _ => 404
  | unavailable _ => 503

def tag : FfiError → String
  | notFound _ _ => "NotFound"
  | unavailable _ => "Unavailable"

end FfiError

def hexMagic (magic : UInt32) : String :=
  let digits := Nat.toDigits 16 magic.toNat
  String.ofList ('0' :: 'x' :: List.replicate (8-digits.length) '0' ++ digits)

def replErrorText : ReplError → String
  | .malformed text => s!"malformed WAL/segment data: {text}"
  | .badMagic magic => s!"unrecognised WAL magic: {hexMagic magic}"
  | .transport text => s!"replication transport error: {text}"
  | .badRole role =>
    s!"invalid replication role `{role}` (expected primary|standby|auto|disabled)"
  | .misconfigured text => s!"replication misconfigured: {text}"

def objectTypeDebug : ObjectType → String
  | .tenant => "Tenant"
  | .domain => "Domain"
  | .channel => "Channel"
  | .user => "User"
  | .group => "Group"
  | .device => "Device"
  | .concept => "Concept"
  | .summary => "Summary"
  | .workflow => "Workflow"
  | .exportProfile => "ExportProfile"
  | .agent => "Agent"

def relationDebug : Relation → String
  | .owner => "Owner"
  | .admin => "Admin"
  | .editor => "Editor"
  | .member => "Member"
  | .viewer => "Viewer"
  | .synthesizer => "Synthesizer"
  | .proposer => "Proposer"

def permissionErrorText : PermissionError → String
  | .duplicateTuple => "relation tuple already exists"
  | .notFound => "relation tuple not found"
  | .namespaceAlreadyRegistered objectType =>
    s!"namespace already registered: {objectTypeDebug objectType}"

/-- The tuple set that answers queries, and the rows of its database, oldest first. -/
structure PersistentTupleStore where
  store : TupleStore
  rows : List RelationTuple

namespace PersistentTupleStore

def openRows (rows : List RelationTuple) : PersistentTupleStore :=
  ⟨rows.foldl (fun store tuple => (store.upsert tuple).2) .new, rows⟩

def upsert (self : PersistentTupleStore) (tuple : RelationTuple) : Bool × PersistentTupleStore :=
  let upserted := self.store.upsert tuple
  (upserted.1, ⟨upserted.2, if upserted.1 then self.rows ++ [tuple] else self.rows⟩)

def remove (self : PersistentTupleStore) (tuple : RelationTuple) :
    Except PermissionError Unit × PersistentTupleStore :=
  match self.store.remove tuple with
  | (.error err, _) => (.error err, self)
  | (.ok (), store) => (.ok (), ⟨store, self.rows.filter (· ≠ tuple)⟩)

end PersistentTupleStore

/-- A substrate server: its replication state, the evidence store file that is replicated and
the permission store, a file of its own that is read once at start. -/
structure Node (F : Type) where
  replication : ReplicationShared
  file : F
  permissions : PersistentTupleStore

section

variable {F : Type}

def mapPermissionErr : PermissionError → FfiError
  | .notFound => .notFound "relation_tuple" ""
  | other => .unavailable s!"permission-store: {permissionErrorText other}"

def guardWritable (st : Node F) : Except FfiError Unit :=
  match ensureWritable st.replication with
  | .ok () => .ok ()
  | .error e => .error (.unavailable s!"replication-standby: {replErrorText e}")

def permissionGrant (tuple : RelationTuple) (st : Node F) : Except FfiError Nat × Node F :=
  match guardWritable st with
  | .error e => (.error e, st)
  | .ok () =>
    let upserted := st.permissions.upsert tuple
    (.ok (if upserted.1 then 201 else 200), { st with permissions := upserted.2 })

def permissionRevoke (tuple : RelationTuple) (st : Node F) : Except FfiError Nat × Node F :=
  match guardWritable st with
  | .error e => (.error e, st)
  | .ok () =>
    if tuple ∉ st.permissions.store.tuples then
      (.error (.notFound "relation_tuple" (relationDebug tuple.relation)), st)
    else
      match st.permissions.remove tuple with
      | (.error e, permissions) => (.error (mapPermissionErr e), { st with permissions })
      | (.ok (), permissions) => (.ok 204, { st with permissions })

/-- The search never goes deeper than there are tuples. -/
def permissionCheck (tuple : RelationTuple) (st : Node F) : Except FfiError Bool × Node F :=
  let store := st.permissions.store
  (.ok ((checkPermission (store.tuples.card+1) store .withDefaults tuple.object tuple.relation
    tuple.subject).getD false), st)

def doOne {α : Type} (handler : Node F → Except FfiError α × Node F) (idx : Nat)
    (nodes : List (Node F)) : Except HttpError α × List (Node F) :=
  match nodes[idx]? with
  | none => (.error ⟨502, "SubstrateUnavailable"⟩, nodes)
  | some st =>
    match handler st with
    | (.ok out, st) => (.ok out, nodes.set idx st)
    | (.error e, st) => (.error ⟨e.status, e.tag⟩, nodes.set idx st)

namespace Client

def permissionGrant (c : Client) (tuple : RelationTuple) (nodes : List (Node F)) :
    Except HttpError Nat × Client × List (Node F) :=
  c.route .post "/permission/grant" (doOne (Substrate.permissionGrant tuple)) nodes

def permissionRevoke (c : Client) (tuple : RelationTuple) (nodes : List (Node F)) :
    Except HttpError Nat × Client × List (Node F) :=
  c.route .post "/permission/revoke" (doOne (Substrate.permissionRevoke tuple)) nodes

def permissionCheck (c : Client) (tuple : RelationTuple) (nodes : List (Node F)) :
    Except HttpError Bool × Client × List (Node F) :=
  c.route .post "/permission/check" (doOne (Substrate.permissionCheck tuple)) nodes

end Client

end

end Knowledge.Substrate
