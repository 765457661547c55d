import Knowledge.Lib.Transition
import Knowledge.Sync.Transport

/-!
`PersistentSyncEngine` of `crates/sync_engine/src/persist.rs`: the engine and the rows
of its scope in the database, with every SQLite transaction succeeding.
-/

set_option autoImplicit false

namespace Knowledge.Sync
open Knowledge.Machine Knowledge.Dedup Knowledge.Transition

structure Row where
  replicaId : Uuid
  seq : Int
  createdAt : Int
  opKind : String
  nonce : AeadNonce
  payload : Bytes

structure MetaRow where
  replicaId : Uuid
  clock : Int
  compactionEpoch : Int

/-- The rows of one scope. Every statement of the source names its scope, so the rows of
other scopes are never touched. -/
structure Database where
  syncOps : List Row
  syncMeta : Option MetaRow

structure Vault (T : Type) where
  json : Json (SyncOp T)
  aead : Aead
  scope : Uuid
  scopeKey : AeadKey

structure PersistentSyncEngine (T : Type) where
  engine : SyncEngine T
  db : Database
  persistedLen : Nat

def opAad (scope replica : Uuid) (seq : Nat) : Bytes :=
  "sync_op:v1:".toUTF8.data.toList ++ toBeBytes 16 scope.toNat ++ toBeBytes 16 replica.toNat ++
    toLeBytes 8 seq

def opKindTag {T : Type} : SyncOpKind T → String
  | .add _ _ => "add"
  | .remove _ _ => "remove"
  | .supersede _ _ _ => "supersede"

namespace Vault

def opRow {T : Type} (v : Vault T) (nonce : AeadNonce) (op : SyncOp T) : Except SyncError Row :=
  match v.json.toVec op with
  | none => .error (.serialisation "could not serialise sync op for persistence")
  | some payload =>
    match v.aead.encrypt v.scopeKey nonce payload (opAad v.scope op.replicaId op.seq) with
    | none => .error .crypto
    | some ct =>
      if i64Max < op.seq then
        .error (.serialisation "op seq exceeds SQLite signed 64-bit range")
      else
        .ok ⟨op.replicaId, op.seq, op.createdAt / 1000000000, opKindTag op.op, nonce, ct⟩

def upsertRow (rows : List Row) (row : Row) : List Row :=
  if rows.any (fun r => r.replicaId = row.replicaId ∧ r.seq = row.seq) then
    rows.map (fun r => if r.replicaId = row.replicaId ∧ r.seq = row.seq then row else r)
  else rows ++ [row]

/-- Insert the ops one by one; `nonces` gives the nonce drawn for each. -/
def insertOpRows {T : Type} (v : Vault T) (nonces : Uuid × Nat → AeadNonce) : List Row →
    List (SyncOp T) → Except SyncError (List Row)
  | rows, [] => .ok rows
  | rows, op :: ops =>
    match v.opRow (nonces op.key) op with
    | .error err => .error err
    | .ok row => insertOpRows v nonces (upsertRow rows row) ops

def metaRow {T : Type} (e : SyncEngine T) : Except SyncError MetaRow :=
  if i64Max < e.log.clock then
    .error (.serialisation "sync clock exceeds SQLite signed 64-bit range")
  else if i64Max < e.log.compactionEpoch then
    .error (.serialisation "compaction_epoch exceeds SQLite signed 64-bit range")
  else .ok ⟨e.replicaId, e.log.clock, e.log.compactionEpoch⟩

/-- The database a transaction leaves that inserts `ops` over `rows` and upserts the meta
row. An error rolls it back. -/
def transaction {T : Type} (v : Vault T) (nonces : Uuid × Nat → AeadNonce) (e : SyncEngine T)
    (rows : List Row) (ops : List (SyncOp T)) : Except SyncError Database :=
  match v.insertOpRows nonces rows ops with
  | .error err => .error err
  | .ok written =>
    match metaRow e with
    | .error err => .error err
    | .ok row => .ok ⟨written, some row⟩

end Vault

namespace PersistentSyncEngine

section

variable {T : Type}

def commit (p : PersistentSyncEngine T) : Except SyncError Database →
    PersistentSyncEngine T × Except SyncError Unit
  | .ok db => ({ p with db := db, persistedLen := p.engine.log.ops.length }, .ok ())
  | .error err => (p, .error err)

def rewriteAll (v : Vault T) (nonces : Uuid × Nat → AeadNonce)
    (p : PersistentSyncEngine T) : PersistentSyncEngine T × Except SyncError Unit :=
  p.commit (v.transaction nonces p.engine [] p.engine.log.ops)

/-- A log that got shorter is rewritten; of any other only the part past `persisted_len`
is inserted. -/
def flushAppended (v : Vault T) (nonces : Uuid × Nat → AeadNonce)
    (p : PersistentSyncEngine T) : PersistentSyncEngine T × Except SyncError Unit :=
  if p.engine.log.ops.length < p.persistedLen then p.rewriteAll v nonces
  else
    p.commit (v.transaction nonces p.engine p.db.syncOps (p.engine.log.ops.drop p.persistedLen))

def add [DecidableEq T] (v : Vault T) (nonces : Uuid × Nat → AeadNonce)
    (p : PersistentSyncEngine T) (env : Env T) (value : T) (tag : Uuid) :
    PersistentSyncEngine T × Except SyncError Unit :=
  { p with engine := p.engine.add env value tag }.flushAppended v nonces

/-- `remove` and `supersede` write nothing when the log kept its length. -/
def flushUnlessSameLength (v : Vault T) (nonces : Uuid × Nat → AeadNonce) (before : Nat)
    (p : PersistentSyncEngine T) : PersistentSyncEngine T × Except SyncError Unit :=
  if p.engine.log.ops.length = before then (p, .ok ()) else p.flushAppended v nonces

def remove [DecidableEq T] (v : Vault T) (nonces : Uuid × Nat → AeadNonce)
    (p : PersistentSyncEngine T) (env : Env T) (value : T) :
    PersistentSyncEngine T × Except SyncError Unit :=
  { p with engine := p.engine.remove env value }.flushUnlessSameLength v nonces
    p.engine.log.ops.length

def supersede [DecidableEq T] (v : Vault T) (nonces : Uuid × Nat → AeadNonce)
    (p : PersistentSyncEngine T) (env : Env T) (value successor : T) :
    PersistentSyncEngine T × Except SyncError Unit :=
  { p with engine := p.engine.supersede env value successor }.flushUnlessSameLength v nonces
    p.engine.log.ops.length

def merge [DecidableEq T] (v : Vault T) (nonces : Uuid × Nat → AeadNonce)
    (p : PersistentSyncEngine T) (env : Env T) (other : OpLog T) :
    PersistentSyncEngine T × Except SyncError Unit :=
  { p with engine := p.engine.merge env other }.flushAppended v nonces

def compact [DecidableEq T] (v : Vault T) (nonces : Uuid × Nat → AeadNonce)
    (p : PersistentSyncEngine T) (env : Env T) :
    PersistentSyncEngine T × Except SyncError Unit :=
  { p with engine := (p.engine.compact env).1 }.rewriteAll v nonces

def save (v : Vault T) (nonces : Uuid × Nat → AeadNonce) (p : PersistentSyncEngine T) :
    PersistentSyncEngine T × Except SyncError Unit := p.rewriteAll v nonces

end

end PersistentSyncEngine

/-! ## Reading the database back -/

namespace Vault

def rowLe (a b : Row) : Bool :=
  decide (a.replicaId < b.replicaId) || decide (a.replicaId = b.replicaId ∧ a.seq ≤ b.seq)

def rawRow (row : Row) : Except SyncError (Row × Nat) :=
  if row.seq < 0 then .error (.serialisation "persisted sync op had negative seq")
  else .ok (row, row.seq.toNat)

def openRow {T : Type} (v : Vault T) (raw : Row × Nat) : Except SyncError (SyncOp T) :=
  match v.aead.decrypt v.scopeKey raw.1.nonce raw.1.payload
      (opAad v.scope raw.1.replicaId raw.2) with
  | none => .error .crypto
  | some pt =>
    match v.json.fromSlice pt with
    | none => .error (.serialisation "persisted sync op did not deserialise")
    | some op => .ok op

def readOps {T : Type} (v : Vault T) (rows : List Row) : Except SyncError (List (SyncOp T)) := do
  let rawRows ← rows.mapM rawRow
  rawRows.mapM v.openRow

def restoreMeta {T : Type} (log : OpLog T) (row : Option MetaRow) : OpLog T :=
  match row with
  | none => log
  | some m =>
    { log with
      clock := max log.clock m.clock.toNat
      compactionEpoch := max log.compactionEpoch m.compactionEpoch.toNat }

def load {T : Type} (v : Vault T) (replicaId : Uuid) (db : Database) :
    Except SyncError (SyncEngine T) := do
  let ops ← v.readOps (db.syncOps.mergeSort rowLe)
  return SyncEngine.fromLog replicaId
    (restoreMeta ((OpLog.new replicaId).absorb ops) db.syncMeta)

end Vault

namespace PersistentSyncEngine

def openAt {T : Type} (v : Vault T) (replicaId : Uuid) (db : Database) :
    Except SyncError (PersistentSyncEngine T) := do
  let engine ← v.load replicaId db
  return ⟨engine, db, engine.log.ops.length⟩

end PersistentSyncEngine

end Knowledge.Sync
