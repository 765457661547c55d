import Knowledge.Sync.Transport

/-!
Snapshots of an engine: `snapshot`, `restore_snapshot` and
`bootstrap_from_snapshot_with_replica_id` of `crates/sync_engine/src/lib.rs`.
-/

set_option autoImplicit false

namespace Knowledge.Sync
open Knowledge.Machine Knowledge.Dedup

structure OpLogOnDisk (T : Type) where
  replicaId : Uuid
  clock : Nat
  compactionEpoch : Nat
  ops : List (SyncOp T)
  deriving DecidableEq

def OpLog.onDisk {T : Type} (log : OpLog T) : OpLogOnDisk T :=
  ⟨log.replicaId, log.clock, log.compactionEpoch, log.ops⟩

def OpLogOnDisk.toOpLog {T : Type} (disk : OpLogOnDisk T) : OpLog T :=
  ⟨disk.replicaId, disk.clock, disk.compactionEpoch, disk.ops, (disk.ops.map SyncOp.key).toFinset⟩

inductive CompactThresholdSetting where
  | enabled (value : Nat)
  | disabled
  | adaptive (tombstoneRatioThreshold : ℚ) (maxDeltaBytes : Nat)
  deriving DecidableEq

namespace CompactThresholdSetting

def fromPolicy : CompactionPolicy → CompactThresholdSetting
  | .fixed n => .enabled n
  | .disabled => .disabled
  | .adaptive ratio bytes => .adaptive ratio bytes

def intoPolicy : CompactThresholdSetting → CompactionPolicy
  | .enabled n => .fixed n
  | .disabled => .disabled
  | .adaptive ratio bytes => .adaptive ratio bytes

end CompactThresholdSetting

structure EngineSnapshot (T : Type) where
  replicaId : Uuid
  log : OpLogOnDisk T
  set : AddWinsSet T
  supersessions : List (T × T)
  compactThreshold : Option CompactThresholdSetting
  deriving DecidableEq

namespace SyncEngine

section

variable {T : Type}

def toSnapshot [DecidableEq T] (e : SyncEngine T) : EngineSnapshot T :=
  ⟨e.replicaId, e.log.onDisk, e.state.2.1, e.state.2.2, if e.compactionPolicy = .default then none
    else some (.fromPolicy e.compactionPolicy)⟩

def snapshot [DecidableEq T] (json : Json (EngineSnapshot T)) (e : SyncEngine T) :
    SyncEngine T × Except SyncError Bytes :=
  match json.toVec e.toSnapshot with
  | some bytes => (e.materialise, .ok bytes)
  | none => (e.materialise, .error (.serialisation "could not serialise engine snapshot"))

def hydrate (replicaId : Uuid) (log : OpLog T) (snap : EngineSnapshot T) :
    SyncEngine T :=
  let engine := fromLog replicaId log
  let engine := match snap.compactThreshold with
    | some setting => engine.withCompactionPolicy setting.intoPolicy
    | none => engine
  { engine with
    cachedState := some (snap.set, snap.supersessions)
    cacheWatermark := engine.log.ops.length }

def readSnapshot (json : Json (EngineSnapshot T)) (bytes : Bytes) :
    Except SyncError (EngineSnapshot T) :=
  match json.fromSlice bytes with
  | none => .error (.serialisation "could not deserialise engine snapshot")
  | some snap =>
    if snap.log.replicaId ≠ snap.replicaId then
      .error (.serialisation "snapshot replica_id does not match log.replica_id")
    else .ok snap

def restoreSnapshot (json : Json (EngineSnapshot T)) (bytes : Bytes) :
    Except SyncError (SyncEngine T) := do
  let snap ← readSnapshot json bytes
  return hydrate snap.replicaId snap.log.toOpLog snap

def bootstrapLog (snap : EngineSnapshot T) (newReplicaId : Uuid) : OpLog T :=
  { (OpLog.new newReplicaId).absorb snap.log.ops with
    compactionEpoch := snap.log.compactionEpoch }

def bootstrapFromSnapshotWithReplicaId (json : Json (EngineSnapshot T))
    (bytes : Bytes) (newReplicaId : Uuid) : Except SyncError (SyncEngine T) := do
  let snap ← readSnapshot json bytes
  return hydrate newReplicaId (bootstrapLog snap newReplicaId) snap

@[simp] theorem hydrate_log (replicaId : Uuid) (log : OpLog T)
    (snap : EngineSnapshot T) : (hydrate replicaId log snap).log = log := by
  unfold hydrate
  cases snap.compactThreshold <;> rfl

section

variable {json : Json (EngineSnapshot T)} {bytes : Bytes}

theorem readSnapshot_ok {snap : EngineSnapshot T} (h : readSnapshot json bytes = .ok snap) :
    json.fromSlice bytes = some snap ∧ snap.log.replicaId = snap.replicaId := by
  unfold readSnapshot at h
  split at h
  · simp at h
  · rename_i read hj
    split at h
    · simp at h
    · rename_i hr
      obtain rfl := Except.ok.inj h
      exact ⟨hj, not_not.mp hr⟩

theorem restoreSnapshot_ok {e : SyncEngine T} (h : restoreSnapshot json bytes = .ok e) :
    ∃ snap, json.fromSlice bytes = some snap ∧ snap.log.replicaId = snap.replicaId ∧
      e = hydrate snap.replicaId snap.log.toOpLog snap := by
  unfold restoreSnapshot at h
  cases hs : readSnapshot json bytes with
  | error err => simp [hs, bind, Except.bind] at h
  | ok snap =>
    obtain ⟨hj, hr⟩ := readSnapshot_ok hs
    simp only [hs, bind, Except.bind, pure, Except.pure, Except.ok.injEq] at h
    exact ⟨snap, hj, hr, h.symm⟩

theorem bootstrap_ok {newReplicaId : Uuid} {e : SyncEngine T}
    (h : bootstrapFromSnapshotWithReplicaId json bytes newReplicaId = .ok e) :
    ∃ snap, json.fromSlice bytes = some snap ∧
      e = hydrate newReplicaId (bootstrapLog snap newReplicaId) snap := by
  unfold bootstrapFromSnapshotWithReplicaId at h
  cases hs : readSnapshot json bytes with
  | error err => simp [hs, bind, Except.bind] at h
  | ok snap =>
    simp only [hs, bind, Except.bind, pure, Except.pure, Except.ok.injEq] at h
    exact ⟨snap, (readSnapshot_ok hs).1, h.symm⟩

end

end

end SyncEngine

end Knowledge.Sync
