import Knowledge.Sync.OpLog

/-!
What a compaction leaves of a log: the replica's own view of the set and the history, under
ids of its own. A second compaction finds nothing left to drop.
-/

set_option autoImplicit false

namespace Knowledge.Sync
open Knowledge.Machine
open SyncOp

def HashOrder.reversed {α : Type} (order : HashOrder α) : HashOrder α where
  iter s := (order.iter s).reverse
  nodup_iter s := List.nodup_reverse.mpr (order.nodup_iter s)
  mem_iter s a := List.mem_reverse.trans (order.mem_iter s a)

namespace OpLog

variable {T : Type}

theorem stamp_replicaId {replicaId : Uuid} {now : Nat → Int} {clock : Nat}
    {kinds : List (SyncOpKind T)} {o : SyncOp T} (h : o ∈ stamp replicaId now clock kinds) :
    o.replicaId = replicaId := by
  induction kinds generalizing clock with
  | nil => cases h
  | cons kind kinds ih =>
    obtain rfl | h := List.mem_cons.mp h
    · rfl
    · exact ih h

variable [DecidableEq T] (log : OpLog T) (env env' : Env T)

theorem compact_length :
    (log.compact env).1.ops.length = (log.survivors env).length := stamp_length _ _ _ _

theorem compact_seqs (h : log.clock+(log.compact env).1.ops.length ≤ u64Max) :
    ((log.compact env).1.ops.map seq).Nodup ∧
      ∀ o ∈ (log.compact env).1.ops, log.clock < o.seq := by
  rw [compact_length] at h
  have hseqs : (log.compact env).1.ops.map seq =
      List.range' (log.clock+1) (log.survivors env).length := by
    have hkeys := congrArg (List.map Prod.snd) (stamp_seqs log.replicaId env.now h)
    simp only [List.map_map, Function.comp_def, List.map_id'] at hkeys
    exact hkeys
  refine ⟨?_, fun o ho => ?_⟩
  · rw [hseqs]
    exact List.nodup_range'
  · have hmem : o.seq ∈ (log.compact env).1.ops.map seq := List.mem_map_of_mem ho
    rw [hseqs, List.mem_range'_1] at hmem
    omega

theorem compact_kinds :
    (log.compact env).1.ops.map op =
      (log.replay.1.livePairs env.values env.tags).map (fun p => .add p.1 p.2) ++
        log.replay.2.map (fun p => .supersede p.1 p.2 []) := compact_ops_kinds log env

theorem compact_no_remove {o : SyncOp T} (ho : o ∈ (log.compact env).1.ops) (value : T)
    (observed : List Uuid) : o.op ≠ .remove value observed := by
  intro heq
  have hmem : o.op ∈ (log.compact env).1.ops.map op := List.mem_map_of_mem ho
  rw [compact_kinds, heq] at hmem
  obtain hmem | hmem := List.mem_append.mp hmem
  · obtain ⟨p, -, hp⟩ := List.mem_map.mp hmem
    cases hp
  · obtain ⟨p, -, hp⟩ := List.mem_map.mp hmem
    cases hp

theorem livePairs_compact_perm :
    ((log.compact env).1.replay.1.livePairs env'.values env'.tags).Perm
      (log.replay.1.livePairs env.values env.tags) :=
  AddWinsSet.livePairs_perm (liveTag_compact log env) _ _ _ _

theorem compact_compact_length :
    ((log.compact env).1.compact env').1.ops.length = (log.compact env).1.ops.length := by
  have hlive := (livePairs_compact_perm log env env').length_eq
  rw [compact_length, compact_length, survivors, survivors, supersessions_compact]
  simp only [List.length_append, List.length_map, hlive]

end OpLog

open OpLog

/-- What the second of two logs has of the first one's ops: the same adds in some order, then
the same supersessions in the same order. -/
def SameUpToOrder {T : Type} (ops ops' : List (SyncOp T)) : Prop :=
  ∃ (pairs pairs' : List (T × Uuid)) (history : List (T × T)), pairs'.Perm pairs ∧
    ops.map SyncOp.op = pairs.map (fun p => .add p.1 p.2) ++
      history.map (fun p => .supersede p.1 p.2 []) ∧
    ops'.map SyncOp.op = pairs'.map (fun p => .add p.1 p.2) ++
      history.map (fun p => .supersede p.1 p.2 [])

/-- The view of the replica is kept, every id is its own, and only as long as the counters are
not at their end are they new. -/
theorem compact_keeps_view {T : Type} [DecidableEq T] (log : OpLog T) (env env' : Env T) :
    let compacted := (log.compact env).1
    (∀ value tag, compacted.replay.1.LiveTag value tag ↔ log.replay.1.LiveTag value tag) ∧
      compacted.replay.2 = log.replay.2 ∧
      compacted.compactionEpoch = min (log.compactionEpoch+1) u64Max ∧
      compacted.Indexed ∧
      (∀ o ∈ compacted.ops, o.replicaId = log.replicaId ∧
        ∀ value observed, o.op ≠ .remove value observed) ∧
      (log.clock+compacted.ops.length ≤ u64Max →
        (compacted.ops.map seq).Nodup ∧ ∀ o ∈ compacted.ops, log.clock < o.seq) ∧
      (compacted.compact env').2 = 0 ∧
      (compacted.compact env').1.replicaId = compacted.replicaId ∧
      SameUpToOrder compacted.ops (compacted.compact env').1.ops := by
  refine ⟨liveTag_compact log env, supersessions_compact log env, rfl,
    indexed_compact log env, fun o ho => ⟨stamp_replicaId ho, fun value observed =>
      compact_no_remove log env ho value observed⟩, compact_seqs log env, ?_, rfl, ?_⟩
  · have hlength := compact_compact_length log env env'
    change (log.compact env).1.ops.length - ((log.compact env).1.compact env').1.ops.length = 0
    omega
  · refine ⟨_, _, _, livePairs_compact_perm log env env', compact_kinds log env, ?_⟩
    rw [compact_kinds, supersessions_compact]

def lastLog : OpLog Nat := ⟨1, u64Max, u64Max, [⟨2, 1, 0, .add 10 100⟩], {(2, 1)}⟩

def pairLog : OpLog Nat :=
  ⟨1, 2, 0, [⟨1, 1, 0, .add 10 100⟩, ⟨1, 2, 0, .add 11 101⟩], {(1, 1), (1, 2)}⟩

/-- At its end the clock gives no new seq and the epoch stays; and a second walk over the
values may meet them in another order. -/
theorem compaction_reuses_and_reorders :
    (lastLog.Indexed ∧ (∀ o ∈ lastLog.ops, o.replicaId = 1 → o.seq ≤ lastLog.clock) ∧
      (∃ o ∈ (lastLog.compact .atEpoch).1.ops, ¬lastLog.clock < o.seq) ∧
      (lastLog.compact .atEpoch).1.compactionEpoch = lastLog.compactionEpoch) ∧
    (pairLog.Indexed ∧ (∀ o ∈ pairLog.ops, o.replicaId = 1 → o.seq ≤ pairLog.clock) ∧
      ((pairLog.compact .atEpoch).1.compact
        { Env.atEpoch with values := Env.atEpoch.values.reversed }).1.ops.map op ≠
        (pairLog.compact .atEpoch).1.ops.map op) := by
  refine ⟨⟨rfl, ?_, ?_, ?_⟩, rfl, ?_, ?_⟩
  · decide +kernel
  · decide +kernel
  · decide +kernel
  · decide +kernel
  · decide +kernel

end Knowledge.Sync
