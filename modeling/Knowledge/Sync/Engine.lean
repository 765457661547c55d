import Mathlib.Algebra.Order.Ring.Rat
import Knowledge.Sync.OpLog

/-!
`SyncEngine` of `crates/sync_engine/src/lib.rs`: the op log, its incrementally
maintained cache and the auto-compaction trigger.
-/

set_option autoImplicit false

namespace Knowledge.Sync
open Knowledge.Machine Knowledge.Dedup

def defaultCompactThreshold : Nat := 10000

def defaultTombstoneRatioThreshold : ℚ := 3/10

def defaultMaxDeltaBytes : Nat := 4194304

def estimatedBytesPerOp : Nat := 256

def minAdaptiveGrowth : Nat := defaultCompactThreshold

/-- The ratio threshold is the written decimal. A double quotient of two op counts
is above the double nearest to it exactly when the quotient is above the decimal,
as long as the counts stay below `2^50`. -/
inductive CompactionPolicy where
  | fixed (threshold : Nat)
  | adaptive (tombstoneRatioThreshold : ℚ) (maxDeltaBytes : Nat)
  | disabled
  deriving DecidableEq

namespace CompactionPolicy

def default : CompactionPolicy := .adaptive defaultTombstoneRatioThreshold defaultMaxDeltaBytes

end CompactionPolicy

structure SyncEngine (T : Type) where
  replicaId : Uuid
  log : OpLog T
  cachedState : Option (Replayed T)
  cacheWatermark : Nat
  compactionPolicy : CompactionPolicy
  compactBaseline : Nat
  tombstoneCountSinceBaseline : Nat
  deriving DecidableEq

/-- Wire envelope of a delta. `sinceSeq` is carried for diagnostics only. -/
structure DeltaEnvelope (T : Type) where
  compactionEpoch : Nat
  sinceSeq : Nat
  ops : List (SyncOp T)
  deriving DecidableEq

namespace SyncEngine

section

variable {T : Type}

def fromLog (replicaId : Uuid) (log : OpLog T) : SyncEngine T :=
  ⟨replicaId, log, none, 0, .default, log.ops.length, 0⟩

def withReplicaId (replicaId : Uuid) : SyncEngine T :=
  fromLog replicaId (OpLog.new replicaId)

def withCompactionPolicy (e : SyncEngine T) (policy : CompactionPolicy) :
    SyncEngine T := { e with compactionPolicy := policy }

def invalidateCache (e : SyncEngine T) : SyncEngine T :=
  { e with cachedState := none, cacheWatermark := 0 }

/-- A current cache is left alone, a stale one extended by the ops past its
watermark, and a missing one rebuilt from the log. -/
def materialise [DecidableEq T] (e : SyncEngine T) : SyncEngine T :=
  match e.cachedState with
  | some cache =>
    if e.cacheWatermark ≤ e.log.ops.length then
      { e with
        cachedState := some (replayFrom cache (e.log.ops.drop e.cacheWatermark))
        cacheWatermark := e.log.ops.length }
    else { e with cachedState := some e.log.replay, cacheWatermark := e.log.ops.length }
  | none => { e with cachedState := some e.log.replay, cacheWatermark := e.log.ops.length }

def state [DecidableEq T] (e : SyncEngine T) : SyncEngine T × Replayed T :=
  (e.materialise, e.materialise.cachedState.getD (AddWinsSet.new, []))

def compact [DecidableEq T] (e : SyncEngine T) (env : Env T) : SyncEngine T × Nat :=
  let compacted := e.log.compact env
  let engine := ({ e with log := compacted.1 }).invalidateCache.materialise
  ({ engine with
      compactBaseline := engine.log.ops.length
      tombstoneCountSinceBaseline := 0 }, compacted.2)

def shouldCompact (e : SyncEngine T) : Bool :=
  let growth := e.log.ops.length - e.compactBaseline
  match e.compactionPolicy with
  | .disabled => false
  | .fixed threshold => decide (threshold < growth)
  | .adaptive ratio maxDeltaBytes =>
    if growth ≤ minAdaptiveGrowth then false
    else
      decide (ratio < (e.tombstoneCountSinceBaseline : ℚ) / growth) ||
        decide (maxDeltaBytes < min (growth * estimatedBytesPerOp) usizeMax)

def maybeAutoCompact [DecidableEq T] (e : SyncEngine T) (env : Env T) :
    SyncEngine T := if e.shouldCompact then (e.compact env).1 else e

def reflect (e : SyncEngine T) (log : OpLog T) (update : Replayed T → Replayed T) :
    SyncEngine T :=
  { e with
    log := log
    cachedState := e.cachedState.map update
    cacheWatermark := if e.cachedState.isSome then log.ops.length else e.cacheWatermark }

end

/-! Each mutator is its body up to the call of `maybe_auto_compact`, then that call. -/

section

variable {T : Type} [DecidableEq T]

def recordAdd (e : SyncEngine T) (env : Env T) (value : T) (tag : Uuid) : SyncEngine T :=
  e.reflect (e.log.recordAdd env value tag) (fun c => (c.1.addWithTag value tag, c.2))

def add (e : SyncEngine T) (env : Env T) (value : T) (tag : Uuid) :
    SyncEngine T := (e.recordAdd env value tag).maybeAutoCompact env

def observedTags (e : SyncEngine T) (env : Env T) (value : T) :
    List Uuid :=
  match e.materialise.cachedState with
  | some cache => cache.1.liveTags env.tags value
  | none => []

def recordRemove (e : SyncEngine T) (env : Env T) (value : T) :
    SyncEngine T :=
  let observed := e.observedTags env value
  let e := e.materialise
  { e.reflect (e.log.recordRemove env value observed)
      (fun c => (c.1.removeTags value observed, c.2)) with
    tombstoneCountSinceBaseline := e.tombstoneCountSinceBaseline+1 }

def remove (e : SyncEngine T) (env : Env T) (value : T) :
    SyncEngine T :=
  if e.observedTags env value = [] then e.materialise
  else (e.recordRemove env value).maybeAutoCompact env

def recordSupersede (e : SyncEngine T) (env : Env T) (value successor : T) : SyncEngine T :=
  let observed := e.observedTags env value
  let e := e.materialise
  { e.reflect (e.log.recordSupersede env value successor observed)
      (fun c => (c.1.removeTags value observed, c.2 ++ [(value, successor)])) with
    tombstoneCountSinceBaseline := e.tombstoneCountSinceBaseline+1 }

section

variable (e : SyncEngine T)

def supersede (env : Env T) (value successor : T) : SyncEngine T :=
  (e.recordSupersede env value successor).maybeAutoCompact env

/-- What `merge` and `merge_delta_envelope` do around a log that has absorbed ops. -/
def extend (log : OpLog T) : SyncEngine T :=
  let absorbed := log.ops.drop e.log.ops.length
  { e.reflect log (fun c => replayFrom c absorbed) with
    tombstoneCountSinceBaseline :=
      e.tombstoneCountSinceBaseline + (absorbed.filter (fun o => o.op.isTombstone)).length }

def absorbLog (other : OpLog T) : SyncEngine T :=
  e.extend (e.log.merge other)

def merge (env : Env T) (other : OpLog T) :
    SyncEngine T := (e.absorbLog other).maybeAutoCompact env

def absorbEnvelope (envelope : DeltaEnvelope T) :
    SyncEngine T :=
  e.extend { e.log.absorb envelope.ops with
    compactionEpoch := max e.log.compactionEpoch envelope.compactionEpoch }

def mergeDeltaEnvelope (env : Env T) (envelope : DeltaEnvelope T) : SyncEngine T × Nat :=
  ((e.absorbEnvelope envelope).maybeAutoCompact env,
    (e.absorbEnvelope envelope).log.ops.length - e.log.ops.length)

end

end

end SyncEngine

/-- One call on an engine. A peer engine is its log and an accepted delta its envelope. -/
inductive Call (T : Type) where
  | add (value : T) (tag : Uuid)
  | remove (value : T)
  | supersede (value successor : T)
  | merge (other : OpLog T)
  | mergeDelta (envelope : DeltaEnvelope T)
  | state
  | compact
  deriving DecidableEq

def Call.entries {T : Type} : Call T → List (SyncOp T)
  | .merge other => other.ops
  | .mergeDelta envelope => envelope.ops
  | _ => []

namespace SyncEngine

section

variable {T : Type} [DecidableEq T]

section

variable (e : SyncEngine T)

def recorded (env : Env T) : Call T → SyncEngine T
  | .add value tag => e.recordAdd env value tag
  | .remove value =>
    if e.observedTags env value = [] then e.materialise else e.recordRemove env value
  | .supersede value successor => e.recordSupersede env value successor
  | .merge other => e.absorbLog other
  | .mergeDelta envelope => e.absorbEnvelope envelope
  | .state => e.state.1
  | .compact => e

def compacts (env : Env T) (c : Call T) : Bool :=
  match c with
  | .state => false
  | .compact => true
  | .remove value =>
    decide (e.observedTags env value ≠ []) && (e.recorded env c).shouldCompact
  | _ => (e.recorded env c).shouldCompact

def call (env : Env T) : Call T → SyncEngine T
  | .add value tag => e.add env value tag
  | .remove value => e.remove env value
  | .supersede value successor => e.supersede env value successor
  | .merge other => e.merge env other
  | .mergeDelta envelope => (e.mergeDeltaEnvelope env envelope).1
  | .state => e.state.1
  | .compact => (e.compact env).1

def calls (cs : List (Env T × Call T)) :
    SyncEngine T := cs.foldl (fun e c => e.call c.1 c.2) e

@[simp] theorem calls_nil : e.calls [] = e := rfl

@[simp] theorem calls_cons (c : Env T × Call T) (cs : List (Env T × Call T)) :
    e.calls (c :: cs) = (e.call c.1 c.2).calls cs := rfl

theorem calls_append (cs ds : List (Env T × Call T)) : e.calls (cs ++ ds) = (e.calls cs).calls ds :=
  List.foldl_append

theorem call_eq (env : Env T) (c : Call T) :
    e.call env c =
      if e.compacts env c then ((e.recorded env c).compact env).1 else e.recorded env c := by
  cases c with
  | remove value =>
    by_cases h : e.observedTags env value = []
    · simp [call, remove, compacts, recorded, h]
    · simp [call, remove, compacts, recorded, h, maybeAutoCompact]
  | _ => rfl

end

end

/-! ## What a call does to the log -/

section

variable {T : Type} [DecidableEq T]

section

variable (e : SyncEngine T)

@[simp] theorem materialise_log :
    e.materialise.log = e.log := by
  unfold materialise
  split
  · split <;> rfl
  · rfl

@[simp] theorem materialise_replicaId :
    e.materialise.replicaId = e.replicaId := by
  unfold materialise
  split
  · split <;> rfl
  · rfl

@[simp] theorem materialise_compactionPolicy :
    e.materialise.compactionPolicy = e.compactionPolicy := by
  unfold materialise
  split
  · split <;> rfl
  · rfl

@[simp] theorem materialise_compactBaseline :
    e.materialise.compactBaseline = e.compactBaseline := by
  unfold materialise
  split
  · split <;> rfl
  · rfl

@[simp] theorem materialise_tombstoneCount :
    e.materialise.tombstoneCountSinceBaseline = e.tombstoneCountSinceBaseline := by
  unfold materialise
  split
  · split <;> rfl
  · rfl

@[simp] theorem compact_log (env : Env T) :
    (e.compact env).1.log = (e.log.compact env).1 := by
  simp [compact, invalidateCache]

@[simp] theorem compact_replicaId (env : Env T) :
    (e.compact env).1.replicaId = e.replicaId := by
  simp [compact, invalidateCache]

@[simp] theorem compact_compactionPolicy (env : Env T) :
    (e.compact env).1.compactionPolicy = e.compactionPolicy := by
  simp [compact, invalidateCache]

@[simp] theorem recorded_replicaId (env : Env T)
    (c : Call T) : (e.recorded env c).replicaId = e.replicaId := by
  cases c with
  | remove value =>
    simp only [recorded]
    split <;> simp [recordRemove, reflect]
  | _ => simp [recorded, recordAdd, recordSupersede, absorbLog, absorbEnvelope, extend, reflect,
      state]

@[simp] theorem recorded_compactionPolicy (env : Env T) (c : Call T) :
    (e.recorded env c).compactionPolicy = e.compactionPolicy := by
  cases c with
  | remove value =>
    simp only [recorded]
    split <;> simp [recordRemove, reflect]
  | _ => simp [recorded, recordAdd, recordSupersede, absorbLog, absorbEnvelope, extend, reflect,
      state]

end

end

end SyncEngine

/-- How the recording part of a call grows a log: not at all, by one own op, or by the
ops it absorbs at some epoch. -/
inductive Grows {T : Type} (env : Env T) (entries : List (SyncOp T)) (log : OpLog T) :
    OpLog T → Prop where
  | same : Grows env entries log log
  | append (op : SyncOpKind T) : Grows env entries log (log.append env op)
  | absorb (epoch : Nat) :
    Grows env entries log { log.absorb entries with compactionEpoch := epoch }

namespace SyncEngine

section

variable {T : Type} [DecidableEq T]

section

variable (e : SyncEngine T) (env : Env T) (c : Call T)

theorem recorded_grows : Grows env c.entries e.log (e.recorded env c).log := by
  cases c with
  | add value tag => exact .append _
  | remove value =>
    simp only [recorded]
    split
    · rw [materialise_log]
      exact .same
    · simp only [recordRemove, reflect, materialise_log]
      exact .append _
  | supersede value successor =>
    simp only [recorded, recordSupersede, reflect, materialise_log]
    exact .append _
  | merge other => exact .absorb _
  | mergeDelta envelope => exact .absorb _
  | state =>
    simp only [recorded, state, materialise_log]
    exact .same
  | compact => exact .same

theorem call_log :
    (e.call env c).log =
      if e.compacts env c then ((e.recorded env c).log.compact env).1
      else (e.recorded env c).log := by
  rw [call_eq]
  split
  · rw [compact_log]
  · rfl

@[simp] theorem call_replicaId : (e.call env c).replicaId = e.replicaId := by
  rw [call_eq]
  split <;> simp

@[simp] theorem call_compactionPolicy : (e.call env c).compactionPolicy = e.compactionPolicy := by
  rw [call_eq]
  split <;> simp

end

theorem compacts_disabled {e : SyncEngine T} (env : Env T)
    {c : Call T} (hp : e.compactionPolicy = .disabled) (hc : c ≠ .compact) :
    e.compacts env c = false := by
  have hs : (e.recorded env c).shouldCompact = false := by
    simp [shouldCompact, hp]
  cases c with
  | compact => exact absurd rfl hc
  | state => rfl
  | remove value => simp [compacts, hs]
  | _ => exact hs

theorem call_log_replicaId (e : SyncEngine T) (env : Env T)
    (c : Call T) : (e.call env c).log.replicaId = e.log.replicaId := by
  have hg : (e.recorded env c).log.replicaId = e.log.replicaId := by
    have hg := recorded_grows e env c
    revert hg
    generalize (e.recorded env c).log = log'
    intro hg
    cases hg with
    | same => rfl
    | append op => rfl
    | absorb epoch => exact OpLog.absorb_replicaId _ _
  rw [call_log]
  split
  · exact hg
  · exact hg

end

/-! ## The cache -/

section

variable {T : Type} [DecidableEq T]

/-- A cache, when there is one, is current and is what a full replay gives. -/
def Coherent (e : SyncEngine T) : Prop :=
  ∀ cache, e.cachedState = some cache →
    e.cacheWatermark = e.log.ops.length ∧ cache = e.log.replay

theorem coherent_fromLog (replicaId : Uuid) (log : OpLog T) :
    (fromLog replicaId log).Coherent := by
  intro cache h
  simp [fromLog] at h

section

variable {e : SyncEngine T}

theorem Coherent.materialise_cachedState (h : e.Coherent) : e.materialise.cachedState = some e.log.replay := by
  unfold materialise
  cases hc : e.cachedState with
  | none => rfl
  | some cache =>
    obtain ⟨hw, hr⟩ := h cache hc
    simp [hw, hr, replayFrom]

theorem Coherent.materialise (h : e.Coherent) :
    e.materialise.Coherent := by
  intro cache hc
  rw [h.materialise_cachedState, Option.some.injEq] at hc
  refine ⟨?_, by rw [materialise_log, ← hc]⟩
  unfold SyncEngine.materialise
  split
  · split <;> rfl
  · rfl

theorem Coherent.state_eq (h : e.Coherent) :
    e.state.2 = e.log.replay := by
  simp [state, h.materialise_cachedState]

theorem Coherent.mem_observedTags (h : e.Coherent) (env : Env T) (value : T) (tag : Uuid) :
    tag ∈ e.observedTags env value ↔ e.log.replay.1.LiveTag value tag := by
  simp [observedTags, h.materialise_cachedState, AddWinsSet.mem_liveTags]

/-- The rule every mutator keeps the cache by: the update must do to the cache what
replaying the new ops does. -/
theorem Coherent.reflect (h : e.Coherent)
    {log : OpLog T} {entries : List (SyncOp T)} {update : Replayed T → Replayed T}
    (hl : log.ops = e.log.ops ++ entries) (hu : ∀ c, update c = replayFrom c entries) :
    (e.reflect log update).Coherent := by
  intro cache hc
  cases he : e.cachedState with
  | none => simp [SyncEngine.reflect, he] at hc
  | some old =>
    obtain ⟨_, hr⟩ := h old he
    simp only [SyncEngine.reflect, he, Option.map_some, Option.some.injEq] at hc
    refine ⟨by simp [SyncEngine.reflect, he], ?_⟩
    rw [← hc, hu, hr]
    simp only [SyncEngine.reflect, OpLog.replay, hl, replayFrom_append]

theorem Coherent.extend (h : e.Coherent)
    {log : OpLog T} {entries : List (SyncOp T)} (hl : log.ops = e.log.ops ++ entries) :
    (e.extend log).Coherent := by
  have hd : log.ops.drop e.log.ops.length = entries := by simp [hl]
  exact h.reflect hl (fun c => by rw [hd])

theorem Coherent.recorded (h : e.Coherent)
    (env : Env T) (c : Call T) : (e.recorded env c).Coherent := by
  cases c with
  | add value tag => exact h.reflect rfl (fun c => rfl)
  | remove value =>
    simp only [SyncEngine.recorded]
    split
    · exact h.materialise
    · exact h.materialise.reflect rfl (fun c => rfl)
  | supersede value successor => exact h.materialise.reflect rfl (fun c => rfl)
  | merge other => exact h.extend (OpLog.absorb_ops e.log other.ops)
  | mergeDelta envelope => exact h.extend (OpLog.absorb_ops e.log envelope.ops)
  | state => exact h.materialise
  | compact => exact h

end

theorem coherent_compact (e : SyncEngine T) (env : Env T) :
    (e.compact env).1.Coherent := by
  intro cache hc
  simp only [compact, invalidateCache, SyncEngine.materialise, Option.some.injEq] at hc ⊢
  exact ⟨trivial, hc.symm⟩

theorem Coherent.call {e : SyncEngine T} (h : e.Coherent)
    (env : Env T) (c : Call T) : (e.call env c).Coherent := by
  rw [call_eq]
  split
  · exact coherent_compact _ env
  · exact h.recorded env c

end

/-! ## Tidiness -/

theorem tidy_recorded {T : Type} [DecidableEq T] {e : SyncEngine T} (h : e.log.Tidy)
    (hlt : e.log.clock < u64Max) (env : Env T) (c : Call T) : (e.recorded env c).log.Tidy := by
  have hg := recorded_grows e env c
  revert hg
  generalize (e.recorded env c).log = log'
  intro hg
  cases hg with
  | same => exact h
  | append op => exact h.append env op hlt
  | absorb epoch => exact (h.absorb c.entries).withEpoch epoch

theorem tidy_call {T : Type} [DecidableEq T] {e : SyncEngine T} (h : e.log.Tidy)
    (hlt : e.log.clock < u64Max) {env : Env T} {c : Call T}
    (hlt' : (e.call env c).log.clock < u64Max) : (e.call env c).log.Tidy := by
  rw [call_log] at hlt' ⊢
  by_cases hf : e.compacts env c = true
  · rw [if_pos hf] at hlt' ⊢
    have hc := OpLog.iterate_saturatingSucc_of_lt hlt'
    refine OpLog.tidy_compact ?_
    have hlt'' : saturatingSucc^[((e.recorded env c).log.survivors env).length]
        (e.recorded env c).log.clock < u64Max := hlt'
    omega
  · rw [if_neg hf]
    exact tidy_recorded h hlt env c

end SyncEngine

end Knowledge.Sync
