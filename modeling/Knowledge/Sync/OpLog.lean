import Mathlib.Data.Finset.Union
import Knowledge.Lib.Dedup
import Knowledge.Lib.Machine
import Knowledge.Sync.AddWinsSet

/-!
The append-only operation log of `crates/sync_engine/src/op_log.rs`: recording,
merging with dedup by `(replica_id, seq)`, replay and compaction.
-/

set_option autoImplicit false

namespace Knowledge.Sync
open Knowledge.Machine Knowledge.Dedup
open AddWinsSet

inductive SyncOpKind (T : Type) where
  | add (value : T) (tag : Uuid)
  | remove (value : T) (observedTags : List Uuid)
  | supersede (value successor : T) (observedTags : List Uuid)
  deriving DecidableEq

open SyncOpKind

namespace SyncOpKind

def observedTags {T : Type} : SyncOpKind T → List Uuid
  | .add _ _ => []
  | .remove _ tags => tags
  | .supersede _ _ tags => tags

def addedPair {T : Type} : SyncOpKind T → Option (T × Uuid)
  | .add value tag => some (value, tag)
  | _ => none

def addedTag {T : Type} : SyncOpKind T → Option Uuid
  | .add _ tag => some tag
  | _ => none

theorem addedTag_eq_some {T : Type} {op : SyncOpKind T} {tag : Uuid} :
    op.addedTag = some tag ↔ ∃ value, op = .add value tag := by
  cases op <;> simp [addedTag]

def supersession {T : Type} : SyncOpKind T → Option (T × T)
  | .supersede value successor _ => some (value, successor)
  | _ => none

def isTombstone {T : Type} : SyncOpKind T → Bool
  | .add _ _ => false
  | .remove _ _ | .supersede _ _ _ => true

end SyncOpKind

structure SyncOp (T : Type) where
  replicaId : Uuid
  seq : Nat
  createdAt : Int
  op : SyncOpKind T
  deriving DecidableEq

open SyncOp

def SyncOp.key {T : Type} (o : SyncOp T) : Uuid × Nat := (o.replicaId, o.seq)

/-- What a call reads from its process: the wall clock, one reading for each seq it
stamps, and the iteration orders of the hasher. -/
structure Env (T : Type) where
  now : Nat → Int
  values : HashOrder T
  tags : HashOrder Uuid

/-- The wall clock stands at the epoch and collections are iterated in ascending order. -/
def Env.atEpoch : Env Nat :=
  ⟨fun _ => 0, .ascending id Function.injective_id,
    .ascending BitVec.toNat (fun _ _ => BitVec.eq_of_toNat_eq)⟩

structure OpLog (T : Type) where
  replicaId : Uuid
  clock : Nat
  compactionEpoch : Nat
  ops : List (SyncOp T)
  seen : Finset (Uuid × Nat)
  deriving DecidableEq

/-- A replayed log: the materialised set and the supersession history. -/
abbrev Replayed (T : Type) := AddWinsSet T × List (T × T)

section

variable {T : Type}

def applyOpTo [DecidableEq T] (st : Replayed T) (entry : SyncOp T) : Replayed T :=
  match entry.op with
  | .add value tag => (st.1.addWithTag value tag, st.2)
  | .remove value observed => (st.1.removeTags value observed, st.2)
  | .supersede value successor observed =>
    (st.1.removeTags value observed, st.2 ++ [(value, successor)])

def replayFrom [DecidableEq T] (st : Replayed T) (ops : List (SyncOp T)) :
    Replayed T := ops.foldl applyOpTo st

def supersessions (ops : List (SyncOp T)) : List (T × T) :=
  ops.filterMap (fun o => o.op.supersession)

/-- Some op of the list adds `value` under `tag`. -/
def Added (ops : List (SyncOp T)) (value : T) (tag : Uuid) : Prop :=
  ∃ o ∈ ops, o.op = .add value tag

/-- Some `Remove` or `Supersede` of the list lists `tag`. -/
def Observed (ops : List (SyncOp T)) (tag : Uuid) : Prop :=
  ∃ o ∈ ops, tag ∈ o.op.observedTags

@[simp] theorem added_append (a b : List (SyncOp T)) (value : T) (tag : Uuid) :
    Added (a ++ b) value tag ↔ Added a value tag ∨ Added b value tag := by
  simp [Added, or_and_right, exists_or]

@[simp] theorem observed_append (a b : List (SyncOp T)) (tag : Uuid) :
    Observed (a ++ b) tag ↔ Observed a tag ∨ Observed b tag := by
  simp [Observed, or_and_right, exists_or]

@[simp] theorem supersessions_append (a b : List (SyncOp T)) :
    supersessions (a ++ b) = supersessions a ++ supersessions b := List.filterMap_append

section

variable [DecidableEq T] (st : Replayed T)

theorem replayFrom_append (a b : List (SyncOp T)) : replayFrom st (a ++ b) = replayFrom (replayFrom st a) b :=
  List.foldl_append

theorem mem_elements_replayFrom (ops : List (SyncOp T)) (value : T) (tag : Uuid) :
    (value, tag) ∈ (replayFrom st ops).1.elements ↔
      (value, tag) ∈ st.1.elements ∨ Added ops value tag := by
  induction ops generalizing st with
  | nil => simp [replayFrom, Added]
  | cons o ops ih =>
    have h := ih (applyOpTo st o)
    simp only [replayFrom, List.foldl_cons] at h ⊢
    rw [h]
    cases ho : o.op with
    | add w k =>
      simp only [applyOpTo, ho, addWithTag, Finset.mem_insert, Prod.mk.injEq, Added,
        List.mem_cons, exists_eq_or_imp, add.injEq]
      tauto
    | remove w tags => simp [applyOpTo, ho, removeTags, Added]
    | supersede w x tags => simp [applyOpTo, ho, removeTags, Added]

theorem mem_tombstones_replayFrom (ops : List (SyncOp T)) (tag : Uuid) :
    tag ∈ (replayFrom st ops).1.tombstones ↔ tag ∈ st.1.tombstones ∨ Observed ops tag := by
  induction ops generalizing st with
  | nil => simp [replayFrom, Observed]
  | cons o ops ih =>
    have h := ih (applyOpTo st o)
    simp only [replayFrom, List.foldl_cons] at h ⊢
    rw [h]
    cases ho : o.op with
    | add w k =>
      simp [applyOpTo, ho, addWithTag, Observed, observedTags]
    | remove w tags =>
      simp [applyOpTo, ho, removeTags, Observed, observedTags, or_assoc]
    | supersede w x tags =>
      simp [applyOpTo, ho, removeTags, Observed, observedTags, or_assoc]

theorem replayFrom_supersessions (ops : List (SyncOp T)) : (replayFrom st ops).2 = st.2 ++ supersessions ops := by
  induction ops generalizing st with
  | nil => simp [replayFrom, supersessions]
  | cons o ops ih =>
    have h := ih (applyOpTo st o)
    simp only [replayFrom, List.foldl_cons] at h ⊢
    rw [h]
    cases ho : o.op <;> simp [applyOpTo, ho, supersessions, supersession]

end

end

namespace OpLog

section

variable {T : Type}

def new (replicaId : Uuid) : OpLog T := ⟨replicaId, 0, 0, [], ∅⟩

section

variable (log : OpLog T) (env : Env T)

def append (op : SyncOpKind T) : OpLog T :=
  let clock := saturatingSucc log.clock
  { log with
    clock := clock
    ops := log.ops ++ [⟨log.replicaId, clock, env.now clock, op⟩]
    seen := insert (log.replicaId, clock) log.seen }

/-- `tag` is the UUID the call drew. -/
def recordAdd (value : T) (tag : Uuid) : OpLog T :=
  log.append env (.add value tag)

def recordRemove (value : T)
    (observed : List Uuid) : OpLog T := log.append env (.remove value observed)

def recordSupersede (value successor : T)
    (observed : List Uuid) : OpLog T := log.append env (.supersede value successor observed)

end

def mergeSingle (log : OpLog T) (entry : SyncOp T) : OpLog T × Bool :=
  if entry.key ∈ log.seen then (log, false)
  else
    ({ log with
        clock := if entry.replicaId = log.replicaId then max log.clock entry.seq else log.clock
        ops := log.ops ++ [entry]
        seen := insert entry.key log.seen }, true)

def absorb (log : OpLog T) (entries : List (SyncOp T)) : OpLog T :=
  entries.foldl (fun l entry => (l.mergeSingle entry).1) log

def merge (log other : OpLog T) : OpLog T :=
  let merged := log.absorb other.ops
  { merged with compactionEpoch := max log.compactionEpoch other.compactionEpoch }

/-- The declared error of `OpLog::replay` is never returned, so it is left out. -/
def replay [DecidableEq T] (log : OpLog T) : Replayed T :=
  replayFrom (AddWinsSet.new, []) log.ops

/-- Author a list of ops under consecutive seqs past `clock`. -/
def stamp (replicaId : Uuid) (now : Nat → Int) : Nat → List (SyncOpKind T) →
    List (SyncOp T)
  | _, [] => []
  | clock, op :: ops =>
    ⟨replicaId, saturatingSucc clock, now (saturatingSucc clock), op⟩ ::
      stamp replicaId now (saturatingSucc clock) ops

/-- What compaction re-emits: an `Add` for each surviving tag, then each historical
supersession with no observed tags. -/
def survivors [DecidableEq T] (log : OpLog T) (env : Env T) : List (SyncOpKind T) :=
  (log.replay.1.livePairs env.values env.tags).map (fun p => .add p.1 p.2) ++
    log.replay.2.map (fun p => .supersede p.1 p.2 [])

def compact [DecidableEq T] (log : OpLog T) (env : Env T) : OpLog T × Nat :=
  let kinds := log.survivors env
  let ops := stamp log.replicaId env.now log.clock kinds
  ({ log with
      clock := saturatingSucc^[kinds.length] log.clock
      compactionEpoch := saturatingSucc log.compactionEpoch
      ops := ops
      seen := (ops.map SyncOp.key).toFinset }, log.ops.length - ops.length)

end

/-! ## What a replayed log shows -/

section

variable {T : Type} [DecidableEq T] (log : OpLog T)

theorem liveTag_replay (value : T) (tag : Uuid) :
    log.replay.1.LiveTag value tag ↔ Added log.ops value tag ∧ ¬ Observed log.ops tag := by
  simp [AddWinsSet.LiveTag, replay, mem_elements_replayFrom, mem_tombstones_replayFrom,
    AddWinsSet.new]

theorem contains_replay (value : T) :
    log.replay.1.contains value = true ↔
      ∃ tag, Added log.ops value tag ∧ ¬ Observed log.ops tag := by
  simp [contains_iff, liveTag_replay]

theorem replay_supersessions :
    log.replay.2 = supersessions log.ops := by
  simp [replay, replayFrom_supersessions]

end

theorem added_iff_kind {T : Type} (ops : List (SyncOp T)) (value : T) (tag : Uuid) :
    Added ops value tag ↔ add value tag ∈ ops.map op := by
  simp [Added]

theorem observed_iff_kind {T : Type} (ops : List (SyncOp T)) (tag : Uuid) :
    Observed ops tag ↔ ∃ kind ∈ ops.map op, tag ∈ kind.observedTags := by
  simp [Observed]

theorem replay_set_eq {T : Type} [DecidableEq T] {a b : OpLog T}
    (h : ∀ kind, kind ∈ a.ops.map op ↔ kind ∈ b.ops.map op) :
    a.replay.1 = b.replay.1 := by
  have he : a.replay.1.elements = b.replay.1.elements := by
    ext ⟨value, tag⟩
    simp only [replay, mem_elements_replayFrom, added_iff_kind, h]
  have ht : a.replay.1.tombstones = b.replay.1.tombstones := by
    ext tag
    simp only [replay, mem_tombstones_replayFrom, observed_iff_kind, h]
  cases ha : a.replay.1
  cases hb : b.replay.1
  simp_all

/-! ## Stamping -/

@[simp] theorem stamp_length {T : Type} (replicaId : Uuid) (now : Nat → Int) (clock : Nat)
    (kinds : List (SyncOpKind T)) : (stamp replicaId now clock kinds).length = kinds.length := by
  induction kinds generalizing clock with
  | nil => rfl
  | cons k kinds ih => simp [stamp, ih]

theorem stamp_kinds {T : Type} (replicaId : Uuid) (now : Nat → Int) (clock : Nat)
    (kinds : List (SyncOpKind T)) :
    (stamp replicaId now clock kinds).map op = kinds := by
  induction kinds generalizing clock with
  | nil => rfl
  | cons k kinds ih => simp [stamp, ih]

theorem iterate_saturatingSucc {clock : Nat} (n : Nat) (h : clock ≤ u64Max) :
    saturatingSucc^[n] clock = min (clock+n) u64Max := by
  induction n generalizing clock with
  | zero => simp [h]
  | succ n ih =>
    rw [Function.iterate_succ_apply, ih (saturatingSucc_le clock)]
    simp only [saturatingSucc]
    omega

theorem iterate_saturatingSucc_of_lt {clock n : Nat}
    (h : saturatingSucc^[n] clock < u64Max) : saturatingSucc^[n] clock = clock+n := by
  induction n generalizing clock with
  | zero => rfl
  | succ n ih =>
    rw [Function.iterate_succ_apply] at h ⊢
    have he := ih h
    rw [he] at h ⊢
    simp only [saturatingSucc] at h ⊢
    omega

theorem stamp_seqs {T : Type} (replicaId : Uuid) (now : Nat → Int) {clock : Nat}
    {kinds : List (SyncOpKind T)} (h : clock+kinds.length ≤ u64Max) :
    (stamp replicaId now clock kinds).map key =
      (List.range' (clock+1) kinds.length).map (fun seq => (replicaId, seq)) := by
  induction kinds generalizing clock with
  | nil => rfl
  | cons k kinds ih =>
    simp only [List.length_cons] at h
    have hs : saturatingSucc clock = clock+1 := saturatingSucc_of_lt (by omega)
    simp only [stamp, hs, List.map_cons, List.length_cons, List.range'_succ]
    rw [ih (by omega)]
    rfl

theorem stamp_bounds {T : Type} {replicaId : Uuid} {now : Nat → Int} {clock : Nat}
    {kinds : List (SyncOpKind T)} (h : clock ≤ u64Max) {o : SyncOp T}
    (ho : o ∈ stamp replicaId now clock kinds) :
    o.replicaId = replicaId ∧ o.seq ≤ saturatingSucc^[kinds.length] clock := by
  rw [iterate_saturatingSucc _ h]
  induction kinds generalizing clock with
  | nil => simp [stamp] at ho
  | cons k kinds ih =>
    rcases List.mem_cons.mp ho with rfl | ho
    · refine ⟨rfl, ?_⟩
      simp only [saturatingSucc, List.length_cons]
      omega
    · obtain ⟨hr, hs⟩ := ih (saturatingSucc_le clock) ho
      refine ⟨hr, hs.trans ?_⟩
      simp only [saturatingSucc, List.length_cons]
      omega

/-! ## Absorbing -/

section

variable {T : Type}

/-- The clock after own ops among `entries` have bumped it. -/
def ownClock (replicaId : Uuid) (clock : Nat) (entries : List (SyncOp T)) : Nat :=
  entries.foldl (fun c o => if o.replicaId = replicaId then max c o.seq else c) clock

section

variable (log : OpLog T) (entries : List (SyncOp T))

theorem absorb_eq :
    log.absorb entries =
      { log with
        clock := ownClock log.replicaId log.clock (fresh key log.seen entries)
        ops := log.ops ++ fresh key log.seen entries
        seen := log.seen ∪ (entries.map key).toFinset } := by
  induction entries generalizing log with
  | nil => simp [absorb, ownClock, fresh]
  | cons o entries ih =>
    have h := ih (log.mergeSingle o).1
    simp only [absorb, List.foldl_cons] at h ⊢
    rw [h]
    by_cases ho : o.key ∈ log.seen
    · simp [mergeSingle, fresh, ho]
    · simp [mergeSingle, fresh, ho, ownClock, Finset.insert_union, Finset.union_insert]

theorem absorb_ops :
    (log.absorb entries).ops = log.ops ++ fresh key log.seen entries := by
  rw [absorb_eq]

theorem absorb_clock :
    (log.absorb entries).clock =
      ownClock log.replicaId log.clock (fresh key log.seen entries) := by
  rw [absorb_eq]

@[simp] theorem absorb_replicaId :
    (log.absorb entries).replicaId = log.replicaId := by
  rw [absorb_eq]

end

theorem le_ownClock (replicaId : Uuid) (clock : Nat) (entries : List (SyncOp T)) :
    clock ≤ ownClock replicaId clock entries := by
  induction entries generalizing clock with
  | nil => exact Nat.le_refl _
  | cons o entries ih =>
    simp only [ownClock, List.foldl_cons]
    split
    · exact Nat.le_trans (Nat.le_max_left _ _) (ih _)
    · exact ih _

theorem seq_le_ownClock {replicaId : Uuid} {clock : Nat} {entries : List (SyncOp T)}
    {o : SyncOp T} (ho : o ∈ entries) (hr : o.replicaId = replicaId) :
    o.seq ≤ ownClock replicaId clock entries := by
  induction entries generalizing clock with
  | nil => simp at ho
  | cons p entries ih =>
    simp only [ownClock, List.foldl_cons]
    rcases List.mem_cons.mp ho with rfl | ho
    · rw [if_pos hr]
      exact Nat.le_trans (Nat.le_max_right _ _) (le_ownClock _ _ _)
    · exact ih ho

theorem ownClock_le {replicaId : Uuid} {clock bound : Nat}
    {entries : List (SyncOp T)} (hc : clock ≤ bound)
    (h : ∀ o ∈ entries, o.replicaId = replicaId → o.seq ≤ bound) :
    ownClock replicaId clock entries ≤ bound := by
  induction entries generalizing clock with
  | nil => exact hc
  | cons o entries ih =>
    simp only [ownClock, List.foldl_cons]
    refine ih ?_ (fun p hp => h p (List.mem_cons_of_mem _ hp))
    split
    · exact Nat.max_le.mpr ⟨hc, h o List.mem_cons_self ‹_›⟩
    · exact hc

theorem absorb_clock_eq {log : OpLog T} {entries : List (SyncOp T)}
    (h : ∀ o ∈ entries, o.replicaId = log.replicaId → o.seq ≤ log.clock) :
    (log.absorb entries).clock = log.clock := by
  rw [absorb_clock]
  refine Nat.le_antisymm (ownClock_le (Nat.le_refl _) ?_) (le_ownClock _ _ _)
  exact fun o ho => h o (mem_of_mem_fresh ho)

/-- The dedup index lists exactly the keys of the ops. -/
def Indexed (log : OpLog T) : Prop := log.seen = (log.ops.map SyncOp.key).toFinset

theorem Indexed.append {log : OpLog T} (h : log.Indexed) (env : Env T)
    (op : SyncOpKind T) : (log.append env op).Indexed := by
  simp only [Indexed, OpLog.append, List.map_append, List.map_cons, List.map_nil,
    List.toFinset_append, List.toFinset_cons, List.toFinset_nil, key] at h ⊢
  rw [h, Finset.union_comm]
  rfl

theorem Indexed.absorb {log : OpLog T} (h : log.Indexed)
    (entries : List (SyncOp T)) : (log.absorb entries).Indexed := by
  unfold Indexed at h ⊢
  rw [absorb_eq]
  ext k
  by_cases hk : k ∈ log.seen
  · have hk' : k ∈ log.ops.map key := by simpa [h] using hk
    simp only [List.map_append, List.toFinset_append, Finset.mem_union, List.mem_toFinset, hk, hk',
      true_or]
  · have hk' : k ∉ log.ops.map key := by simpa [h] using hk
    simp only [List.map_append, List.toFinset_append, Finset.mem_union, List.mem_toFinset,
      mem_keys_fresh, hk, hk', false_or, not_false_eq_true, and_true]

theorem indexed_compact [DecidableEq T] (log : OpLog T) (env : Env T) :
    (log.compact env).1.Indexed := rfl

theorem Indexed.mem_seen {log : OpLog T} (h : log.Indexed) {o : SyncOp T}
    (ho : o ∈ log.ops) : o.key ∈ log.seen := by
  rw [h, List.mem_toFinset]
  exact List.mem_map_of_mem ho

end

/-! ## Tidy logs -/

/-- The index is exact, no key occurs twice, and no own op is ahead of the clock. -/
structure Tidy {T : Type} (log : OpLog T) : Prop where
  indexed : log.Indexed
  nodup : (log.ops.map SyncOp.key).Nodup
  own : ∀ o ∈ log.ops, o.replicaId = log.replicaId → o.seq ≤ log.clock

theorem tidy_new {T : Type} (replicaId : Uuid) : (new replicaId : OpLog T).Tidy :=
  ⟨rfl, List.nodup_nil, fun _ ho => absurd ho List.not_mem_nil⟩

theorem Tidy.append {T : Type} {log : OpLog T} (h : log.Tidy) (env : Env T)
    (op : SyncOpKind T) (hlt : log.clock < u64Max) : (log.append env op).Tidy := by
  have hsucc : saturatingSucc log.clock = log.clock+1 := saturatingSucc_of_lt hlt
  refine ⟨h.indexed.append env op, ?_, ?_⟩
  · simp only [OpLog.append, List.map_append, List.map_cons, List.map_nil]
    refine List.nodup_append.mpr ⟨h.nodup, List.nodup_singleton _, ?_⟩
    intro k hk k' hk' he
    obtain ⟨o, ho, rfl⟩ := List.mem_map.mp hk
    obtain rfl := List.mem_singleton.mp hk'
    obtain ⟨hr, hs⟩ := Prod.mk.inj he
    have hle := h.own o ho hr
    have hs' : o.seq = saturatingSucc log.clock := hs
    omega
  · intro o ho hr
    simp only [OpLog.append, hsucc] at ho hr ⊢
    rcases List.mem_append.mp ho with ho | ho
    · exact (h.own o ho hr).trans (Nat.le_succ _)
    · obtain rfl := List.mem_singleton.mp ho
      exact Nat.le_refl _

theorem Tidy.absorb {T : Type} {log : OpLog T} (h : log.Tidy) (entries : List (SyncOp T)) :
    (log.absorb entries).Tidy := by
  refine ⟨h.indexed.absorb entries, ?_, ?_⟩
  · rw [absorb_ops, List.map_append]
    refine List.nodup_append.mpr ⟨h.nodup, nodup_keys_fresh _ _ _, ?_⟩
    intro k hk k' hk' he
    subst he
    obtain ⟨o, ho, rfl⟩ := List.mem_map.mp hk
    exact (mem_keys_fresh.mp hk').2 (h.indexed.mem_seen ho)
  · intro o ho hr
    rw [absorb_ops] at ho
    rw [absorb_replicaId] at hr
    rw [absorb_clock]
    rcases List.mem_append.mp ho with ho | ho
    · exact (h.own o ho hr).trans (le_ownClock _ _ _)
    · exact seq_le_ownClock ho hr

theorem Tidy.withEpoch {T : Type} {log : OpLog T} (h : log.Tidy) (epoch : Nat) :
    ({ log with compactionEpoch := epoch } : OpLog T).Tidy := ⟨h.indexed, h.nodup, h.own⟩

theorem tidy_compact {T : Type} [DecidableEq T] {log : OpLog T} {env : Env T}
    (hlt : log.clock+(log.survivors env).length ≤ u64Max) : (log.compact env).1.Tidy := by
  refine ⟨rfl, ?_, fun o ho _ => (stamp_bounds (by omega) ho).2⟩
  change ((stamp log.replicaId env.now log.clock (log.survivors env)).map key).Nodup
  rw [stamp_seqs _ _ hlt]
  exact List.Nodup.map (fun _ _ h => (Prod.mk.inj h).2) List.nodup_range'

/-! ## Compaction keeps what a replay shows -/

section

variable {T : Type}

theorem compact_ops_kinds [DecidableEq T] (log : OpLog T) (env : Env T) :
    (log.compact env).1.ops.map op = log.survivors env := stamp_kinds _ _ _ _

section

variable [DecidableEq T] (log : OpLog T) (env : Env T)

theorem added_compact (value : T)
    (tag : Uuid) : Added (log.compact env).1.ops value tag ↔ log.replay.1.LiveTag value tag := by
  rw [added_iff_kind, compact_ops_kinds]
  simp [survivors, mem_livePairs]

theorem not_observed_compact (tag : Uuid) : ¬ Observed (log.compact env).1.ops tag := by
  rintro ⟨o, ho, ht⟩
  have hk : o.op ∈ log.survivors env := by
    rw [← compact_ops_kinds]
    exact List.mem_map_of_mem ho
  rcases List.mem_append.mp hk with hk | hk
  · obtain ⟨p, _, hp⟩ := List.mem_map.mp hk
    simp [← hp, observedTags] at ht
  · obtain ⟨p, _, hp⟩ := List.mem_map.mp hk
    simp [← hp, observedTags] at ht

theorem liveTag_compact (value : T) (tag : Uuid) :
    (log.compact env).1.replay.1.LiveTag value tag ↔ log.replay.1.LiveTag value tag := by
  rw [liveTag_replay, added_compact]
  exact and_iff_left (not_observed_compact log env tag)

end

theorem supersessions_of_kinds (ops : List (SyncOp T)) :
    supersessions ops = (ops.map op).filterMap supersession := by
  simp [supersessions, List.filterMap_map]

theorem supersessions_compact [DecidableEq T] (log : OpLog T) (env : Env T) :
    (log.compact env).1.replay.2 = log.replay.2 := by
  have hadd : ∀ ps : List (T × Uuid),
      (ps.map (fun p => add p.1 p.2)).filterMap supersession = [] := by
    intro ps
    induction ps with
    | nil => rfl
    | cons p ps ih => rw [List.map_cons, List.filterMap_cons_none rfl, ih]
  have hsup : ∀ ps : List (T × T),
      (ps.map (fun p => supersede p.1 p.2 [])).filterMap supersession = ps := by
    intro ps
    induction ps with
    | nil => rfl
    | cons p ps ih =>
      simp only [List.map_cons, List.filterMap_cons, supersession, ih]
  rw [replay_supersessions, supersessions_of_kinds, compact_ops_kinds, survivors,
    List.filterMap_append, hadd, hsup, List.nil_append]

theorem survivors_perm [DecidableEq T] {a b : OpLog T} (env env' : Env T)
    (h : (a.ops.map op).Perm (b.ops.map op)) :
    (a.survivors env).Perm (b.survivors env') := by
  have hset : a.replay.1 = b.replay.1 := replay_set_eq fun _ => h.mem_iff
  refine List.Perm.append ((livePairs_perm (fun _ _ => by rw [hset]) _ _ _ _).map _)
    (List.Perm.map _ ?_)
  rw [replay_supersessions, replay_supersessions, supersessions_of_kinds, supersessions_of_kinds]
  exact h.filterMap _

theorem filterMap_lengths_le (ops : List (SyncOp T)) :
    (ops.filterMap (fun o => o.op.addedPair)).length + (supersessions ops).length ≤ ops.length := by
  induction ops with
  | nil => exact Nat.le_refl _
  | cons o ops ih =>
    unfold supersessions at ih ⊢
    cases ho : o.op with
    | add value tag =>
      have ha : o.op.addedPair = some (value, tag) := by rw [ho]; rfl
      have hs : o.op.supersession = none := by rw [ho]; rfl
      simp only [List.filterMap_cons, ha, hs, List.length_cons]
      omega
    | remove value tags =>
      have ha : o.op.addedPair = none := by rw [ho]; rfl
      have hs : o.op.supersession = none := by rw [ho]; rfl
      simp only [List.filterMap_cons, ha, hs, List.length_cons]
      omega
    | supersede value successor tags =>
      have ha : o.op.addedPair = none := by rw [ho]; rfl
      have hs : o.op.supersession = some (value, successor) := by rw [ho]; rfl
      simp only [List.filterMap_cons, ha, hs, List.length_cons]
      omega

theorem survivors_length_le [DecidableEq T] (log : OpLog T) (env : Env T) :
    (log.survivors env).length ≤ log.ops.length := by
  have hsub : log.replay.1.livePairs env.values env.tags ⊆ log.ops.filterMap (fun o => o.op.addedPair) := by
    rintro ⟨value, tag⟩ hp
    have hlive := (mem_livePairs _ _ _ _).mp hp
    obtain ⟨o, ho, hop⟩ := ((liveTag_replay log value tag).mp hlive).1
    exact List.mem_filterMap.mpr ⟨o, ho, by simp [addedPair, hop]⟩
  have hlen := ((nodup_livePairs _ _ _).subperm hsub).length_le
  have hboth := filterMap_lengths_le log.ops
  simp only [survivors, List.length_append, List.length_map, replay_supersessions]
  omega

end

end OpLog

end Knowledge.Sync
