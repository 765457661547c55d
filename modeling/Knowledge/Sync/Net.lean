import Knowledge.Lib.Transition
import Knowledge.Sync.Snapshot

/-!
Several replicas that exchange logs, deltas, relay blobs and snapshots in any order,
and the identity of the ops they author.
-/

set_option autoImplicit false

namespace Knowledge.Sync
open Knowledge.Machine Knowledge.Dedup Knowledge.Transition
open OpLog

/-! ## What one engine authors -/

namespace SyncEngine

def recordedOps {T : Type} [DecidableEq T] (e : SyncEngine T) (env : Env T) :
    Call T → List (SyncOp T)
  | .merge _ => []
  | .mergeDelta _ => []
  | c => (e.recorded env c).log.ops.drop e.log.ops.length

def authored {T : Type} [DecidableEq T] (e : SyncEngine T) (env : Env T) (c : Call T) :
    List (SyncOp T) :=
  e.recordedOps env c ++ if e.compacts env c then (e.call env c).log.ops else []

def authoredAll {T : Type} [DecidableEq T] (e : SyncEngine T) :
    List (Env T × Call T) → List (SyncOp T)
  | [] => []
  | c :: cs => e.authored c.1 c.2 ++ (e.call c.1 c.2).authoredAll cs

end SyncEngine

def Consecutive {T : Type} (replicaId : Uuid) (clock : Nat) (ops : List (SyncOp T)) : Prop :=
  ops.map SyncOp.key = (List.range' (clock+1) ops.length).map (fun seq => (replicaId, seq))

theorem consecutive_nil {T : Type} (replicaId : Uuid) (clock : Nat) :
    Consecutive replicaId clock ([] : List (SyncOp T)) := rfl

section

variable {T : Type} {replicaId : Uuid} {clock : Nat}

theorem Consecutive.append {a b : List (SyncOp T)}
    (ha : Consecutive replicaId clock a) (hb : Consecutive replicaId (clock+a.length) b) :
    Consecutive replicaId clock (a ++ b) := by
  have hr : List.range' (clock+1) (a.length+b.length) =
      List.range' (clock+1) a.length ++ List.range' (clock+a.length+1) b.length := by
    rw [← List.range'_append_1, show clock+1+a.length = clock+a.length+1 by omega]
  unfold Consecutive at *
  rw [List.map_append, ha, hb, List.length_append, hr, List.map_append]

theorem Consecutive.replicaId_eq {ops : List (SyncOp T)} (h : Consecutive replicaId clock ops) {o : SyncOp T} (ho : o ∈ ops) :
    o.replicaId = replicaId ∧ clock < o.seq ∧ o.seq ≤ clock+ops.length := by
  have hk : o.key ∈ ops.map SyncOp.key := List.mem_map_of_mem ho
  rw [h] at hk
  obtain ⟨seq, hs, he⟩ := List.mem_map.mp hk
  rw [List.mem_range'_1] at hs
  obtain ⟨h₁, h₂⟩ := Prod.mk.inj he
  exact ⟨h₁.symm, by omega, by omega⟩

theorem Consecutive.nodup {ops : List (SyncOp T)}
    (h : Consecutive replicaId clock ops) : (ops.map SyncOp.key).Nodup := by
  rw [h]
  exact List.Nodup.map (fun _ _ h => (Prod.mk.inj h).2) List.nodup_range'

end

theorem consecutive_stamp {T : Type} (replicaId : Uuid) (now : Nat → Int) {clock : Nat}
    {kinds : List (SyncOpKind T)} (h : clock+kinds.length ≤ u64Max) :
    Consecutive replicaId clock (stamp replicaId now clock kinds) := by
  unfold Consecutive
  rw [stamp_seqs replicaId now h, stamp_length]

namespace SyncEngine

theorem compact_clock_le {T : Type} [DecidableEq T] {log : OpLog T} {env : Env T}
    (h : (log.compact env).1.clock < u64Max) (hc : log.clock ≤ u64Max) :
    (log.compact env).1.clock = log.clock+(log.survivors env).length ∧
      log.clock+(log.survivors env).length < u64Max := by
  have he : (log.compact env).1.clock = min (log.clock+(log.survivors env).length) u64Max :=
    iterate_saturatingSucc _ hc
  omega

/-- Beyond its entries a log only grows by ops stamped past its clock. -/
structure Extends {T : Type} (log : OpLog T) (entries ops : List (SyncOp T)) (log' : OpLog T) :
    Prop where
  replicaId : log'.replicaId = log.replicaId
  consecutive : Consecutive log.replicaId log.clock ops
  clock : log'.clock = log.clock+ops.length
  mem : ∀ o ∈ log'.ops, o ∈ log.ops ∨ o ∈ entries ∨ o ∈ ops

section

variable {T : Type}

theorem extends_absorb {log : OpLog T} {entries : List (SyncOp T)} (epoch : Nat)
    (hown : ∀ o ∈ entries, o.replicaId = log.replicaId → o.seq ≤ log.clock) :
    Extends log entries [] { log.absorb entries with compactionEpoch := epoch } where
  replicaId := absorb_replicaId log entries
  consecutive := consecutive_nil _ _
  clock := absorb_clock_eq hown
  mem := by
    intro o ho
    rw [absorb_ops] at ho
    rcases List.mem_append.mp ho with ho | ho
    · exact .inl ho
    · exact .inr (.inl (mem_of_mem_fresh ho))

theorem extends_append {log : OpLog T} {env : Env T} {op : SyncOpKind T}
    (entries : List (SyncOp T)) (hlt : (log.append env op).clock < u64Max) :
    Extends log entries ((log.append env op).ops.drop log.ops.length) (log.append env op) := by
  have hc : saturatingSucc log.clock = log.clock+1 := by
    simp only [append, saturatingSucc] at hlt ⊢
    omega
  refine ⟨rfl, ?_, ?_, ?_⟩
  · simp [Consecutive, append, SyncOp.key, hc]
  · simp [append, hc]
  · intro o ho
    simp only [append, List.drop_left] at ho ⊢
    rcases List.mem_append.mp ho with ho | ho
    · exact .inl ho
    · exact .inr (.inr ho)

theorem extends_recorded [DecidableEq T] {e : SyncEngine T} {env : Env T}
    {c : Call T} (hown : ∀ o ∈ c.entries, o.replicaId = e.log.replicaId → o.seq ≤ e.log.clock)
    (hlt : (e.recorded env c).log.clock < u64Max) :
    Extends e.log c.entries (e.recordedOps env c) (e.recorded env c).log := by
  have hlocal : c.entries = [] → e.recordedOps env c =
      (e.recorded env c).log.ops.drop e.log.ops.length →
      Extends e.log c.entries (e.recordedOps env c) (e.recorded env c).log := by
    intro hn hr
    rw [hr]
    have hg := recorded_grows e env c
    revert hlt hg
    generalize (e.recorded env c).log = log'
    intro hlt hg
    cases hg with
    | same =>
      rw [List.drop_length]
      exact ⟨rfl, consecutive_nil _ _, rfl, fun o ho => .inl ho⟩
    | append op => exact extends_append _ hlt
    | absorb epoch =>
      have h := extends_absorb epoch hown
      have hd : (e.log.absorb c.entries).ops.drop e.log.ops.length = [] := by
        rw [hn]
        exact List.drop_length
      rw [← hd] at h
      exact h
  cases c with
  | merge other => exact extends_absorb _ hown
  | mergeDelta envelope => exact extends_absorb _ hown
  | _ => exact hlocal rfl rfl

theorem extends_compact [DecidableEq T] {log : OpLog T} (env : Env T)
    (hc : log.clock ≤ u64Max) (hlt : (log.compact env).1.clock < u64Max) :
    Extends log [] (log.compact env).1.ops (log.compact env).1 := by
  obtain ⟨he, hb⟩ := compact_clock_le hlt hc
  have hl : (log.compact env).1.ops.length = (log.survivors env).length :=
    stamp_length _ _ _ _
  refine ⟨rfl, consecutive_stamp _ _ (by omega), by rw [he, hl], fun o ho => .inr (.inr ho)⟩

theorem Extends.trans {a b c : OpLog T} {entries more ops ops' : List (SyncOp T)}
    (hab : Extends a entries ops b) (hbc : Extends b more ops' c) :
    Extends a (entries ++ more) (ops ++ ops') c where
  replicaId := hbc.replicaId.trans hab.replicaId
  consecutive := hab.consecutive.append (by rw [← hab.clock, ← hab.replicaId]; exact hbc.consecutive)
  clock := by rw [hbc.clock, hab.clock, List.length_append]; omega
  mem := by
    intro o ho
    rcases hbc.mem o ho with ho | ho | ho
    · rcases hab.mem o ho with ho | ho | ho
      · exact .inl ho
      · exact .inr (.inl (List.mem_append_left _ ho))
      · exact .inr (.inr (List.mem_append_left _ ho))
    · exact .inr (.inl (List.mem_append_right _ ho))
    · exact .inr (.inr (List.mem_append_right _ ho))

section

variable [DecidableEq T] {e : SyncEngine T} {env : Env T} {c : Call T}

theorem recorded_clock_le_u64Max (hown : ∀ o ∈ c.entries, o.replicaId = e.log.replicaId → o.seq ≤ e.log.clock)
    (hc : e.log.clock ≤ u64Max) : (e.recorded env c).log.clock ≤ u64Max := by
  have hg := recorded_grows e env c
  revert hg
  generalize (e.recorded env c).log = log'
  intro hg
  cases hg with
  | same => exact hc
  | append op => exact saturatingSucc_le _
  | absorb epoch => exact (absorb_clock_eq hown).trans_le hc

theorem recorded_clock_le (hb : (e.recorded env c).log.clock ≤ u64Max) :
    (e.recorded env c).log.clock ≤ (e.call env c).log.clock := by
  rw [call_log]
  split
  · have h : ((e.recorded env c).log.compact env).1.clock = min _ u64Max :=
      iterate_saturatingSucc _ hb
    rw [h]
    omega
  · exact Nat.le_refl _

/-- Everything a call leaves in the log was there, was offered or was authored by it,
and what it authored is stamped past the clock it found. -/
theorem extends_call (hown : ∀ o ∈ c.entries, o.replicaId = e.log.replicaId → o.seq ≤ e.log.clock)
    (hc : e.log.clock ≤ u64Max) (hlt : (e.call env c).log.clock < u64Max) :
    Extends e.log c.entries (e.authored env c) (e.call env c).log := by
  have hr : (e.recorded env c).log.clock ≤ u64Max := recorded_clock_le_u64Max hown hc
  have hrec := extends_recorded hown (Nat.lt_of_le_of_lt (recorded_clock_le hr) hlt)
  unfold authored
  by_cases hf : e.compacts env c = true
  · have hl : (e.call env c).log = ((e.recorded env c).log.compact env).1 := by
      rw [call_log, if_pos hf]
    have h := hrec.trans (extends_compact env hr (hl ▸ hlt))
    rw [if_pos hf, hl]
    rwa [List.append_nil] at h
  · have hl : (e.call env c).log = (e.recorded env c).log := by
      rw [call_log, if_neg hf]
    rw [if_neg hf, hl, List.append_nil]
    exact hrec

end

theorem call_clock_bounds [DecidableEq T] {e : SyncEngine T} (env : Env T)
    {c : Call T} (hown : ∀ o ∈ c.entries, o.replicaId = e.log.replicaId → o.seq ≤ e.log.clock)
    (hc : e.log.clock ≤ u64Max) :
    e.log.clock ≤ (e.call env c).log.clock ∧ (e.call env c).log.clock ≤ u64Max := by
  have hr : (e.recorded env c).log.clock ≤ u64Max := recorded_clock_le_u64Max hown hc
  have hg : e.log.clock ≤ (e.recorded env c).log.clock := by
    have hg := recorded_grows e env c
    revert hg
    generalize (e.recorded env c).log = log'
    intro hg
    cases hg with
    | same => exact Nat.le_refl _
    | append op => exact le_saturatingSucc hc
    | absorb epoch => exact (absorb_clock_eq hown).ge
  refine ⟨hg.trans (recorded_clock_le hr), ?_⟩
  rw [call_log]
  split
  · have h : ((e.recorded env c).log.compact env).1.clock = min _ u64Max :=
      iterate_saturatingSucc _ hr
    rw [h]
    omega
  · exact hr

/-- Calls may offer own ops up to a bound the clock has already reached. -/
def OffersBelow (replicaId : Uuid) (bound : Nat) (cs : List (Env T × Call T)) : Prop :=
  ∀ c ∈ cs, ∀ o ∈ c.2.entries, o.replicaId = replicaId → o.seq ≤ bound

theorem clock_le_calls [DecidableEq T] {e : SyncEngine T} {cs : List (Env T × Call T)}
    (hown : OffersBelow e.log.replicaId e.log.clock cs) (hc : e.log.clock ≤ u64Max) :
    e.log.clock ≤ (e.calls cs).log.clock := by
  induction cs generalizing e with
  | nil => exact Nat.le_refl _
  | cons c cs ih =>
    obtain ⟨h₁, h₂⟩ := call_clock_bounds c.1 (hown c List.mem_cons_self) hc
    refine h₁.trans (ih ?_ h₂)
    intro d hd o ho hr
    rw [call_log_replicaId] at hr
    exact (hown d (List.mem_cons_of_mem _ hd) o ho hr).trans h₁

theorem extends_calls [DecidableEq T] {e : SyncEngine T} {cs : List (Env T × Call T)}
    (hown : OffersBelow e.log.replicaId e.log.clock cs) (hc : e.log.clock ≤ u64Max)
    (hlt : (e.calls cs).log.clock < u64Max) :
    Extends e.log (cs.flatMap (fun c => c.2.entries)) (e.authoredAll cs) (e.calls cs).log := by
  induction cs generalizing e with
  | nil => exact ⟨rfl, consecutive_nil _ _, rfl, fun o ho => .inl ho⟩
  | cons c cs ih =>
    have hhead := hown c List.mem_cons_self
    obtain ⟨h₁, h₂⟩ := call_clock_bounds c.1 hhead hc
    have htail : OffersBelow (e.call c.1 c.2).log.replicaId (e.call c.1 c.2).log.clock cs := by
      intro d hd o ho hr
      rw [call_log_replicaId] at hr
      exact (hown d (List.mem_cons_of_mem _ hd) o ho hr).trans h₁
    have hmid : (e.call c.1 c.2).log.clock < u64Max :=
      Nat.lt_of_le_of_lt (clock_le_calls htail h₂) hlt
    exact (extends_call hhead hc hmid).trans (ih htail h₂ hlt)

end

end SyncEngine

/-! ## The replicas and what they exchange -/

structure Wires (T : Type) where
  delta : Json (DeltaEnvelope T)
  snapshot : Json (EngineSnapshot T)
  aead : Aead

/-- `wire` and `snapshots` hold every blob handed out so far: one may be delivered late,
often or never. `authored` is history: every op any replica ever authored. -/
structure Net (ι T : Type) where
  engine : ι → SyncEngine T
  client : ι → SyncClient
  relay : InMemoryTransport
  wire : List Bytes
  snapshots : List Bytes
  authored : List (SyncOp T)

inductive NetAction (ι T : Type) where
  | call (i : ι) (env : Env T) (c : Call T)
  | merge (i j : ι) (env : Env T)
  | encode (i : ι) (sinceSeq : Nat)
  | encodeOwn (i : ι) (sinceSeq : Nat)
  | apply (i : ι) (env : Env T) (delta : Bytes)
  | push (i : ι) (nonce : AeadNonce)
  | pull (i : ι) (envs : Nat → Env T)
  | snapshot (i : ι)
  | restore (i : ι) (bytes : Bytes)
  | bootstrap (i : ι) (bytes : Bytes)

namespace Net

def perform {ι T : Type} [DecidableEq ι] [DecidableEq T] (s : Net ι T) (i : ι)
    (e : SyncEngine T) (cs : List (Env T × Call T)) : Net ι T :=
  { s with
    engine := Function.update s.engine i e
    authored := s.authored ++ (s.engine i).authoredAll cs }

def sent {ι T : Type} (s : Net ι T) : Except SyncError Bytes → Net ι T
  | .ok bytes => { s with wire := s.wire ++ [bytes] }
  | .error _ => s

def replaced {ι T : Type} [DecidableEq ι] (s : Net ι T) (i : ι) :
    Except SyncError (SyncEngine T) → Net ι T
  | .ok e => { s with engine := Function.update s.engine i e }
  | .error _ => s

def next {ι T : Type} [DecidableEq ι] [DecidableEq T] (w : Wires T) (ids : ι → Uuid)
    (s : Net ι T) : NetAction ι T → Net ι T
  | .call i env c => s.perform i ((s.engine i).call env c) [(env, c)]
  | .merge i j env =>
    s.perform i ((s.engine i).merge env (s.engine j).log) [(env, .merge (s.engine j).log)]
  | .encode i sinceSeq => s.sent (encodeDeltaSince w.delta (s.engine i).log sinceSeq)
  | .encodeOwn i sinceSeq => s.sent (encodeOwnDeltaSince w.delta (s.engine i).log sinceSeq)
  | .apply i env delta =>
    s.perform i (applyDelta w.delta (s.engine i) env delta).1
      (deltaCalls w.delta (s.engine i) env delta)
  | .push i nonce =>
    let pushed := (s.client i).push w.delta w.aead (s.engine i) s.relay nonce
    { s with client := Function.update s.client i pushed.1, relay := pushed.2.1 }
  | .pull i envs =>
    let pulled := (s.client i).pullReporting w.delta w.aead (s.engine i) s.relay envs
    let calls := (s.client i).pullReportingCalls w.delta w.aead (s.engine i) s.relay envs
    { s.perform i pulled.2.1 calls with client := Function.update s.client i pulled.1 }
  | .snapshot i =>
    let taken := (s.engine i).snapshot w.snapshot
    let s := { s with engine := Function.update s.engine i taken.1 }
    match taken.2 with
    | .ok bytes => { s with snapshots := s.snapshots ++ [bytes] }
    | .error _ => s
  | .restore i bytes => s.replaced i (SyncEngine.restoreSnapshot w.snapshot bytes)
  | .bootstrap i bytes =>
    s.replaced i (SyncEngine.bootstrapFromSnapshotWithReplicaId w.snapshot bytes (ids i))

/-- Peer logs, deltas and snapshots are ones some replica produced, and a snapshot is
restored only by the replica that took it. -/
def Allowed {ι T : Type} (w : Wires T) (ids : ι → Uuid) (s : Net ι T) : NetAction ι T → Prop
  | .call _ _ c => c.entries = []
  | .apply _ _ delta => delta ∈ s.wire
  | .restore i bytes =>
    bytes ∈ s.snapshots ∧ ∀ snap, w.snapshot.fromSlice bytes = some snap → snap.replicaId = ids i
  | .bootstrap _ bytes => bytes ∈ s.snapshots
  | _ => True

instance decidableAllowed {ι T : Type} [DecidableEq T] (w : Wires T) (ids : ι → Uuid)
    (s : Net ι T) : ∀ a, Decidable (s.Allowed w ids a)
  | .call _ _ c => inferInstanceAs (Decidable (c.entries = []))
  | .apply _ _ delta => inferInstanceAs (Decidable (delta ∈ s.wire))
  | .restore i bytes => inferInstanceAs (Decidable (bytes ∈ s.snapshots ∧
      ∀ snap ∈ w.snapshot.fromSlice bytes, snap.replicaId = ids i))
  | .bootstrap _ bytes => inferInstanceAs (Decidable (bytes ∈ s.snapshots))
  | .merge _ _ _ | .encode _ _ | .encodeOwn _ _ | .push _ _ | .pull _ _ | .snapshot _ =>
    isTrue trivial

/-- Fresh engines under the given policies, one client each for the scope. -/
def Initial {ι T : Type} (ids : ι → Uuid) (topic : TopicId) (sealKey : AeadKey)
    (policies : ι → CompactionPolicy) (s : Net ι T) : Prop :=
  (∀ i, s.engine i = (SyncEngine.withReplicaId (ids i)).withCompactionPolicy (policies i)) ∧
    (∀ i, s.client i = SyncClient.new topic sealKey) ∧ s.relay = InMemoryTransport.new ∧
    s.wire = [] ∧ s.snapshots = [] ∧ s.authored = []

/-- Every op somewhere in the system: in a log, in a delta or a relay blob, or in a snapshot. -/
def Known {ι T : Type} (w : Wires T) (topic : TopicId) (sealKey : AeadKey) (s : Net ι T)
    (o : SyncOp T) : Prop :=
  (∃ i, o ∈ (s.engine i).log.ops) ∨
    (∃ delta ∈ s.wire, ∃ d, w.delta.fromSlice delta = some d ∧ o ∈ d.ops) ∨
    (∃ blob ∈ s.relay.topics topic, ∃ d,
      carried w.delta w.aead (SyncClient.new topic sealKey) blob = some d ∧ o ∈ d.ops) ∨
    ∃ bytes ∈ s.snapshots, ∃ snap, w.snapshot.fromSlice bytes = some snap ∧ o ∈ snap.log.ops

end Net

end Knowledge.Sync
