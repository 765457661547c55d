import Knowledge.Sync.Identity

/-!
Strong eventual consistency: without compaction, replicas that hold the same ops show
the same state, whatever the order and however often the ops arrived.
-/

set_option autoImplicit false

namespace Knowledge.Sync
open Knowledge.Machine Knowledge.Dedup Knowledge.Transition
open SyncEngine

/-- An engine that never compacts: its log is tidy, and its clock counts at most as many
ops as the log holds. -/
structure Plain {T : Type} [DecidableEq T] (e : SyncEngine T) : Prop where
  policy : e.compactionPolicy = .disabled
  coherent : e.Coherent
  tidy : e.log.Tidy
  clock : e.log.clock ≤ e.log.ops.length

namespace Plain

section

variable {T : Type} [DecidableEq T]

theorem fresh (replicaId : Uuid) :
    Plain ((withReplicaId replicaId : SyncEngine T).withCompactionPolicy .disabled) where
  policy := rfl
  coherent := by
    intro cache h
    simp [withReplicaId, withCompactionPolicy, fromLog] at h
  tidy := OpLog.tidy_new replicaId
  clock := Nat.le_refl _

theorem call_log_eq {e : SyncEngine T}
    (hp : e.compactionPolicy = .disabled) (env : Env T) {c : Call T} (hc : c ≠ .compact) :
    (e.call env c).log = (e.recorded env c).log := by
  rw [call_log, compacts_disabled env hp hc]
  rfl

theorem ops_prefix_calls {e : SyncEngine T}
    {cs : List (Env T × Call T)} (hp : e.compactionPolicy = .disabled)
    (hcs : ∀ c ∈ cs, c.2 ≠ .compact) : e.log.ops <+: (e.calls cs).log.ops := by
  induction cs generalizing e with
  | nil => exact List.prefix_rfl
  | cons c cs ih =>
    have hstep : e.log.ops <+: (e.call c.1 c.2).log.ops := by
      rw [call_log_eq hp c.1 (hcs c List.mem_cons_self)]
      have hg := recorded_grows e c.1 c.2
      revert hg
      generalize (e.recorded c.1 c.2).log = log'
      intro hg
      cases hg with
      | same => exact List.prefix_rfl
      | append op => exact List.prefix_append _ _
      | absorb epoch =>
        change e.log.ops <+: (e.log.absorb c.2.entries).ops
        rw [OpLog.absorb_ops]
        exact List.prefix_append _ _
    exact hstep.trans (ih (by simpa using hp) (fun d hd => hcs d (List.mem_cons_of_mem _ hd)))

theorem call {e : SyncEngine T} (h : Plain e) (env : Env T)
    {c : Call T} (hc : c ≠ .compact) (hlt : e.log.clock < u64Max)
    (hown : ∀ o ∈ c.entries, o.replicaId = e.log.replicaId → o.seq ≤ e.log.clock) :
    Plain (e.call env c) := by
  have hlog := call_log_eq h.policy env hc
  have hrest : (e.call env c).log.Tidy ∧
      (e.call env c).log.clock ≤ (e.call env c).log.ops.length := by
    rw [hlog]
    have hg := recorded_grows e env c
    revert hg
    generalize (e.recorded env c).log = log'
    intro hg
    cases hg with
    | same => exact ⟨h.tidy, h.clock⟩
    | append op =>
      refine ⟨h.tidy.append env op hlt, ?_⟩
      simp only [OpLog.append, saturatingSucc_of_lt hlt, List.length_append, List.length_singleton]
      exact Nat.succ_le_succ h.clock
    | absorb epoch =>
      have hclock : (e.log.absorb c.entries).clock = e.log.clock :=
        OpLog.absorb_clock_eq hown
      refine ⟨(h.tidy.absorb c.entries).withEpoch epoch, ?_⟩
      simp only [OpLog.absorb_ops, hclock, List.length_append]
      exact h.clock.trans (Nat.le_add_right _ _)
  exact ⟨by simpa using h.policy, h.coherent.call env c, hrest.1, hrest.2⟩

theorem calls {e : SyncEngine T} (h : Plain e)
    {cs : List (Env T × Call T)} (hcs : ∀ c ∈ cs, c.2 ≠ .compact)
    (hown : SyncEngine.OffersBelow e.log.replicaId e.log.clock cs)
    (hlen : (e.calls cs).log.ops.length ≤ isizeMax) : Plain (e.calls cs) := by
  induction cs generalizing e with
  | nil => exact h
  | cons c cs ih =>
    have hlt : e.log.clock < u64Max := by
      have hle := (ops_prefix_calls h.policy hcs).length_le
      have hclock := h.clock
      have hmax : isizeMax < u64Max := by decide
      omega
    have hc : c.2 ≠ .compact := hcs c List.mem_cons_self
    have hhead := hown c List.mem_cons_self
    refine ih (h.call c.1 hc hlt hhead) (fun d hd => hcs d (List.mem_cons_of_mem _ hd)) ?_ hlen
    intro d hd o ho hr
    rw [call_log_replicaId] at hr
    exact (hown d (List.mem_cons_of_mem _ hd) o ho hr).trans
      (call_clock_bounds c.1 hhead hlt.le).1

end

end Plain

namespace NetAction

def isPlain {ι T : Type} : NetAction ι T → Prop
  | .call _ _ c => c ≠ .compact
  | .snapshot _ => False
  | .restore _ _ => False
  | .bootstrap _ _ => False
  | _ => True

instance decidableIsPlain {ι T : Type} [DecidableEq T] : ∀ a : NetAction ι T, Decidable a.isPlain
  | .call _ _ c => inferInstanceAs (Decidable (c ≠ .compact))
  | .snapshot _ | .restore _ _ | .bootstrap _ _ => isFalse id
  | .merge _ _ _ | .encode _ _ | .encodeOwn _ _ | .apply _ _ _ | .push _ _ | .pull _ _ =>
    isTrue trivial

end NetAction

namespace Net

/-- An action may be taken when the logs it leaves still fit into memory. -/
def PlainGuard {ι T : Type} [DecidableEq ι] [DecidableEq T] (w : Wires T) (ids : ι → Uuid)
    (s : Net ι T) (a : NetAction ι T) : Prop :=
  s.Allowed w ids a ∧ a.isPlain ∧ ∀ i, ((s.next w ids a).engine i).log.ops.length ≤ isizeMax

instance decidablePlainGuard {ι T : Type} [Fintype ι] [DecidableEq ι] [DecidableEq T]
    (w : Wires T) (ids : ι → Uuid) (s : Net ι T) (a : NetAction ι T) :
    Decidable (s.PlainGuard w ids a) :=
  inferInstanceAs (Decidable (s.Allowed w ids a ∧ a.isPlain ∧
    ∀ i, ((s.next w ids a).engine i).log.ops.length ≤ isizeMax))

/-- Replicas under the disabled policy that mutate, merge and exchange deltas and relay
blobs in any order. -/
def plainSystem {ι T : Type} [DecidableEq ι] [DecidableEq T] (w : Wires T) (ids : ι → Uuid)
    (topic : TopicId) (sealKey : AeadKey) : System (Net ι T) (NetAction ι T) :=
  .ofNext (fun s => s.Initial ids topic sealKey (fun _ => .disabled)) (Net.PlainGuard w ids)
    (Net.next w ids)

def Consistent {ι T : Type} [DecidableEq T] (w : Wires T) (ids : ι → Uuid) (topic : TopicId)
    (sealKey : AeadKey) (s : Net ι T) : Prop :=
  Identified w ids topic sealKey s ∧ ∀ i, Plain (s.engine i)

theorem Consistent.initial {ι T : Type} [DecidableEq T] {w : Wires T} {ids : ι → Uuid}
    {topic : TopicId} {sealKey : AeadKey} {s : Net ι T}
    (h : s.Initial ids topic sealKey (fun _ => .disabled)) :
    s.Consistent w ids topic sealKey := by
  refine ⟨Identified.initial h, fun i => ?_⟩
  rw [h.1 i]
  exact Plain.fresh (ids i)

section

variable {ι T : Type} [DecidableEq ι] [DecidableEq T] {w : Wires T} {ids : ι → Uuid}
  {topic : TopicId} {sealKey : AeadKey}

/-- What an action does to the engines: one replica makes calls that are offered known ops
only, or no engine changes. -/
theorem Consistent.engines {s : Net ι T}
    (h : s.Consistent w ids topic sealKey) {a : NetAction ι T} (ha : s.Allowed w ids a)
    (hp : a.isPlain) :
    (s.next w ids a).engine = s.engine ∨ ∃ i cs,
      (s.next w ids a).engine = Function.update s.engine i ((s.engine i).calls cs) ∧
        (∀ c ∈ cs, c.2 ≠ .compact) ∧ ∀ c ∈ cs, ∀ o ∈ c.2.entries, o ∈ s.authored := by
  cases a with
  | call i env c =>
    refine .inr ⟨i, [(env, c)], rfl, ?_, ?_⟩
    · intro c' hc'
      obtain rfl := List.mem_singleton.mp hc'
      exact hp
    · intro c' hc' o ho
      obtain rfl := List.mem_singleton.mp hc'
      rw [show c.entries = [] from ha] at ho
      simp at ho
  | merge i j env =>
    refine .inr ⟨i, [(env, .merge (s.engine j).log)], rfl, ?_, ?_⟩
    · intro c' hc'
      obtain rfl := List.mem_singleton.mp hc'
      simp
    · intro c' hc' o ho
      obtain rfl := List.mem_singleton.mp hc'
      exact h.1.known o (.inl ⟨j, ho⟩)
  | encode i sinceSeq =>
    left
    simp only [Net.next, Net.sent]
    split <;> rfl
  | encodeOwn i sinceSeq =>
    left
    simp only [Net.next, Net.sent]
    split <;> rfl
  | apply i env delta =>
    refine .inr ⟨i, deltaCalls w.delta (s.engine i) env delta, ?_, ?_, ?_⟩
    · simp only [Net.next, Net.perform, applyDelta_calls]
    · intro c hc
      obtain ⟨d, _, he⟩ := mem_deltaCalls hc
      simp [he]
    · intro c hc o ho
      obtain ⟨d, hd, he⟩ := mem_deltaCalls hc
      rw [he] at ho
      exact h.1.known o (.inr (.inl ⟨delta, ha, d, hd, ho⟩))
  | push i nonce => exact .inl rfl
  | pull i envs =>
    refine .inr ⟨i, (s.client i).pullReportingCalls w.delta w.aead (s.engine i) s.relay envs,
      ?_, ?_, ?_⟩
    · simp only [Net.next, Net.perform, SyncClient.pullReporting_calls]
    · intro c hc
      obtain ⟨_, _, d, _, he⟩ := SyncClient.mem_pullCalls hc
      simp [he]
    · intro c hc o ho
      exact h.1.known_of_pullCalls hc ho
  | snapshot i => exact hp.elim
  | restore i bytes => exact hp.elim
  | bootstrap i bytes => exact hp.elim

theorem Consistent.step (hids : Function.Injective ids)
    {s : Net ι T} {a : NetAction ι T} (h : s.Consistent w ids topic sealKey)
    (hg : s.PlainGuard w ids a) : (s.next w ids a).Consistent w ids topic sealKey := by
  obtain ⟨ha, hp, hlen⟩ := hg
  have hplain : ∀ i, Plain ((s.next w ids a).engine i) := by
    rcases h.engines ha hp with he | ⟨i, cs, he, hcs, hknown⟩
    · rw [he]
      exact h.2
    · rw [he] at hlen ⊢
      intro j
      by_cases hj : j = i
      · subst hj
        have hl := hlen j
        rw [Function.update_self] at hl ⊢
        exact (h.2 j).calls hcs (h.1.offersBelow hknown) hl
      · rw [Function.update_of_ne hj]
        exact h.2 j
  refine ⟨h.1.step hids (a := a) ⟨⟨ha, fun i => ?_⟩, rfl⟩ ?_, hplain⟩
  · have hclock := (hplain i).clock
    have hl := hlen i
    have hmax : isizeMax < u64Max := by decide
    omega
  · cases a with
    | restore i bytes => exact hp.elim
    | bootstrap i bytes => exact hp.elim
    | _ => trivial

theorem Consistent.reachable (hids : Function.Injective ids)
    {s : Net ι T} (h : (Net.plainSystem w ids topic sealKey).Reachable s) :
    s.Consistent w ids topic sealKey := by
  refine h.invariant (Net.Consistent w ids topic sealKey) (fun s hs => Consistent.initial hs) ?_
  rintro s a t _ hi ⟨hg, rfl⟩
  exact hi.step hids hg

end

theorem Consistent.mem_ops_iff {ι T : Type} [DecidableEq T] {w : Wires T} {ids : ι → Uuid}
    {topic : TopicId} {sealKey : AeadKey} {s : Net ι T} (h : s.Consistent w ids topic sealKey)
    {i j : ι} (hk : ∀ k, k ∈ (s.engine i).log.ops.map SyncOp.key →
      k ∈ (s.engine j).log.ops.map SyncOp.key) {o : SyncOp T}
    (ho : o ∈ (s.engine i).log.ops) : o ∈ (s.engine j).log.ops := by
  obtain ⟨p, hp, he⟩ := List.mem_map.mp (hk o.key (List.mem_map_of_mem ho))
  have hpo : p = o := h.1.eq_of_key_eq (h.1.known p (.inl ⟨j, hp⟩)) (h.1.known o (.inl ⟨i, ho⟩)) he
  exact hpo ▸ hp

end Net

/-- Replicas whose logs hold the same keys show the same set and the same supersessions up
to order, and a value is live exactly when some op of the log adds it under a tag that no
op of the log observed. -/
theorem strong_eventual_consistency {ι T : Type} [DecidableEq ι] [DecidableEq T] (w : Wires T)
    (ids : ι → Uuid) (topic : TopicId) (sealKey : AeadKey) (hids : Function.Injective ids)
    (s : Net ι T) (h : (Net.plainSystem w ids topic sealKey).Reachable s) :
    (∀ i j, (∀ k, k ∈ (s.engine i).log.ops.map SyncOp.key ↔
        k ∈ (s.engine j).log.ops.map SyncOp.key) →
      (s.engine i).state.2.1 = (s.engine j).state.2.1 ∧
        (s.engine i).state.2.2.Perm (s.engine j).state.2.2) ∧
    ∀ i value, (s.engine i).state.2.1.contains value = true ↔
      ∃ tag, Added (s.engine i).log.ops value tag ∧ ¬ Observed (s.engine i).log.ops tag := by
  have hc := Net.Consistent.reachable hids h
  refine ⟨fun i j hk => ?_, fun i value => ?_⟩
  · have hmem : ∀ o, o ∈ (s.engine i).log.ops ↔ o ∈ (s.engine j).log.ops := fun o =>
      ⟨hc.mem_ops_iff (fun k => (hk k).mp), hc.mem_ops_iff (fun k => (hk k).mpr)⟩
    rw [(hc.2 i).coherent.state_eq, (hc.2 j).coherent.state_eq]
    refine ⟨OpLog.replay_set_eq fun kind => by simp only [List.mem_map, hmem], ?_⟩
    rw [OpLog.replay_supersessions, OpLog.replay_supersessions]
    refine List.Perm.filterMap _ ?_
    exact (List.perm_ext_iff_of_nodup (hc.2 i).tidy.nodup.of_map (hc.2 j).tidy.nodup.of_map).mpr hmem
  · rw [(hc.2 i).coherent.state_eq]
    exact OpLog.contains_replay _ _

/-! Replica 1 removes 5 while replica 0 adds it again under a tag replica 1 has not seen. -/

namespace Concurrent
open Comeback (left right)

def start : Net (Fin 3) Nat :=
  ⟨fun i => (SyncEngine.withReplicaId (Comeback.ids i)).withCompactionPolicy .disabled,
    fun _ => SyncClient.new 0 0, InMemoryTransport.new, [], [], []⟩

def actions : List (NetAction (Fin 3) Nat) :=
  [.call left .atEpoch (.add 5 9), .merge right left .atEpoch,
    .call right .atEpoch (.remove 5), .call left .atEpoch (.add 5 10),
    .merge left right .atEpoch, .merge right left .atEpoch, .merge right left .atEpoch]

def finish : Net (Fin 3) Nat := actions.foldl (Net.next Comeback.wires Comeback.ids) start

theorem finish_reachable :
    (Net.plainSystem Comeback.wires Comeback.ids 0 0).Reachable finish := by
  have hlegal : Legal (Net.PlainGuard Comeback.wires Comeback.ids)
      (Net.next Comeback.wires Comeback.ids) start actions := by decide +kernel
  exact hlegal.reachable (.init ⟨fun _ => rfl, fun _ => rfl, rfl, rfl, rfl, rfl⟩)

theorem ops_zero : (finish.engine 0).log.ops =
    [⟨0, 1, 0, .add 5 9⟩, ⟨0, 2, 0, .add 5 10⟩, ⟨1, 1, 0, .remove 5 [9]⟩] := by decide +kernel

theorem ops_one : (finish.engine 1).log.ops =
    [⟨0, 1, 0, .add 5 9⟩, ⟨1, 1, 0, .remove 5 [9]⟩, ⟨0, 2, 0, .add 5 10⟩] := by decide +kernel

theorem same_keys : ∀ k, k ∈ (finish.engine 0).log.ops.map SyncOp.key ↔
    k ∈ (finish.engine 1).log.ops.map SyncOp.key := by
  intro k
  rw [ops_zero, ops_one]
  simp only [List.map_cons, List.map_nil, List.mem_cons]
  tauto

end Concurrent

open Knowledge.Sync.Concurrent

theorem strong_eventual_consistency_concurrent :
    (Net.plainSystem Comeback.wires Comeback.ids 0 0).Reachable finish ∧
      (finish.engine 0).log.ops ≠ (finish.engine 1).log.ops ∧
      (finish.engine 0).state.2.1 = (finish.engine 1).state.2.1 ∧
      (finish.engine 1).state.2.1.contains 5 = true := by
  have hc := strong_eventual_consistency Comeback.wires Comeback.ids 0 0 Comeback.ids_injective _
    finish_reachable
  refine ⟨finish_reachable, ?_, (hc.1 0 1 same_keys).1, (hc.2 1 5).mpr ⟨10, ?_⟩⟩
  · rw [ops_zero, ops_one]
    decide
  · rw [ops_one]
    simp [Added, Observed, SyncOpKind.observedTags]

end Knowledge.Sync
