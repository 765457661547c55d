import Knowledge.Sync.Net

/-!
Absorbing again what an engine has already absorbed or authored. A compaction rebuilds
the dedup index, so old ops can get in a second time; the result below says exactly when
that changes what the engine shows.
-/

set_option autoImplicit false

namespace Knowledge.Sync
open Knowledge.Machine Knowledge.Dedup Knowledge.Transition
open OpLog SyncClient

/-- One engine among arbitrary peers. `history` is every op it has absorbed or authored. -/
structure Replica (T : Type) where
  engine : SyncEngine T
  history : List (SyncOp T)

open Replica

inductive ReplicaAction (T : Type) where
  | call (env : Env T) (c : Call T)
  | apply (env : Env T) (delta : Bytes)
  | pull (envs : Nat → Env T) (client : SyncClient) (transport : InMemoryTransport)

namespace Replica

/-- The engine after the calls `cs`; what they offered and authored is history. -/
def perform {T : Type} [DecidableEq T] (s : Replica T) (e : SyncEngine T)
    (cs : List (Env T × Call T)) : Replica T :=
  ⟨e, s.history ++ cs.flatMap (fun c => c.2.entries) ++ s.engine.authoredAll cs⟩

def next {T : Type} [DecidableEq T] (json : Json (DeltaEnvelope T)) (aead : Aead)
    (s : Replica T) : ReplicaAction T → Replica T
  | .call env c => s.perform (s.engine.call env c) [(env, c)]
  | .apply env delta =>
    s.perform (applyDelta json s.engine env delta).1 (deltaCalls json s.engine env delta)
  | .pull envs client transport =>
    s.perform (client.pullReporting json aead s.engine transport envs).2.1
      (client.pullReportingCalls json aead s.engine transport envs)

def system {T : Type} [DecidableEq T] (json : Json (DeltaEnvelope T)) (aead : Aead) :
    System (Replica T) (ReplicaAction T) :=
  .ofNext (fun s => ∃ replicaId policy,
      s = ⟨(SyncEngine.withReplicaId replicaId).withCompactionPolicy policy, []⟩)
    (fun _ _ => True) (next json aead)

end Replica

namespace SyncEngine

theorem Coherent.calls {T : Type} [DecidableEq T] {e : SyncEngine T} (h : e.Coherent)
    (cs : List (Env T × Call T)) : (e.calls cs).Coherent := by
  induction cs generalizing e with
  | nil => exact h
  | cons c cs ih => exact ih (h.call c.1 c.2)

end SyncEngine

theorem Replica.coherent {T : Type} [DecidableEq T] {json : Json (DeltaEnvelope T)}
    {aead : Aead} {s : Replica T} (h : (system json aead).Reachable s) :
    s.engine.Coherent := by
  refine h.invariant (fun s => s.engine.Coherent) ?_ ?_
  · rintro s ⟨replicaId, policy, rfl⟩
    exact SyncEngine.coherent_fromLog replicaId (new replicaId)
  · rintro s a t _ hi ⟨-, rfl⟩
    cases a with
    | call env c => exact hi.call env c
    | apply env delta =>
      simp only [next, perform, applyDelta_calls]
      exact hi.calls _
    | pull envs client transport =>
      simp only [next, perform, pullReporting_calls]
      exact hi.calls _

def SameView {T : Type} [DecidableEq T] (e e' : SyncEngine T) : Prop :=
  (∀ value, e'.state.2.1.contains value = true ↔ e.state.2.1.contains value = true) ∧
    e'.state.2.2 = e.state.2.2

/-- The ops of a list that the dedup index of the log does not list, or lists no more. -/
def forgotten {T : Type} (log : OpLog T) (ops : List (SyncOp T)) : List (SyncOp T) :=
  fresh SyncOp.key log.seen ops

/-- When letting ops into a log shows: they hold a supersession, an add under an untombstoned
tag of a value that is not live, or removes that take the last live tag of a value. -/
structure Harmless {T : Type} [DecidableEq T] (log : OpLog T) (ops : List (SyncOp T)) :
    Prop where
  noSupersede : ∀ o ∈ ops, o.op.supersession = none
  adds : ∀ value tag, Added ops value tag → ¬ Observed log.ops tag → ¬ Observed ops tag →
    log.replay.1.contains value = true
  removes : ∀ value, log.replay.1.contains value = true → ∃ tag, ¬ Observed ops tag ∧
    (log.replay.1.LiveTag value tag ∨ (Added ops value tag ∧ ¬ Observed log.ops tag))

section

variable {T : Type} [DecidableEq T]

theorem SyncEngine.call_view (e : SyncEngine T) (env : Env T) (c : Call T) :
    (∀ value tag, (e.call env c).log.replay.1.LiveTag value tag ↔
        (e.recorded env c).log.replay.1.LiveTag value tag) ∧
      (e.call env c).log.replay.2 = (e.recorded env c).log.replay.2 := by
  rw [call_log]
  split
  · exact ⟨liveTag_compact _ env, supersessions_compact _ env⟩
  · exact ⟨fun _ _ => Iff.rfl, rfl⟩

theorem sameView_iff_harmless {log log' : OpLog T}
    {ops : List (SyncOp T)} (hops : log'.ops = log.ops ++ ops) :
    ((∀ value, log'.replay.1.contains value = true ↔ log.replay.1.contains value = true) ∧
      log'.replay.2 = log.replay.2) ↔ Harmless log ops := by
  have hcont : ∀ value, log'.replay.1.contains value = true ↔
      ∃ tag, ¬ Observed ops tag ∧
        (log.replay.1.LiveTag value tag ∨ (Added ops value tag ∧ ¬ Observed log.ops tag)) := by
    intro value
    rw [contains_replay, hops]
    simp only [added_append, observed_append, liveTag_replay]
    refine exists_congr (fun tag => ?_)
    tauto
  have hsup : log'.replay.2 = log.replay.2 ↔ ∀ o ∈ ops, o.op.supersession = none := by
    rw [replay_supersessions, replay_supersessions, hops, supersessions_append,
      List.append_right_eq_self]
    exact List.filterMap_eq_nil_iff
  constructor
  · rintro ⟨hlive, hs⟩
    refine ⟨hsup.mp hs, ?_, ?_⟩
    · intro value tag ha hl ho
      exact (hlive value).mp ((hcont value).mpr ⟨tag, ho, .inr ⟨ha, hl⟩⟩)
    · intro value hv
      exact (hcont value).mp ((hlive value).mpr hv)
  · intro h
    refine ⟨fun value => ⟨fun hv => ?_, fun hv => ?_⟩, hsup.mpr h.noSupersede⟩
    · obtain ⟨tag, ho, hl | ⟨ha, hl⟩⟩ := (hcont value).mp hv
      · exact (AddWinsSet.contains_iff _ _).mpr ⟨tag, hl⟩
      · exact h.adds value tag ha hl ho
    · exact (hcont value).mpr (h.removes value hv)

theorem SyncEngine.Coherent.sameView_absorb {e : SyncEngine T}
    (h : e.Coherent) (env : Env T) (c : Call T) {ops : List (SyncOp T)}
    (hops : (e.recorded env c).log.ops = e.log.ops ++ ops) :
    SameView e (e.call env c) ↔ Harmless e.log ops := by
  rw [← sameView_iff_harmless hops, SameView, h.state_eq, (h.call env c).state_eq,
    (e.call_view env c).2]
  simp only [AddWinsSet.contains_iff, (e.call_view env c).1]

theorem sameView_refl (e : SyncEngine T) : SameView e e :=
  ⟨fun _ => Iff.rfl, rfl⟩

theorem sameView_applyDelta {json : Json (DeltaEnvelope T)}
    {e : SyncEngine T} (h : e.Coherent) (env : Env T) {delta : Bytes} {d : DeltaEnvelope T}
    (hd : json.fromSlice delta = some d) :
    SameView e (applyDelta json e env delta).1 ↔
      e.log.compactionEpoch < d.compactionEpoch ∨ Harmless e.log (forgotten e.log d.ops) := by
  rw [applyDelta_calls]
  unfold deltaCalls
  rw [hd]
  dsimp only
  split
  · rename_i hlt
    exact iff_of_true (sameView_refl e) (.inl hlt)
  · rename_i hge
    rw [or_iff_right hge]
    have hops : (e.recorded env (.mergeDelta d)).log.ops = e.log.ops ++ forgotten e.log d.ops :=
      absorb_ops e.log d.ops
    exact h.sameView_absorb env (.mergeDelta d) hops

theorem pullReporting_single {json : Json (DeltaEnvelope T)}
    {aead : Aead} {client : SyncClient} (e : SyncEngine T) {transport : InMemoryTransport}
    (envs : Nat → Env T) {blob : SealedDelta} {d : DeltaEnvelope T}
    (hpage : (transport.pull client.topic client.pullCursor).blobs = [blob])
    (hd : carried json aead client blob = some d) :
    ∃ delta, json.fromSlice delta = some d ∧
      (client.pullReporting json aead e transport envs).2.1 =
        (applyDelta json e (envs client.pullCursor) delta).1 := by
  obtain ⟨delta, hopen, hj⟩ := Option.bind_eq_some_iff.mp hd
  refine ⟨delta, hj, ?_⟩
  rw [pullReporting_calls, pullReportingCalls, hpage, applyDelta_calls]
  unfold pullCalls openBlob
  rw [hopen]
  dsimp only
  by_cases hlt : e.log.compactionEpoch < d.compactionEpoch
  · have ha : (applyDelta json e (envs client.pullCursor) delta).2 =
        .error (.compactionEpochBehind e.log.compactionEpoch d.compactionEpoch) := by
      simp [applyDelta, decodeDelta, hj, hlt]
    rw [ha]
    simp [deltaCalls, hj, hlt]
  · have ha : (applyDelta json e (envs client.pullCursor) delta).2 =
        .ok (e.mergeDeltaEnvelope (envs client.pullCursor) d).2 := by
      simp [applyDelta, decodeDelta, hj, hlt]
    rw [ha]
    simp [pullCalls]

/-- Absorbing again, by any of the three ways, ops an engine already had leaves what it
shows unchanged exactly when a delta is refused for its epoch or the ops its dedup index
has forgotten are harmless. On a longer page each delta meets what those before it left. -/
theorem reabsorb_unchanged_iff (json : Json (DeltaEnvelope T))
    (aead : Aead) (s : Replica T) (h : (system json aead).Reachable s) :
    (∀ env other, SameView s.engine (s.engine.merge env other) ↔
      Harmless s.engine.log (forgotten s.engine.log other.ops)) ∧
    (∀ env delta d, json.fromSlice delta = some d →
      (SameView s.engine (applyDelta json s.engine env delta).1 ↔
        s.engine.log.compactionEpoch < d.compactionEpoch ∨
          Harmless s.engine.log (forgotten s.engine.log d.ops))) ∧
    (∀ envs client transport blob d,
      (InMemoryTransport.pull transport client.topic client.pullCursor).blobs = [blob] →
      carried json aead client blob = some d →
      (SameView s.engine (client.pullReporting json aead s.engine transport envs).2.1 ↔
        s.engine.log.compactionEpoch < d.compactionEpoch ∨
          Harmless s.engine.log (forgotten s.engine.log d.ops))) ∧
    ∀ envs (client : SyncClient) transport before c after,
      client.pullReportingCalls json aead s.engine transport envs = before ++ c :: after →
      (SameView (s.engine.calls before) ((s.engine.calls before).call c.1 c.2) ↔
        Harmless (s.engine.calls before).log
          (forgotten (s.engine.calls before).log c.2.entries)) := by
  have hc := coherent h
  refine ⟨?_, ?_, ?_, ?_⟩
  · intro env other
    have hops : (s.engine.recorded env (.merge other)).log.ops =
        s.engine.log.ops ++ forgotten s.engine.log other.ops :=
      absorb_ops s.engine.log other.ops
    exact hc.sameView_absorb env (.merge other) hops
  · intro env delta d hd
    exact sameView_applyDelta hc env hd
  · intro envs client transport blob d hpage hd
    obtain ⟨delta, hj, he⟩ := pullReporting_single s.engine envs hpage hd
    rw [he]
    exact sameView_applyDelta hc _ hj
  · intro envs client transport before c after hpage
    obtain ⟨_, _, d, _, he⟩ := mem_pullCalls
      (hpage ▸ List.mem_append_right before List.mem_cons_self)
    rw [he]
    exact (hc.calls before).sameView_absorb c.1 (.mergeDelta d) (absorb_ops _ d.ops)

end

/-! An engine adds 5, a peer merges it, and the peer's log comes back later. -/

namespace Echo

def start : Replica Nat := ⟨(SyncEngine.withReplicaId 0).withCompactionPolicy .default, []⟩

def peer : OpLog Nat := (OpLog.new 1).merge (start.engine.add .atEpoch 5 9).log

def kept : Replica Nat :=
  [ReplicaAction.call .atEpoch (.add 5 9), .call .atEpoch .compact].foldl
    (Replica.next .emptyDelta .tagged) start

def removed : Replica Nat :=
  [ReplicaAction.call .atEpoch (.add 5 9), .call .atEpoch (.remove 5),
    .call .atEpoch .compact].foldl (Replica.next .emptyDelta .tagged) start

theorem start_reachable : (system .emptyDelta .tagged).Reachable start :=
  .init ⟨0, .default, rfl⟩

theorem kept_reachable : (system .emptyDelta .tagged).Reachable kept :=
  Legal.reachable ⟨trivial, trivial, trivial⟩ start_reachable

theorem removed_reachable : (system .emptyDelta .tagged).Reachable removed :=
  Legal.reachable ⟨trivial, trivial, trivial, trivial⟩ start_reachable

theorem kept_harmless : Harmless kept.engine.log (forgotten kept.engine.log peer.ops) := by
  have hf : forgotten kept.engine.log peer.ops = [⟨0, 1, 0, .add 5 9⟩] := by decide +kernel
  have hl : kept.engine.log.ops = [⟨0, 2, 0, .add 5 9⟩] := by decide +kernel
  rw [hf]
  refine ⟨by simp [SyncOpKind.supersession], ?_, ?_⟩
  · intro value tag ha _ _
    refine (contains_replay _ _).mpr ⟨tag, ?_, ?_⟩
    · simpa [hl, Added] using ha
    · simp [hl, Observed, SyncOpKind.observedTags]
  · intro value hv
    obtain ⟨tag, ht⟩ := (AddWinsSet.contains_iff _ _).mp hv
    exact ⟨tag, by simp [Observed, SyncOpKind.observedTags], .inl ht⟩

end Echo

open Echo

theorem reabsorb_unchanged_kept :
    peer.ops = [⟨0, 1, 0, .add 5 9⟩] ∧ (∀ o ∈ peer.ops, o ∈ kept.history) ∧
      peer.ops.map SyncOp.key ≠ kept.engine.log.ops.map SyncOp.key ∧
      SameView kept.engine (kept.engine.merge .atEpoch peer) := by
  have hist : ∀ o ∈ peer.ops, o ∈ kept.history := by decide +kernel
  refine ⟨by decide +kernel, hist, by decide +kernel, ?_⟩
  have h := (reabsorb_unchanged_iff .emptyDelta .tagged kept kept_reachable).1
  exact (h .atEpoch peer).mpr kept_harmless

/-- Once the tombstone is compacted away, the peer's old add makes the removed value live. -/
theorem reabsorb_revives_removed :
    (system .emptyDelta .tagged).Reachable removed ∧
      (∀ o ∈ peer.ops, o ∈ removed.history) ∧
      removed.engine.state.2.1.contains 5 = false ∧
      (removed.engine.merge .atEpoch peer).state.2.1.contains 5 = true ∧
      ¬ SameView removed.engine (removed.engine.merge .atEpoch peer) := by
  have hc := coherent removed_reachable
  have hops : removed.engine.log.ops = [] := by decide +kernel
  have hmerged : (removed.engine.merge .atEpoch peer).log.ops =
      [⟨0, 1, 0, .add 5 9⟩] := by decide +kernel
  have hbefore : removed.engine.state.2.1.contains 5 = false := by
    rw [hc.state_eq, Bool.eq_false_iff, Ne, contains_replay, hops]
    simp [Added]
  have hafter : (removed.engine.merge .atEpoch peer).state.2.1.contains 5 = true := by
    have hm : (removed.engine.merge .atEpoch peer).Coherent :=
      hc.call .atEpoch (.merge peer)
    rw [hm.state_eq, contains_replay, hmerged]
    exact ⟨9, by simp [Added], by simp [Observed, SyncOpKind.observedTags]⟩
  refine ⟨removed_reachable, by decide +kernel, hbefore, hafter, fun h => ?_⟩
  have hlive := (h.1 5).mp hafter
  rw [hbefore] at hlive
  exact Bool.false_ne_true hlive

end Knowledge.Sync
