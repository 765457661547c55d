import Knowledge.Lib.Transition
import Knowledge.Sync.Snapshot

/-!
The state an engine shows is the replay of its log, however the engine came about and
whatever was done with it, as long as a log that repeats an id is not bootstrapped from.
-/

set_option autoImplicit false

namespace Knowledge.Sync
open Knowledge.Machine Knowledge.Dedup Knowledge.Transition
open AddWinsSet SyncOp

/-- What may be done with an engine: a call, an edit of the log by a caller who has borrowed
it, a change of policy. An engine that is built from its snapshot takes its place. -/
inductive Use (T : Type) where
  | call (env : Env T) (c : Call T)
  | edit (log : OpLog T)
  | policy (policy : CompactionPolicy)
  | restore
  | bootstrap (newReplicaId : Uuid)

namespace SyncEngine

variable {T : Type}

def opLogMut (e : SyncEngine T) (log : OpLog T) : SyncEngine T :=
  { e.invalidateCache with log }

variable [DecidableEq T]

def use (json : Json (EngineSnapshot T)) (e : SyncEngine T) :
    Use T → Except SyncError (SyncEngine T)
  | .call env c => .ok (e.call env c)
  | .edit log => .ok (e.opLogMut log)
  | .policy policy => .ok (e.withCompactionPolicy policy)
  | .restore => do
    let bytes ← (e.snapshot json).2
    restoreSnapshot json bytes
  | .bootstrap newReplicaId => do
    let bytes ← (e.snapshot json).2
    bootstrapFromSnapshotWithReplicaId json bytes newReplicaId

def system (json : Json (EngineSnapshot T)) : System (SyncEngine T) (Use T) where
  init e := (∃ replicaId, e = withReplicaId replicaId) ∨ ∃ replicaId log, e = fromLog replicaId log
  step e u e' := e.use json u = .ok e'

end SyncEngine

def firsts {T : Type} (ops : List (SyncOp T)) : List (SyncOp T) := fresh SyncOp.key ∅ ops

/-- An op that repeats the id of an earlier one adds a pair that an op with a first id adds
too, or removes tags that such ops observe. -/
def RepeatsNothingNew {T : Type} (ops : List (SyncOp T)) : Prop :=
  ∀ o ∈ repeated SyncOp.key ∅ ops, match o.op with
    | .add value tag => Added (firsts ops) value tag
    | .remove _ observed => ∀ tag ∈ observed, Observed (firsts ops) tag
    | .supersede _ _ _ => False

section

variable {T : Type}

theorem repeatsNothingNew_of_nodup {ops : List (SyncOp T)} (h : (ops.map key).Nodup) :
    RepeatsNothingNew ops := by
  have hnone : ∀ (ops : List (SyncOp T)) (seen : Finset (Uuid × Nat)),
      (ops.map key).Nodup → (∀ o ∈ ops, o.key ∉ seen) →
      repeated key seen ops = [] := by
    intro ops
    induction ops with
    | nil => exact fun _ _ _ => rfl
    | cons o ops ih =>
      intro seen hnodup hseen
      obtain ⟨hnot, hrest⟩ := List.nodup_cons.mp hnodup
      rw [repeated, if_neg (hseen o List.mem_cons_self)]
      refine ih _ hrest fun o' ho' hmem => ?_
      obtain heq | hmem := Finset.mem_insert.mp hmem
      · exact hnot (List.mem_map.mpr ⟨o', ho', heq⟩)
      · exact hseen o' (List.mem_cons_of_mem _ ho') hmem
  intro o ho
  rw [hnone ops ∅ h fun _ _ => Finset.notMem_empty _] at ho
  cases ho

theorem added_iff_firsts (ops : List (SyncOp T)) (value : T) (tag : Uuid) :
    Added ops value tag ↔
      Added (firsts ops) value tag ∨ Added (repeated key ∅ ops) value tag := by
  simp only [Added, firsts, @mem_iff_fresh_or_repeated _ _ _ key ∅ ops, or_and_right, exists_or]

theorem observed_iff_firsts (ops : List (SyncOp T)) (tag : Uuid) :
    Observed ops tag ↔
      Observed (firsts ops) tag ∨ Observed (repeated key ∅ ops) tag := by
  simp only [Observed, firsts, @mem_iff_fresh_or_repeated _ _ _ key ∅ ops, or_and_right, exists_or]

variable [DecidableEq T]

/-- Keeping each id once shows the same exactly when what repeats an id brings nothing new. -/
theorem replay_firsts_iff (ops : List (SyncOp T)) :
    replayFrom (new, []) ops = replayFrom (new, []) (firsts ops) ↔
      RepeatsNothingNew ops := by
  have hadded : ∀ (ops : List (SyncOp T)) (p : T × Uuid),
      p ∈ (replayFrom (new, []) ops).1.elements ↔ Added ops p.1 p.2 := by
    rintro ops ⟨value, tag⟩
    rw [mem_elements_replayFrom]
    simp [new]
  have hobserved : ∀ (ops : List (SyncOp T)) (tag : Uuid),
      tag ∈ (replayFrom (new, []) ops).1.tombstones ↔ Observed ops tag := by
    intro ops tag
    simp [mem_tombstones_replayFrom, new]
  have hsupers : supersessions (firsts ops) = supersessions ops ↔
      ∀ o ∈ repeated key ∅ ops, o.op.supersession = none := filterMap_fresh_eq_iff _
  constructor
  · intro h o ho
    have hnone := hsupers.mp (by
      have hsnd := congrArg Prod.snd h
      rw [replayFrom_supersessions, replayFrom_supersessions] at hsnd
      exact hsnd.symm)
    cases hop : o.op with
    | add value tag =>
      have hin : Added ops value tag := (added_iff_firsts ops value tag).mpr (.inr ⟨o, ho, hop⟩)
      have hmem := (hadded ops (value, tag)).mpr hin
      rw [h] at hmem
      exact (hadded (firsts ops) (value, tag)).mp hmem
    | remove value observed =>
      intro tag htag
      have hin : Observed ops tag :=
        (observed_iff_firsts ops tag).mpr (.inr ⟨o, ho, by rw [hop]; exact htag⟩)
      have hmem := (hobserved ops tag).mpr hin
      rw [h] at hmem
      exact (hobserved (firsts ops) tag).mp hmem
    | supersede value successor observed =>
      have hnone := hnone o ho
      rw [hop] at hnone
      cases hnone
  · intro h
    have hsame : ∀ value tag, Added (repeated key ∅ ops) value tag →
        Added (firsts ops) value tag := by
      rintro value tag ⟨o, ho, hop⟩
      have hnew := h o ho
      rw [hop] at hnew
      exact hnew
    have hseen : ∀ tag, Observed (repeated key ∅ ops) tag → Observed (firsts ops) tag := by
      rintro tag ⟨o, ho, htag⟩
      have hnew := h o ho
      cases hop : o.op with
      | add value tag' =>
        rw [hop] at htag
        cases htag
      | remove value observed =>
        rw [hop] at hnew htag
        exact hnew tag htag
      | supersede value successor observed =>
        rw [hop] at hnew
        exact hnew.elim
    have hlast : supersessions (firsts ops) = supersessions ops := by
      refine hsupers.mpr fun o ho => ?_
      have hnew := h o ho
      cases hop : o.op with
      | add value tag => rfl
      | remove value observed => rfl
      | supersede value successor observed =>
        rw [hop] at hnew
        exact hnew.elim
    refine Prod.ext ?_ ?_
    · have helements : (replayFrom (new, []) ops).1.elements =
          (replayFrom (new, []) (firsts ops)).1.elements := by
        ext p
        rw [hadded, hadded, added_iff_firsts]
        exact or_iff_left_of_imp (hsame p.1 p.2)
      have htombstones : (replayFrom (new, []) ops).1.tombstones =
          (replayFrom (new, []) (firsts ops)).1.tombstones := by
        ext tag
        rw [hobserved, hobserved, observed_iff_firsts]
        exact or_iff_left_of_imp (hseen tag)
      calc (replayFrom (new, []) ops).1
          = ⟨(replayFrom (new, []) ops).1.elements, (replayFrom (new, []) ops).1.tombstones⟩ := rfl
        _ = (replayFrom (new, []) (firsts ops)).1 := by
          rw [helements, htombstones]
    · rw [replayFrom_supersessions, replayFrom_supersessions, hlast]

end

namespace SyncEngine

variable {T : Type} [DecidableEq T]

theorem hydrate_state (replicaId : Uuid) (log : OpLog T) (snap : EngineSnapshot T) :
    (hydrate replicaId log snap).state.2 = (snap.set, snap.supersessions) := by
  unfold hydrate
  cases snap.compactThreshold <;>
    simp [state, materialise, fromLog, withCompactionPolicy, replayFrom]

theorem coherent_hydrate {replicaId : Uuid} {log : OpLog T} {snap : EngineSnapshot T}
    (h : (snap.set, snap.supersessions) = log.replay) : (hydrate replicaId log snap).Coherent := by
  intro cache hc
  have hsame : cache = (snap.set, snap.supersessions) := by
    unfold hydrate at hc
    cases hthreshold : snap.compactThreshold <;> rw [hthreshold] at hc <;>
      exact (Option.some.inj hc).symm
  refine ⟨?_, ?_⟩
  · unfold hydrate
    cases snap.compactThreshold <;> rfl
  · rw [hydrate_log, hsame, h]

theorem snapshot_ok {json : Json (EngineSnapshot T)} {e : SyncEngine T} {bytes : Bytes}
    (h : (e.snapshot json).2 = .ok bytes) : json.fromSlice bytes = some e.toSnapshot := by
  unfold snapshot at h
  split at h
  · rename_i written hw
    obtain rfl := Except.ok.inj h
    exact json.fromSlice_toVec _ _ hw
  · cases h

theorem Coherent.toSnapshot {e : SyncEngine T} (h : e.Coherent) :
    (e.toSnapshot.set, e.toSnapshot.supersessions) = e.log.replay := h.state_eq

theorem Coherent.opLogMut (e : SyncEngine T) (log : OpLog T) : (e.opLogMut log).Coherent := by
  intro cache hc
  cases hc

theorem use_restore {json : Json (EngineSnapshot T)} {e e' : SyncEngine T}
    (h : e.use json .restore = .ok e') :
    e' = hydrate e.replicaId e.log.onDisk.toOpLog e.toSnapshot := by
  unfold use at h
  cases hs : (e.snapshot json).2 with
  | error err => simp [hs, bind, Except.bind] at h
  | ok bytes =>
    simp only [hs, bind, Except.bind] at h
    obtain ⟨snap, hj, -, rfl⟩ := restoreSnapshot_ok h
    obtain rfl := Option.some.inj ((snapshot_ok hs).symm.trans hj)
    rfl

theorem use_bootstrap {json : Json (EngineSnapshot T)} {e e' : SyncEngine T} {newReplicaId : Uuid}
    (h : e.use json (.bootstrap newReplicaId) = .ok e') :
    e' = hydrate newReplicaId (bootstrapLog e.toSnapshot newReplicaId) e.toSnapshot := by
  unfold use at h
  cases hs : (e.snapshot json).2 with
  | error err => simp [hs, bind, Except.bind] at h
  | ok bytes =>
    simp only [hs, bind, Except.bind] at h
    obtain ⟨snap, hj, rfl⟩ := bootstrap_ok h
    obtain rfl := Option.some.inj ((snapshot_ok hs).symm.trans hj)
    rfl

omit [DecidableEq T] in
theorem bootstrapLog_ops (snap : EngineSnapshot T) (newReplicaId : Uuid) :
    (bootstrapLog snap newReplicaId).ops = firsts snap.log.ops := by
  change ((OpLog.new newReplicaId).absorb snap.log.ops).ops = _
  rw [OpLog.absorb_ops]
  rfl

theorem Coherent.bootstrap_iff {json : Json (EngineSnapshot T)} {e e' : SyncEngine T}
    {newReplicaId : Uuid} (h : e.Coherent) (hb : e.use json (.bootstrap newReplicaId) = .ok e') :
    e'.state.2 = e'.log.replay ↔ RepeatsNothingNew e.log.ops := by
  rw [use_bootstrap hb, hydrate_state, hydrate_log, h.toSnapshot, OpLog.replay, OpLog.replay,
    bootstrapLog_ops]
  exact replay_firsts_iff e.log.ops

variable (T) in
/-- A log that is bootstrapped from brings nothing new where it repeats an id. -/
def FirstsSuffice (e : SyncEngine T) : Use T → Prop
  | .bootstrap _ => RepeatsNothingNew e.log.ops
  | _ => True

section

variable {json : Json (EngineSnapshot T)}

theorem Coherent.use {e e' : SyncEngine T} {u : Use T}
    (h : e.Coherent) (hu : e.use json u = .ok e') (hfirsts : FirstsSuffice T e u) :
    e'.Coherent := by
  cases u with
  | call env c =>
    obtain rfl := Except.ok.inj hu
    exact h.call env c
  | edit log =>
    obtain rfl := Except.ok.inj hu
    exact Coherent.opLogMut e log
  | policy policy =>
    obtain rfl := Except.ok.inj hu
    exact h
  | restore =>
    rw [use_restore hu]
    exact coherent_hydrate h.toSnapshot
  | bootstrap newReplicaId =>
    rw [use_bootstrap hu]
    refine coherent_hydrate (h.toSnapshot.trans ?_)
    rw [OpLog.replay, OpLog.replay, bootstrapLog_ops]
    exact (replay_firsts_iff e.log.ops).mpr hfirsts

theorem coherent_of_reachable {e : SyncEngine T}
    (h : ((system json).restrict (FirstsSuffice T)).Reachable e) : e.Coherent := by
  refine h.invariant Coherent ?_ ?_
  · rintro e (⟨replicaId, rfl⟩ | ⟨replicaId, log, rfl⟩)
    · exact coherent_fromLog replicaId _
    · exact coherent_fromLog replicaId log
  · intro e u e' _ hc hs
    exact hc.use hs.1 hs.2

theorem reachable_call {e : SyncEngine T}
    (h : ((system json).restrict (FirstsSuffice T)).Reachable e) (env : Env T) (c : Call T) :
    ((system json).restrict (FirstsSuffice T)).Reachable (e.call env c) := by
  have hstep : e.use json (.call env c) = .ok (e.call env c) := rfl
  exact h.step ⟨hstep, trivial⟩

/-- Every engine shows the replay of its log, if no log was bootstrapped from that brings
something new where it repeats an id; and one that is bootstrapped does so only then. -/
theorem state_is_replay {e : SyncEngine T}
    (h : ((system json).restrict (FirstsSuffice T)).Reachable e) :
    e.state.2 = e.log.replay ∧
      ∀ newReplicaId e', e.use json (.bootstrap newReplicaId) = .ok e' →
        (e'.state.2 = e'.log.replay ↔ RepeatsNothingNew e.log.ops) :=
  ⟨(coherent_of_reachable h).state_eq, fun _ _ hb => (coherent_of_reachable h).bootstrap_iff hb⟩

end

theorem use_bootstrap_single {e : SyncEngine T} (h : e.log.replicaId = e.replicaId)
    (text : String) (newReplicaId : Uuid) :
    e.use (.single e.toSnapshot text) (.bootstrap newReplicaId) =
      .ok (hydrate newReplicaId (bootstrapLog e.toSnapshot newReplicaId) e.toSnapshot) := by
  have hid : e.toSnapshot.log.replicaId = e.toSnapshot.replicaId := h
  have hread : readSnapshot (.single e.toSnapshot text) text.toUTF8.data.toList =
      .ok e.toSnapshot := by
    simp [readSnapshot, Json.single, hid]
  have hwrite : (e.snapshot (.single e.toSnapshot text)).2 = .ok text.toUTF8.data.toList := by
    simp [snapshot, Json.single]
  simp only [use, hwrite, bind, Except.bind, bootstrapFromSnapshotWithReplicaId, hread, pure,
    Except.pure]

def retold : SyncEngine Nat :=
  ((withReplicaId 1).call .atEpoch (.add 10 100)).call .atEpoch (.supersede 10 11)

def tagText (tag : String) : String := "\"00000000-0000-0000-0000-0000000000" ++ tag ++ "\""

def opText (seq kind : String) : String :=
  "\x7b\"replica_id\":" ++ tagText "01" ++ ",\"seq\":" ++ seq ++
  ",\"created_at\":\"1970-01-01T00:00:00Z\",\"op\":\x7b\"kind\":" ++ kind ++ "\x7d\x7d"

def snapshotText (clock ops elements tombstones supersessions : String) : String :=
  "\x7b\"replica_id\":" ++ tagText "01" ++ ",\"log\":\x7b\"replica_id\":" ++ tagText "01" ++
  ",\"clock\":" ++ clock ++ ",\"compaction_epoch\":0,\"ops\":[" ++ ops ++
  "]\x7d,\"set\":\x7b\"elements\":\x7b" ++ elements ++ "\x7d,\"tombstones\":[" ++ tombstones ++
  "]\x7d,\"supersessions\":[" ++ supersessions ++ "]\x7d"

def retoldText : String :=
  snapshotText "2" (opText "1" ("\"add\",\"value\":10,\"tag\":" ++ tagText "64") ++ "," ++
      opText "2" ("\"supersede\",\"value\":10,\"successor\":11,\"observed_tags\":[" ++
        tagText "64" ++ "]"))
    ("\"10\":[" ++ tagText "64" ++ "]") (tagText "64") "[10,11]"

theorem state_is_replay_retold :
    ∃ e', retold.use (.single retold.toSnapshot retoldText) (.bootstrap 2) = .ok e' ∧
      e'.state.2 = e'.log.replay ∧ e'.state.2.2 = [(10, 11)] := by
  have hr : ((system (.single retold.toSnapshot retoldText)).restrict
      (FirstsSuffice Nat)).Reachable retold :=
    reachable_call (reachable_call (.init (.inl ⟨1, rfl⟩)) _ _) _ _
  refine ⟨_, use_bootstrap_single rfl retoldText 2, ?_, by decide +kernel⟩
  refine ((state_is_replay hr).2 2 _ (use_bootstrap_single rfl retoldText 2)).mpr ?_
  exact repeatsNothingNew_of_nodup (by decide +kernel)

/-- An op under the last seq of the replica itself comes in, and the next one that is
recorded gets the same id. -/
def exhausted : SyncEngine Nat :=
  ((withReplicaId 1).call .atEpoch (.mergeDelta ⟨0, 0, [⟨1, u64Max, 0, .add 10 100⟩]⟩)).call
    .atEpoch (.add 11 101)

def exhaustedText : String :=
  snapshotText "18446744073709551615"
    (opText "18446744073709551615" ("\"add\",\"value\":10,\"tag\":" ++ tagText "64") ++ "," ++
      opText "18446744073709551615" ("\"add\",\"value\":11,\"tag\":" ++ tagText "65"))
    ("\"10\":[" ++ tagText "64" ++ "],\"11\":[" ++ tagText "65" ++ "]") "" ""

/-- The engine bootstrapped from it shows two values, and its log has one of them. -/
theorem bootstrap_shows_lost_op :
    ∃ e', (system (.single exhausted.toSnapshot exhaustedText)).Reachable e' ∧
      e'.state.2 ≠ e'.log.replay := by
  have hr : ((system (.single exhausted.toSnapshot exhaustedText)).restrict
      (FirstsSuffice Nat)).Reachable exhausted :=
    reachable_call (reachable_call (.init (.inl ⟨1, rfl⟩)) _ _) _ _
  refine ⟨_, hr.of_restrict.step (use_bootstrap_single rfl exhaustedText 2), fun h => ?_⟩
  have hfirsts := ((coherent_of_reachable hr).bootstrap_iff
    (use_bootstrap_single rfl exhaustedText 2)).mp h
  have hops : exhausted.log.ops = [⟨1, u64Max, 0, .add 10 100⟩, ⟨1, u64Max, 0, .add 11 101⟩] := by
    decide +kernel
  rw [hops] at hfirsts
  have hrepeated : (⟨1, u64Max, 0, .add 11 101⟩ : SyncOp Nat) ∈ repeated key ∅
      [⟨1, u64Max, 0, .add 10 100⟩, ⟨1, u64Max, 0, .add 11 101⟩] := by
    simp [repeated, key]
  obtain ⟨o, ho, hop⟩ := hfirsts _ hrepeated
  have hone : firsts [⟨1, u64Max, 0, .add 10 100⟩, ⟨1, u64Max, 0, .add 11 101⟩] =
      [(⟨1, u64Max, 0, .add 10 100⟩ : SyncOp Nat)] := by
    simp [firsts, fresh, key]
  rw [hone] at ho
  obtain rfl := List.mem_singleton.mp ho
  cases hop

end SyncEngine

end Knowledge.Sync
