import Knowledge.Sync.Transport

/-!
A delta of a sender, applied to a receiver that has the part of the sender's own stream
the watermark cuts off, does what a direct merge with the sender does.
-/

set_option autoImplicit false

namespace Knowledge.Sync
open Knowledge.Dedup
open SyncEngine

namespace OpLog
variable {T : Type}

def Contains (log : OpLog T) (o : SyncOp T) : Prop := o.key ∈ log.seen

instance (log : OpLog T) (o : SyncOp T) : Decidable (log.Contains o) :=
  inferInstanceAs (Decidable (o.key ∈ log.seen))

/-- The receiver has everything the sender authored up to the watermark. -/
def CaughtUp (log sender : OpLog T) (sinceSeq : Nat) : Prop :=
  ∀ o ∈ sender.ops, o.replicaId = sender.replicaId → o.seq ≤ sinceSeq → log.Contains o

theorem absorb_filter {log : OpLog T} {entries : List (SyncOp T)} {keep : SyncOp T → Bool}
    (h : ∀ o ∈ entries, keep o = false → log.Contains o) :
    log.absorb (entries.filter keep) = log.absorb entries := by
  have hseen : log.seen ∪ ((entries.filter keep).map SyncOp.key).toFinset =
      log.seen ∪ (entries.map SyncOp.key).toFinset := by
    ext k
    simp only [Finset.mem_union, List.mem_toFinset, List.mem_map, List.mem_filter]
    constructor
    · rintro (hk | ⟨o, ⟨ho, _⟩, rfl⟩)
      · exact .inl hk
      · exact .inr ⟨o, ho, rfl⟩
    · rintro (hk | ⟨o, ho, rfl⟩)
      · exact .inl hk
      · cases hkeep : keep o with
        | false => exact .inl (h o ho hkeep)
        | true => exact .inr ⟨o, ⟨ho, hkeep⟩, rfl⟩
  rw [absorb_eq, absorb_eq, fresh_filter h, hseen]

theorem CaughtUp.absorb {log sender : OpLog T} {sinceSeq : Nat} (h : log.CaughtUp sender sinceSeq) :
    log.absorb (deltaSince sender sinceSeq).ops = log.absorb sender.ops := by
  refine absorb_filter fun o ho hcut => ?_
  simp only [decide_eq_false_iff_not, not_or, not_not, Nat.not_lt] at hcut
  exact h o ho hcut.1 hcut.2

end OpLog

variable {T : Type} [DecidableEq T]

def newTo (log : OpLog T) (sender : OpLog T) : List (SyncOp T) :=
  fresh SyncOp.key log.seen sender.ops

theorem absorbLog_ops (e : SyncEngine T) (sender : OpLog T) :
    (e.absorbLog sender).log.ops = e.log.ops ++ newTo e.log sender := by
  simp [absorbLog, extend, reflect, OpLog.merge, OpLog.absorb_ops, newTo]

theorem absorbEnvelope_eq {e : SyncEngine T} {sender : OpLog T} {sinceSeq : Nat}
    (h : e.log.CaughtUp sender sinceSeq) :
    e.absorbEnvelope (deltaSince sender sinceSeq) = e.absorbLog sender := by
  simp only [absorbEnvelope, absorbLog, OpLog.merge, h.absorb]
  rfl

theorem mergeDeltaEnvelope_eq {e : SyncEngine T} {sender : OpLog T} {sinceSeq : Nat}
    (h : e.log.CaughtUp sender sinceSeq) (env : Env T) :
    e.mergeDeltaEnvelope env (deltaSince sender sinceSeq) =
      (e.merge env sender, (newTo e.log sender).length) := by
  simp [mergeDeltaEnvelope, merge, absorbEnvelope_eq h, absorbLog_ops]

omit [DecidableEq T] in
theorem decodeDelta_ok {json : Json (DeltaEnvelope T)} {bytes : Bytes}
    {envelope : DeltaEnvelope T} (h : json.fromSlice bytes = some envelope) :
    decodeDelta json bytes = .ok envelope := by
  simp [decodeDelta, h]

/-- The two paths end in one and the same engine: log, clock, epoch, index, cache and
compaction counters. A refused delta leaves the engine as it was. -/
theorem applyDelta_is_merge (json : Json (DeltaEnvelope T)) (e : SyncEngine T) (env : Env T)
    (sender : OpLog T) (sinceSeq : Nat) (bytes : Bytes)
    (hencode : encodeDeltaSince json sender sinceSeq = .ok bytes) :
    (sender.compactionEpoch ≤ e.log.compactionEpoch → e.log.CaughtUp sender sinceSeq →
        applyDelta json e env bytes =
            (e.merge env sender, .ok (newTo e.log sender).length) ∧
          (e.absorbEnvelope (deltaSince sender sinceSeq)).log.ops =
            e.log.ops ++ newTo e.log sender ∧
          (e.absorbLog sender).log.ops = e.log.ops ++ newTo e.log sender) ∧
      (e.log.compactionEpoch < sender.compactionEpoch →
        applyDelta json e env bytes =
          (e, .error (.compactionEpochBehind e.log.compactionEpoch sender.compactionEpoch))) ∧
      ∀ garbage, json.fromSlice garbage = none →
        applyDelta json e env garbage = (e, .error .deltaDecode) := by
  have hdecode := decodeDelta_ok (encodeEnvelope_ok hencode)
  refine ⟨?_, ?_, ?_⟩
  · intro hepoch hcaught
    have hguard : ¬ e.log.compactionEpoch < (deltaSince sender sinceSeq).compactionEpoch :=
      Nat.not_lt.mpr hepoch
    refine ⟨?_, ?_, absorbLog_ops e sender⟩
    · simp only [applyDelta, hdecode, if_neg hguard, mergeDeltaEnvelope_eq hcaught env]
    · rw [absorbEnvelope_eq hcaught, absorbLog_ops]
  · intro hbehind
    have hguard : e.log.compactionEpoch < (deltaSince sender sinceSeq).compactionEpoch := hbehind
    simp only [applyDelta, hdecode, if_pos hguard]
    rfl
  · intro garbage hgarbage
    simp [applyDelta, decodeDelta, hgarbage]

namespace Overlap

def sender : OpLog Nat :=
  ⟨1, 2, 0, [⟨1, 1, 0, .add 5 9⟩, ⟨2, 1, 0, .add 6 10⟩, ⟨1, 2, 0, .remove 5 [9]⟩,
    ⟨3, 1, 0, .add 7 11⟩], {(1, 1), (2, 1), (1, 2), (3, 1)}⟩

def receiver : SyncEngine Nat :=
  ⟨4, ⟨4, 0, 0, [⟨1, 1, 0, .add 5 9⟩, ⟨2, 1, 0, .add 6 10⟩], {(1, 1), (2, 1)}⟩, none, 0,
    .default, 0, 0⟩

def foreignText : String :=
  "\x7b\"replica_id\":\"00000000-0000-0000-0000-000000000002\",\"seq\":1,\"created_at\":" ++
  "\"1970-01-01T00:00:00Z\",\"op\":\x7b\"kind\":\"add\",\"value\":6,\"tag\":" ++
  "\"00000000-0000-0000-0000-00000000000a\"\x7d\x7d"

def ownText : String :=
  "\x7b\"replica_id\":\"00000000-0000-0000-0000-000000000001\",\"seq\":2,\"created_at\":" ++
  "\"1970-01-01T00:00:00Z\",\"op\":\x7b\"kind\":\"remove\",\"value\":5,\"observed_tags\":" ++
  "[\"00000000-0000-0000-0000-000000000009\"]\x7d\x7d"

def newText : String :=
  "\x7b\"replica_id\":\"00000000-0000-0000-0000-000000000003\",\"seq\":1,\"created_at\":" ++
  "\"1970-01-01T00:00:00Z\",\"op\":\x7b\"kind\":\"add\",\"value\":7,\"tag\":" ++
  "\"00000000-0000-0000-0000-00000000000b\"\x7d\x7d"

def text : String :=
  "\x7b\"compaction_epoch\":0,\"since_seq\":1,\"ops\":[" ++ foreignText ++ "," ++ ownText ++
  "," ++ newText ++ "]\x7d"

def json : Json (DeltaEnvelope Nat) := .single (deltaSince sender 1) text

end Overlap

open Overlap

theorem applyDelta_is_merge_overlap :
    encodeDeltaSince json sender 1 = .ok text.toUTF8.data.toList ∧
      applyDelta json receiver .atEpoch text.toUTF8.data.toList =
        (receiver.merge .atEpoch sender, .ok 2) := by
  have hencode : encodeDeltaSince json sender 1 =
      .ok text.toUTF8.data.toList := by
    simp [encodeDeltaSince, encodeEnvelope, json, Json.single]
  have hcaught : receiver.log.CaughtUp sender 1 := by
    unfold OpLog.CaughtUp
    decide
  have hnew : (newTo receiver.log sender).length = 2 := by decide
  have h := (applyDelta_is_merge json receiver .atEpoch sender 1 _
    hencode).1 (by decide) hcaught
  exact ⟨hencode, h.1.trans (by rw [hnew])⟩

end Knowledge.Sync
