import Knowledge.Sync.Net

/-!
A replica that mutates, compacts and pushes to a relay: which of its tombstones reach
the relay.
-/

set_option autoImplicit false

namespace Knowledge.Sync
open Knowledge.Machine Knowledge.Dedup Knowledge.Transition

/-- `drawn` and `tombstoned` are history: the tags the replica's adds drew, and the tags
its removes and supersedes observed. -/
structure Uploader (T : Type) where
  engine : SyncEngine T
  client : SyncClient
  relay : InMemoryTransport
  drawn : List Uuid
  tombstoned : List Uuid

open Uploader

inductive UploadAction (T : Type) where
  | add (env : Env T) (value : T) (tag : Uuid)
  | remove (env : Env T) (value : T)
  | supersede (env : Env T) (value successor : T)
  | compact (env : Env T)
  | push (nonce : AeadNonce)

namespace UploadAction

def call {T : Type} : UploadAction T → Option (Env T × Call T)
  | .add env value tag => some (env, .add value tag)
  | .remove env value => some (env, .remove value)
  | .supersede env value successor => some (env, .supersede value successor)
  | .compact env => some (env, .compact)
  | .push _ => none

def drawnTags {T : Type} : UploadAction T → List Uuid
  | .add _ _ tag => [tag]
  | _ => []

end UploadAction

namespace Uploader

section

variable {T : Type} (json : Json (DeltaEnvelope T)) (aead : Aead) (client : SyncClient)
  (relay : InMemoryTransport)

/-- Some blob of the topic carries an op that satisfies `P`. -/
def OnRelay (P : SyncOp T → Prop) : Prop :=
  ∃ blob ∈ relay.topics client.topic, ∃ d, carried json aead client blob = some d ∧
    ∃ o ∈ d.ops, P o

def RelayAdded (tag : Uuid) : Prop :=
  OnRelay json aead client relay (fun o => o.op.addedTag = some tag)

def RelayTombstoned (tag : Uuid) : Prop :=
  OnRelay json aead client relay (fun o => tag ∈ o.op.observedTags)

end

instance decidableOnRelay {T : Type} (json : Json (DeltaEnvelope T)) (aead : Aead)
    (client : SyncClient) (relay : InMemoryTransport) (P : SyncOp T → Prop) [DecidablePred P] :
    Decidable (OnRelay json aead client relay P) :=
  inferInstanceAs (Decidable (∃ blob ∈ relay.topics client.topic,
    ∃ d ∈ carried json aead client blob, ∃ o ∈ d.ops, P o))

def recordedState {T : Type} [DecidableEq T] (s : Uploader T) (drawn : List Uuid) (env : Env T)
    (c : Call T) : Uploader T :=
  { s with
    engine := s.engine.recorded env c
    drawn := s.drawn ++ drawn
    tombstoned := s.tombstoned ++
      (s.engine.recordedOps env c).flatMap (fun o => o.op.observedTags) }

def next {T : Type} [DecidableEq T] (json : Json (DeltaEnvelope T)) (aead : Aead)
    (s : Uploader T) (a : UploadAction T) : Uploader T :=
  match a with
  | .push nonce =>
    let pushed := s.client.push json aead s.engine s.relay nonce
    { s with client := pushed.1, relay := pushed.2.1 }
  | .add env value tag =>
    { s.recordedState [tag] env (.add value tag) with engine := s.engine.add env value tag }
  | .remove env value =>
    { s.recordedState [] env (.remove value) with engine := s.engine.remove env value }
  | .supersede env value successor =>
    { s.recordedState [] env (.supersede value successor) with
      engine := s.engine.supersede env value successor }
  | .compact env =>
    { s.recordedState [] env .compact with engine := (s.engine.compact env).1 }

/-- A drawn tag is new: UUIDs do not repeat. -/
def Guard {T : Type} (s : Uploader T) : UploadAction T → Prop
  | .add _ _ tag => tag ∉ s.drawn
  | _ => True

def system {T : Type} [DecidableEq T] (json : Json (DeltaEnvelope T)) (aead : Aead) :
    System (Uploader T) (UploadAction T) :=
  .ofNext (fun s => ∃ replicaId policy topic sealKey,
      s = ⟨(SyncEngine.withReplicaId replicaId).withCompactionPolicy policy,
        SyncClient.new topic sealKey, InMemoryTransport.new, [], []⟩) Guard (next json aead)

/-- The clock is not exhausted, and the log that a compaction rewrites holds no tombstone
past the push watermark for a tag whose add the relay has and whose tombstone it lacks. -/
def Keeps {T : Type} [DecidableEq T] (json : Json (DeltaEnvelope T)) (aead : Aead)
    (s : Uploader T) (a : UploadAction T) : Prop :=
  ∀ env c, a.call = some (env, c) → s.engine.log.clock < u64Max ∧
    (s.engine.compacts env c = true → ∀ o ∈ (s.engine.recorded env c).log.ops,
      s.client.ownPushWatermark < o.seq → ∀ tag ∈ o.op.observedTags,
        RelayAdded json aead s.client s.relay tag →
          RelayTombstoned json aead s.client s.relay tag)

instance decidableGuard {T : Type} (s : Uploader T) : ∀ a, Decidable (s.Guard a)
  | .add _ _ tag => inferInstanceAs (Decidable (tag ∉ s.drawn))
  | .remove _ _ | .supersede _ _ _ | .compact _ | .push _ => isTrue trivial

instance decidableKeeps {T : Type} [DecidableEq T] (json : Json (DeltaEnvelope T)) (aead : Aead)
    (s : Uploader T) (a : UploadAction T) : Decidable (s.Keeps json aead a) :=
  decidable_of_iff (∀ p ∈ a.call, s.engine.log.clock < u64Max ∧
    (s.engine.compacts p.1 p.2 = true → ∀ o ∈ (s.engine.recorded p.1 p.2).log.ops,
      s.client.ownPushWatermark < o.seq → ∀ tag ∈ o.op.observedTags,
        OnRelay json aead s.client s.relay (fun o => o.op.addedTag = some tag) →
          OnRelay json aead s.client s.relay (fun o => tag ∈ o.op.observedTags)))
    ⟨fun h env c hc => h (env, c) hc, fun h p hp => h p.1 p.2 hp⟩

/-- What the upload of tombstones rests on. A tombstoned tag is on the relay, is in the log
past the watermark, or neither its add nor anything else of it can reach the relay. -/
structure Inv {T : Type} [DecidableEq T] (json : Json (DeltaEnvelope T)) (aead : Aead)
    (s : Uploader T) : Prop where
  coherent : s.engine.Coherent
  own : ∀ o ∈ s.engine.log.ops, o.replicaId = s.engine.log.replicaId ∧
    o.seq ≤ s.engine.log.clock
  clock : s.engine.log.clock ≤ u64Max
  watermark : s.client.ownPushWatermark ≤ s.engine.log.clock
  drawn : ∀ value tag, Added s.engine.log.ops value tag → tag ∈ s.drawn
  tombstonedDrawn : ∀ tag ∈ s.tombstoned, tag ∈ s.drawn
  tombstoned : ∀ tag ∈ s.tombstoned, RelayTombstoned json aead s.client s.relay tag ∨
    (∃ o ∈ s.engine.log.ops, s.client.ownPushWatermark < o.seq ∧ tag ∈ o.op.observedTags) ∨
    (¬ RelayAdded json aead s.client s.relay tag ∧ ∀ value, ¬ Added s.engine.log.ops value tag)

end Uploader

namespace SyncEngine

/-- The recording part of a local mutation does nothing or appends one op, and the tags
that op observes are live in the log. -/
theorem recorded_local {T : Type} [DecidableEq T] {e : SyncEngine T} (h : e.Coherent)
    (env : Env T) {c : Call T} {a : UploadAction T} (hc : a.call = some (env, c)) :
    ((e.recorded env c).log = e.log ∧ e.recordedOps env c = []) ∨
      ∃ op, (e.recorded env c).log = e.log.append env op ∧
        e.recordedOps env c = [⟨e.log.replicaId, saturatingSucc e.log.clock,
          env.now (saturatingSucc e.log.clock), op⟩] ∧
        (∀ tag ∈ op.observedTags, ∃ value, e.log.replay.1.LiveTag value tag) ∧
        ∀ value tag, op = .add value tag → tag ∈ a.drawnTags := by
  have happend : ∀ op, (e.log.append env op).ops.drop e.log.ops.length =
      [⟨e.log.replicaId, saturatingSucc e.log.clock, env.now (saturatingSucc e.log.clock), op⟩] :=
    fun op => List.drop_left
  have hlive : ∀ value tag, tag ∈ e.observedTags env value →
      ∃ value, e.log.replay.1.LiveTag value tag :=
    fun value tag ht => ⟨value, (h.mem_observedTags env value tag).mp ht⟩
  cases a with
  | push nonce => simp [UploadAction.call] at hc
  | add env' value tag =>
    obtain ⟨rfl, rfl⟩ := Prod.mk.inj (Option.some.inj hc)
    refine .inr ⟨.add value tag, rfl, happend _, by simp [SyncOpKind.observedTags], ?_⟩
    intro value' tag' he
    obtain ⟨-, rfl⟩ := SyncOpKind.add.inj he
    exact List.mem_singleton_self _
  | remove env' value =>
    obtain ⟨rfl, rfl⟩ := Prod.mk.inj (Option.some.inj hc)
    simp only [recordedOps, recorded]
    split
    · rw [materialise_log]
      exact .inl ⟨rfl, List.drop_length⟩
    · simp only [recordRemove, reflect, materialise_log]
      exact .inr ⟨_, rfl, happend _, hlive value, by simp⟩
  | supersede env' value successor =>
    obtain ⟨rfl, rfl⟩ := Prod.mk.inj (Option.some.inj hc)
    simp only [recordedOps, recorded, recordSupersede, reflect, materialise_log]
    exact .inr ⟨_, rfl, happend _, hlive value, by simp⟩
  | compact env' =>
    obtain ⟨rfl, rfl⟩ := Prod.mk.inj (Option.some.inj hc)
    exact .inl ⟨rfl, List.drop_length⟩

end SyncEngine

open SyncEngine

namespace Uploader

theorem next_local {T : Type} [DecidableEq T] (json : Json (DeltaEnvelope T)) (aead : Aead)
    (s : Uploader T) {a : UploadAction T} {env : Env T} {c : Call T} (hc : a.call = some (env, c)) :
    s.next json aead a =
      { s.recordedState a.drawnTags env c with engine := s.engine.call env c } := by
  cases a with
  | push nonce => simp [UploadAction.call] at hc
  | _ =>
    obtain ⟨rfl, rfl⟩ := Prod.mk.inj (Option.some.inj hc)
    rfl

namespace Inv

theorem initial {T : Type} [DecidableEq T] (json : Json (DeltaEnvelope T)) (aead : Aead)
    (replicaId : Uuid) (policy : CompactionPolicy) (topic : TopicId) (sealKey : AeadKey) :
    Inv json aead ⟨(withReplicaId replicaId : SyncEngine T).withCompactionPolicy policy,
      SyncClient.new topic sealKey, InMemoryTransport.new, [], []⟩ where
  coherent := coherent_fromLog replicaId (OpLog.new replicaId)
  own := by
    intro o ho
    exact absurd ho List.not_mem_nil
  clock := Nat.zero_le _
  watermark := Nat.le_refl _
  drawn := by
    rintro value tag ⟨o, ho, _⟩
    exact absurd ho List.not_mem_nil
  tombstonedDrawn := by simp
  tombstoned := by simp

theorem append {T : Type} [DecidableEq T] {json : Json (DeltaEnvelope T)} {aead : Aead}
    {s : Uploader T} (h : Inv json aead s) {env : Env T} {c : Call T} {a : UploadAction T}
    (hc : a.call = some (env, c)) (hg : s.Guard a) (hlt : s.engine.log.clock < u64Max) :
    Inv json aead (s.recordedState a.drawnTags env c) := by
  have hcoh := h.coherent.recorded env c
  have hdrawn : ∀ tag ∈ a.drawnTags, tag ∉ s.drawn := by
    cases a <;> simp [UploadAction.drawnTags]
    exact hg
  rcases recorded_local h.coherent env hc with ⟨hl, ho⟩ | ⟨op, hl, ho, hobs, hadd⟩
  · refine ⟨hcoh, ?_, ?_, ?_, ?_, ?_, ?_⟩
    all_goals simp only [recordedState, hl, ho, List.flatMap_nil, List.append_nil]
    · exact h.own
    · exact h.clock
    · exact h.watermark
    · intro value tag ht
      exact List.mem_append_left _ (h.drawn value tag ht)
    · intro tag ht
      exact List.mem_append_left _ (h.tombstonedDrawn tag ht)
    · exact h.tombstoned
  · have hsucc : saturatingSucc s.engine.log.clock = s.engine.log.clock+1 :=
      saturatingSucc_of_lt hlt
    have hmem : ∀ o, o ∈ (s.engine.log.append env op).ops ↔ o ∈ s.engine.log.ops ∨
        o = ⟨s.engine.log.replicaId, s.engine.log.clock+1, env.now (s.engine.log.clock+1), op⟩ := by
      intro o
      simp [OpLog.append, hsucc]
    have hclock : (s.engine.log.append env op).clock = s.engine.log.clock+1 := hsucc
    have hwater := h.watermark
    refine ⟨hcoh, ?_, ?_, ?_, ?_, ?_, ?_⟩
    all_goals simp only [recordedState, hl, ho, hclock, hsucc, List.flatMap_cons,
      List.flatMap_nil, List.append_nil]
    · intro o hm
      rcases (hmem o).mp hm with hm | rfl
      · exact ⟨(h.own o hm).1, (h.own o hm).2.trans (Nat.le_succ _)⟩
      · exact ⟨rfl, Nat.le_refl _⟩
    · exact hlt
    · exact hwater.trans (Nat.le_succ _)
    · rintro value tag ⟨o, hm, hop⟩
      rcases (hmem o).mp hm with hm | rfl
      · exact List.mem_append_left _ (h.drawn value tag ⟨o, hm, hop⟩)
      · exact List.mem_append_right _ (hadd value tag hop)
    · intro tag ht
      rcases List.mem_append.mp ht with ht | ht
      · exact List.mem_append_left _ (h.tombstonedDrawn tag ht)
      · obtain ⟨value, hv⟩ := hobs tag ht
        exact List.mem_append_left _
          (h.drawn value tag ((OpLog.liveTag_replay _ _ _).mp hv).1)
    · intro tag ht
      rcases List.mem_append.mp ht with ht | ht
      · rcases h.tombstoned tag ht with hr | ⟨o, hm, hw, hobs'⟩ | ⟨hr, hn⟩
        · exact .inl hr
        · exact .inr (.inl ⟨o, (hmem o).mpr (.inl hm), hw, hobs'⟩)
        · refine .inr (.inr ⟨hr, ?_⟩)
          rintro value ⟨o, hm, hop⟩
          rcases (hmem o).mp hm with hm | rfl
          · exact hn value ⟨o, hm, hop⟩
          · exact hdrawn tag (hadd value tag hop) (h.tombstonedDrawn tag ht)
      · exact .inr (.inl ⟨_, (hmem _).mpr (.inr rfl), by dsimp only; omega, ht⟩)

theorem compact {T : Type} [DecidableEq T] {json : Json (DeltaEnvelope T)} {aead : Aead}
    {s : Uploader T} (h : Inv json aead s) (env : Env T)
    (hkeep : ∀ o ∈ s.engine.log.ops, s.client.ownPushWatermark < o.seq →
      ∀ tag ∈ o.op.observedTags, RelayAdded json aead s.client s.relay tag →
        RelayTombstoned json aead s.client s.relay tag) :
    Inv json aead { s with engine := (s.engine.compact env).1 } := by
  have hclock : (s.engine.log.compact env).1.clock =
      min (s.engine.log.clock+(s.engine.log.survivors env).length) u64Max :=
    OpLog.iterate_saturatingSucc _ h.clock
  have hc := h.clock
  have hw := h.watermark
  have hdead : ∀ tag, (∃ o ∈ s.engine.log.ops, tag ∈ o.op.observedTags) ∨
      (∀ value, ¬ Added s.engine.log.ops value tag) →
      ∀ value, ¬ Added (s.engine.log.compact env).1.ops value tag := by
    intro tag ht value ha
    rw [OpLog.added_compact, OpLog.liveTag_replay] at ha
    rcases ht with ht | ht
    · exact ha.2 ht
    · exact ht value ha.1
  refine ⟨coherent_compact _ env, ?_, ?_, ?_, ?_, h.tombstonedDrawn, ?_⟩
  all_goals simp only [compact_log]
  · intro o ho
    exact OpLog.stamp_bounds h.clock ho
  · omega
  · omega
  · intro value tag ha
    rw [OpLog.added_compact, OpLog.liveTag_replay] at ha
    exact h.drawn value tag ha.1
  · intro tag ht
    rcases h.tombstoned tag ht with hr | ⟨o, hm, hlt, hobs⟩ | ⟨hr, hn⟩
    · exact .inl hr
    · by_cases ha : RelayAdded json aead s.client s.relay tag
      · exact .inl (hkeep o hm hlt tag hobs ha)
      · exact .inr (.inr ⟨ha, hdead tag (.inl ⟨o, hm, hobs⟩)⟩)
    · exact .inr (.inr ⟨hr, hdead tag (.inr hn)⟩)

theorem onRelay_push {T : Type} {json : Json (DeltaEnvelope T)} {aead : Aead}
    {client : SyncClient} {relay : InMemoryTransport} {blob : SealedDelta} {d : DeltaEnvelope T}
    (hd : carried json aead client blob = some d) (watermark : Nat) (P : SyncOp T → Prop) :
    OnRelay json aead { client with ownPushWatermark := watermark }
        (relay.push client.topic [blob]).1 P ↔
      OnRelay json aead client relay P ∨ ∃ o ∈ d.ops, P o := by
  have hscope : ∀ b, carried json aead { client with ownPushWatermark := watermark } b =
      carried json aead client b := fun _ => rfl
  simp only [OnRelay, InMemoryTransport.push, Function.update_self, hscope, List.mem_append,
    List.mem_singleton]
  constructor
  · rintro ⟨b, hb | rfl, d', hd', ho⟩
    · exact .inl ⟨b, hb, d', hd', ho⟩
    · obtain rfl := Option.some.inj (hd.symm.trans hd')
      exact .inr ho
  · rintro (⟨b, hb, d', hd', ho⟩ | ho)
    · exact ⟨b, .inl hb, d', hd', ho⟩
    · exact ⟨blob, .inr rfl, d, hd, ho⟩

section

variable {T : Type} [DecidableEq T] {json : Json (DeltaEnvelope T)} {aead : Aead} {s : Uploader T}

/-- What a push does: it fails and changes nothing, or it leaves no tombstone of the log
past the watermark. -/
theorem push (h : Inv json aead s) (nonce : AeadNonce) :
    Inv json aead (s.next json aead (.push nonce)) ∧
      ((s.client.push json aead s.engine s.relay nonce).2.2.isOk = true →
        s.engine.log.clock ≤ (s.next json aead (.push nonce)).client.ownPushWatermark) := by
  have hcur : ∀ o ∈ s.engine.log.ops, s.client.ownPushWatermark < o.seq →
      o ∈ (ownDeltaSince s.engine.log s.client.ownPushWatermark).ops :=
    fun o ho hlt => (mem_ownDeltaSince _ _ _).mpr ⟨ho, (h.own o ho).1, hlt⟩
  simp only [next]
  rcases SyncClient.push_cases json aead s.client s.engine s.relay nonce with
    ⟨r, hp, hok⟩ | ⟨hnone, _, hp⟩ | ⟨blob, n, hcar, _, hp⟩
  · rw [hp]
    exact ⟨h, hok⟩
  · rw [hp]
    refine ⟨⟨h.coherent, h.own, h.clock, Nat.le_refl _, h.drawn, h.tombstonedDrawn, ?_⟩,
      fun _ => Nat.le_refl _⟩
    intro tag ht
    rcases h.tombstoned tag ht with hr | ⟨o, hm, hlt, _⟩ | hr
    · exact .inl hr
    · have := hcur o hm hlt
      simp [hnone] at this
    · exact .inr (.inr hr)
  · rw [hp]
    refine ⟨⟨h.coherent, h.own, h.clock, Nat.le_refl _, h.drawn, h.tombstonedDrawn, ?_⟩,
      fun _ => Nat.le_refl _⟩
    intro tag ht
    dsimp only [RelayTombstoned, RelayAdded]
    rw [onRelay_push hcar, onRelay_push hcar]
    rcases h.tombstoned tag ht with hr | ⟨o, hm, hlt, hobs⟩ | ⟨hr, hn⟩
    · exact .inl (.inl hr)
    · exact .inl (.inr ⟨o, hcur o hm hlt, hobs⟩)
    · refine .inr (.inr ⟨?_, hn⟩)
      rintro (hr' | ⟨o, ho, hop⟩)
      · exact hr hr'
      · obtain ⟨value, hop⟩ := SyncOpKind.addedTag_eq_some.mp hop
        exact hn value ⟨o, ((mem_ownDeltaSince _ _ _).mp ho).1, hop⟩

theorem step {a : UploadAction T} (h : Inv json aead s) (hg : s.Guard a)
    (hk : s.Keeps json aead a) : Inv json aead (s.next json aead a) := by
  cases hc : a.call with
  | none =>
    cases a with
    | push nonce => exact (h.push nonce).1
    | _ => simp [UploadAction.call] at hc
  | some p =>
    obtain ⟨env, c⟩ := p
    obtain ⟨hlt, hkeep⟩ := hk env c hc
    have hrec := h.append hc hg hlt
    rw [next_local json aead s hc, call_eq]
    by_cases hf : s.engine.compacts env c = true
    · rw [if_pos hf]
      exact hrec.compact env (hkeep hf)
    · rw [if_neg hf]
      exact hrec

theorem reachable (h : ((system json aead).restrict (Keeps json aead)).Reachable s) :
    Inv json aead s := by
  refine h.invariant (Inv json aead) ?_ ?_
  · rintro s ⟨replicaId, policy, topic, sealKey, rfl⟩
    exact initial json aead replicaId policy topic sealKey
  · rintro s a t _ hi ⟨⟨hg, rfl⟩, hk⟩
    exact hi.step hg hk

end

end Inv

end Uploader

/-- After a successful push every locally tombstoned tag whose add is on the relay is
tombstoned there, in every run in which no compaction drops an unpushed tombstone of an
uploaded add. -/
theorem push_uploads_tombstones {T : Type} [DecidableEq T] (json : Json (DeltaEnvelope T))
    (aead : Aead) (s : Uploader T)
    (h : ((system json aead).restrict (Uploader.Keeps json aead)).Reachable s)
    (nonce : AeadNonce) (uploaded : Nat)
    (hok : (s.client.push json aead s.engine s.relay nonce).2.2 = .ok uploaded) :
    ∀ tag ∈ s.tombstoned,
      Uploader.RelayAdded json aead s.client (s.next json aead (.push nonce)).relay tag →
      Uploader.RelayTombstoned json aead s.client (s.next json aead (.push nonce)).relay tag := by
  obtain ⟨hinv, hmark⟩ := (Uploader.Inv.reachable h).push nonce
  have hclient : ∃ watermark, (s.next json aead (.push nonce)).client =
      { s.client with ownPushWatermark := watermark } := by
    simp only [next]
    rcases SyncClient.push_cases json aead s.client s.engine s.relay nonce with
      ⟨r, hp, _⟩ | ⟨_, _, hp⟩ | ⟨_, _, _, _, hp⟩
    · exact ⟨s.client.ownPushWatermark, by rw [hp]⟩
    · exact ⟨_, by rw [hp]⟩
    · exact ⟨_, by rw [hp]⟩
  obtain ⟨watermark, hc⟩ := hclient
  have hm := hmark (by rw [hok]; rfl)
  intro tag ht hadded
  have hcase := hinv.tombstoned tag ht
  rw [hc] at hcase hm
  rcases hcase with hr | ⟨o, ho, hlt, _⟩ | ⟨hr, _⟩
  · exact hr
  · have hle := ((Uploader.Inv.reachable h).own o ho).2
    dsimp only at hlt hm
    omega
  · exact absurd hadded hr

/-! A replica adds 5 and removes it again. -/

namespace AddRemove

def start : Uploader Nat :=
  ⟨(SyncEngine.withReplicaId 0).withCompactionPolicy .default, SyncClient.new 0 0,
    InMemoryTransport.new, [], []⟩

def added : DeltaEnvelope Nat := ⟨0, 0, [⟨0, 1, 0, .add 5 9⟩]⟩

def addText : String :=
  "\x7b\"replica_id\":\"00000000-0000-0000-0000-000000000000\",\"seq\":1,\"created_at\":" ++
  "\"1970-01-01T00:00:00Z\",\"op\":\x7b\"kind\":\"add\",\"value\":5,\"tag\":" ++
  "\"00000000-0000-0000-0000-000000000009\"\x7d\x7d"

def addedJson : Json (DeltaEnvelope Nat) :=
  .single added ("\x7b\"compaction_epoch\":0,\"since_seq\":0,\"ops\":[" ++ addText ++ "]\x7d")

def both : DeltaEnvelope Nat := ⟨0, 0, [⟨0, 1, 0, .add 5 9⟩, ⟨0, 2, 0, .remove 5 [9]⟩]⟩

def removeText : String :=
  "\x7b\"replica_id\":\"00000000-0000-0000-0000-000000000000\",\"seq\":2,\"created_at\":" ++
  "\"1970-01-01T00:00:00Z\",\"op\":\x7b\"kind\":\"remove\",\"value\":5,\"observed_tags\":" ++
  "[\"00000000-0000-0000-0000-000000000009\"]\x7d\x7d"

def bothJson : Json (DeltaEnvelope Nat) :=
  .single both ("\x7b\"compaction_epoch\":0,\"since_seq\":0,\"ops\":[" ++ addText ++ "," ++
    removeText ++ "]\x7d")

def pushed : Uploader Nat :=
  [.add .atEpoch 5 9, .remove .atEpoch 5, .push 0, .compact .atEpoch].foldl
    (Uploader.next bothJson .tagged) start

theorem pushed_reachable : ((system bothJson .tagged).restrict
    (Uploader.Keeps bothJson .tagged)).Reachable pushed := by
  have hlegal : Legal (fun s a => Uploader.Guard s a ∧ Uploader.Keeps bothJson .tagged s a)
      (next bothJson .tagged) start
      [.add .atEpoch 5 9, .remove .atEpoch 5, .push 0, .compact .atEpoch] := by decide +kernel
  exact hlegal.reachable_restrict (.init ⟨0, .default, 0, 0, rfl⟩)

def dropped : Uploader Nat :=
  [.add .atEpoch 5 9, .push 0, .remove .atEpoch 5, .compact .atEpoch].foldl
    (Uploader.next addedJson .tagged) start

theorem dropped_reachable : (system addedJson .tagged).Reachable dropped := by
  have hlegal : Legal Uploader.Guard (next addedJson .tagged) start
      [.add .atEpoch 5 9, .push 0, .remove .atEpoch 5, .compact .atEpoch] := by decide +kernel
  exact hlegal.reachable (.init ⟨0, .default, 0, 0, rfl⟩)

end AddRemove

open AddRemove

theorem push_uploads_tombstones_pushed :
    (pushed.client.push bothJson .tagged pushed.engine
        pushed.relay 1).2.2 = .ok 0 ∧
      (9 : Uuid) ∈ pushed.tombstoned ∧
      Uploader.RelayTombstoned bothJson .tagged pushed.client
        (pushed.next bothJson .tagged (.push 1)).relay 9 := by
  have hok : (pushed.client.push bothJson .tagged pushed.engine
      pushed.relay 1).2.2 = .ok 0 := by decide +kernel
  have hmem : (9 : Uuid) ∈ pushed.tombstoned := by decide +kernel
  refine ⟨hok, hmem, ?_⟩
  refine push_uploads_tombstones _ _ _ pushed_reachable 1 0 hok 9 hmem ?_
  unfold Uploader.RelayAdded
  decide +kernel

/-- The push succeeds and the relay keeps an add whose tombstone it never gets. -/
theorem push_misses_compacted_tombstone :
    (system addedJson .tagged).Reachable dropped ∧
      (dropped.client.push addedJson .tagged dropped.engine
        dropped.relay 1).2.2 = .ok 0 ∧
      (9 : Uuid) ∈ dropped.tombstoned ∧
      Uploader.RelayAdded addedJson .tagged dropped.client
        (dropped.next addedJson .tagged (.push 1)).relay 9 ∧
      ¬ Uploader.RelayTombstoned addedJson .tagged dropped.client
        (dropped.next addedJson .tagged (.push 1)).relay 9 := by
  refine ⟨dropped_reachable, by decide +kernel, by decide +kernel, ?_, ?_⟩
  · unfold Uploader.RelayAdded
    decide +kernel
  · unfold Uploader.RelayTombstoned
    decide +kernel

end Knowledge.Sync
