import Knowledge.Sync.Engine

/-!
The delta wire format of `crates/sync_engine/src/delta.rs`, and the relay client and
in-memory relay of `transport.rs`. `serde_json` and the AEAD are parameters of which
only the documented round trip is used.
-/

set_option autoImplicit false

namespace Knowledge.Sync
open Knowledge.Machine

abbrev Bytes := List UInt8

/-- `serde_json` on one type: writing may be refused, and what was written reads back. -/
structure Json (α : Type) where
  toVec : α → Option Bytes
  fromSlice : Bytes → Option α
  fromSlice_toVec : ∀ a bytes, toVec a = some bytes → fromSlice bytes = some a

def Json.single {α : Type} [DecidableEq α] (value : α) (text : String) : Json α where
  toVec a := if a = value then some text.toUTF8.data.toList else none
  fromSlice bytes := if bytes = text.toUTF8.data.toList then some value else none
  fromSlice_toVec := by
    intro a bytes h
    split at h
    · rename_i ha
      obtain rfl := Option.some.inj h
      rw [if_pos rfl, ha]
    · simp at h

def Json.pair {α : Type} [DecidableEq α] (a b : α) (text other : String)
    (h : text.toUTF8.data.toList ≠ other.toUTF8.data.toList) : Json α where
  toVec v :=
    if v = a then some text.toUTF8.data.toList
    else if v = b then some other.toUTF8.data.toList else none
  fromSlice bytes :=
    if bytes = text.toUTF8.data.toList then some a
    else if bytes = other.toUTF8.data.toList then some b else none
  fromSlice_toVec := by
    intro v bytes hv
    split at hv
    · obtain rfl := Option.some.inj hv
      rw [if_pos rfl, ‹v = a›]
    · split at hv
      · obtain rfl := Option.some.inj hv
        rw [if_neg h.symm, if_pos rfl, ‹v = b›]
      · simp at hv

def Json.emptyDelta : Json (DeltaEnvelope Nat) :=
  .single ⟨0, 0, []⟩ "\x7b\"compaction_epoch\":0,\"since_seq\":0,\"ops\":[]\x7d"

abbrev AeadKey := BitVec 256

abbrev AeadNonce := BitVec 192

abbrev TopicId := BitVec 256

def TopicId.asBytes (topic : TopicId) : Bytes := toBeBytes 32 topic.toNat

/-- XChaCha20-Poly1305: a sealed plaintext opens under the same key, nonce and
associated data. -/
structure Aead where
  encrypt : AeadKey → AeadNonce → Bytes → Bytes → Option Bytes
  decrypt : AeadKey → AeadNonce → Bytes → Bytes → Option Bytes
  decrypt_encrypt : ∀ key nonce plaintext aad ciphertext,
    encrypt key nonce plaintext aad = some ciphertext →
      decrypt key nonce ciphertext aad = some plaintext

def Aead.tagged : Aead where
  encrypt _ _ plaintext _ := some (plaintext ++ List.replicate 16 0)
  decrypt _ _ ciphertext _ :=
    if 16 ≤ ciphertext.length then some (ciphertext.take (ciphertext.length-16)) else none
  decrypt_encrypt := by
    intro _ _ plaintext _ ciphertext h
    obtain rfl := Option.some.inj h
    simp

inductive SyncError where
  | serialisation (cause : String)
  | deltaDecode
  | compactionEpochBehind (localEpoch deltaEpoch : Nat)
  | crypto
  | persistence (cause : String)
  deriving DecidableEq

/-! ## Deltas -/

section

variable {T : Type}

def envelopeOf (log : OpLog T) (sinceSeq : Nat) (keep : SyncOp T → Bool) :
    DeltaEnvelope T := ⟨log.compactionEpoch, sinceSeq, log.ops.filter keep⟩

def deltaSince (log : OpLog T) (sinceSeq : Nat) : DeltaEnvelope T :=
  envelopeOf log sinceSeq (fun o => decide (o.replicaId ≠ log.replicaId ∨ sinceSeq < o.seq))

def ownDeltaSince (log : OpLog T) (sinceSeq : Nat) : DeltaEnvelope T :=
  envelopeOf log sinceSeq (fun o => decide (o.replicaId = log.replicaId ∧ sinceSeq < o.seq))

section

variable (json : Json (DeltaEnvelope T))

def encodeEnvelope (envelope : DeltaEnvelope T) :
    Except SyncError Bytes :=
  match json.toVec envelope with
  | some bytes => .ok bytes
  | none => .error (.serialisation "could not serialise delta envelope")

def encodeDeltaSince (log : OpLog T)
    (sinceSeq : Nat) : Except SyncError Bytes := encodeEnvelope json (deltaSince log sinceSeq)

def encodeOwnDeltaSince (log : OpLog T)
    (sinceSeq : Nat) : Except SyncError Bytes := encodeEnvelope json (ownDeltaSince log sinceSeq)

def decodeDelta (bytes : Bytes) :
    Except SyncError (DeltaEnvelope T) :=
  match json.fromSlice bytes with
  | some envelope => .ok envelope
  | none => .error .deltaDecode

end

def applyDelta [DecidableEq T] (json : Json (DeltaEnvelope T)) (e : SyncEngine T)
    (env : Env T) (delta : Bytes) : SyncEngine T × Except SyncError Nat :=
  match decodeDelta json delta with
  | .error err => (e, .error err)
  | .ok envelope =>
    if e.log.compactionEpoch < envelope.compactionEpoch then
      (e, .error (.compactionEpochBehind e.log.compactionEpoch envelope.compactionEpoch))
    else
      let merged := e.mergeDeltaEnvelope env envelope
      (merged.1, .ok merged.2)

theorem mem_deltaSince {log : OpLog T} {sinceSeq : Nat} {o : SyncOp T}
    (h : o ∈ (deltaSince log sinceSeq).ops) : o ∈ log.ops := (List.mem_filter.mp h).1

theorem mem_ownDeltaSince (log : OpLog T) (sinceSeq : Nat) (o : SyncOp T) :
    o ∈ (ownDeltaSince log sinceSeq).ops ↔
      o ∈ log.ops ∧ o.replicaId = log.replicaId ∧ sinceSeq < o.seq := by
  simp [ownDeltaSince, envelopeOf]

theorem encodeEnvelope_ok {json : Json (DeltaEnvelope T)} {envelope : DeltaEnvelope T}
    {bytes : Bytes} (h : encodeEnvelope json envelope = .ok bytes) :
    json.fromSlice bytes = some envelope := by
  unfold encodeEnvelope at h
  split at h
  · rename_i written hw
    obtain rfl := Except.ok.inj h
    exact json.fromSlice_toVec _ _ hw
  · simp at h

def deltaCalls (json : Json (DeltaEnvelope T)) (e : SyncEngine T) (env : Env T)
    (delta : Bytes) : List (Env T × Call T) :=
  match json.fromSlice delta with
  | none => []
  | some envelope =>
    if e.log.compactionEpoch < envelope.compactionEpoch then []
    else [(env, .mergeDelta envelope)]

theorem applyDelta_calls [DecidableEq T] (json : Json (DeltaEnvelope T))
    (e : SyncEngine T) (env : Env T) (delta : Bytes) :
    (applyDelta json e env delta).1 = e.calls (deltaCalls json e env delta) := by
  unfold applyDelta deltaCalls decodeDelta
  cases json.fromSlice delta with
  | none => rfl
  | some envelope =>
    dsimp only
    split <;> rfl

theorem mem_deltaCalls {json : Json (DeltaEnvelope T)} {e : SyncEngine T}
    {env : Env T} {delta : Bytes} {c : Env T × Call T} (h : c ∈ deltaCalls json e env delta) :
    ∃ envelope, json.fromSlice delta = some envelope ∧ c.2 = .mergeDelta envelope := by
  unfold deltaCalls at h
  split at h
  · simp at h
  · rename_i envelope hj
    split at h
    · simp at h
    · obtain rfl := List.mem_singleton.mp h
      exact ⟨envelope, hj, rfl⟩

end

/-! ## The relay and its client -/

structure SealedDelta where
  nonce : AeadNonce
  ciphertext : Bytes
  deriving DecidableEq

structure PullPage where
  nextCursor : Nat
  blobs : List SealedDelta

structure InMemoryTransport where
  topics : TopicId → List SealedDelta

namespace InMemoryTransport

def new : InMemoryTransport := ⟨fun _ => []⟩

def push (t : InMemoryTransport) (topic : TopicId) (blobs : List SealedDelta) :
    InMemoryTransport × Nat :=
  let entry := t.topics topic ++ blobs
  (⟨Function.update t.topics topic entry⟩, min entry.length u64Max)

def pull (t : InMemoryTransport) (topic : TopicId) (since : Nat) : PullPage :=
  let all := t.topics topic
  ⟨min all.length u64Max, all.drop (min since all.length)⟩

end InMemoryTransport

structure SyncClient where
  topic : TopicId
  sealKey : AeadKey
  ownPushWatermark : Nat
  pullCursor : Nat
  deriving DecidableEq

/-- What `pull_reporting` keeps while it walks a page, and returns in its report. -/
structure PullProgress (T : Type) where
  engine : SyncEngine T
  absorbed : Nat
  skipped : Nat
  malformed : Nat
  consumed : Nat

namespace SyncClient

def restore (topic : TopicId) (sealKey : AeadKey) (pushWatermark pullCursor : Nat) :
    SyncClient := ⟨topic, sealKey, pushWatermark, pullCursor⟩

def new (topic : TopicId) (sealKey : AeadKey) : SyncClient := restore topic sealKey 0 0

def sealBlob (aead : Aead) (client : SyncClient) (nonce : AeadNonce) (plaintext : Bytes) :
    Except SyncError SealedDelta :=
  match aead.encrypt client.sealKey nonce plaintext (TopicId.asBytes client.topic) with
  | some ciphertext => .ok ⟨nonce, ciphertext⟩
  | none => .error .crypto

def openBlob (aead : Aead) (client : SyncClient) (blob : SealedDelta) :
    Except SyncError Bytes :=
  match aead.decrypt client.sealKey blob.nonce blob.ciphertext (TopicId.asBytes client.topic) with
  | some plaintext => .ok plaintext
  | none => .error .crypto

/-- The client and the relay after a push, and the number of ops uploaded. `nonce` is
the one the seal drew. -/
def push {T : Type} (json : Json (DeltaEnvelope T)) (aead : Aead) (client : SyncClient)
    (e : SyncEngine T) (transport : InMemoryTransport) (nonce : AeadNonce) :
    SyncClient × InMemoryTransport × Except SyncError Nat :=
  let clock := e.log.clock
  if clock ≤ client.ownPushWatermark then (client, transport, .ok 0)
  else
    let ownOps := (ownDeltaSince e.log client.ownPushWatermark).ops.length
    if ownOps = 0 then ({ client with ownPushWatermark := clock }, transport, .ok 0)
    else
      match encodeOwnDeltaSince json e.log client.ownPushWatermark with
      | .error err => (client, transport, .error err)
      | .ok plaintext =>
        match client.sealBlob aead nonce plaintext with
        | .error err => (client, transport, .error err)
        | .ok blob =>
          ({ client with ownPushWatermark := clock }, (transport.push client.topic [blob]).1,
            .ok ownOps)

/-- The loop of `pull_reporting`. It stops at the first error, and what was applied
before stays applied. `envs` gives the environment of each blob by its offset. -/
def pullBlobs {T : Type} [DecidableEq T] (json : Json (DeltaEnvelope T)) (aead : Aead)
    (client : SyncClient) (envs : Nat → Env T) : PullProgress T → List SealedDelta →
    PullProgress T × Option SyncError
  | p, [] => (p, none)
  | p, blob :: blobs =>
    match client.openBlob aead blob with
    | .error .crypto =>
      pullBlobs json aead client envs
        { p with skipped := p.skipped+1, consumed := p.consumed+1 } blobs
    | .error err => (p, some err)
    | .ok plaintext =>
      let applied := applyDelta json p.engine (envs p.consumed) plaintext
      match applied.2 with
      | .ok n =>
        pullBlobs json aead client envs
          { p with engine := applied.1, absorbed := p.absorbed+n, consumed := p.consumed+1 } blobs
      | .error .deltaDecode =>
        pullBlobs json aead client envs
          { p with malformed := p.malformed+1, consumed := p.consumed+1 } blobs
      | .error err => (p, some err)

def pullReporting {T : Type} [DecidableEq T] (json : Json (DeltaEnvelope T)) (aead : Aead)
    (client : SyncClient) (e : SyncEngine T) (transport : InMemoryTransport)
    (envs : Nat → Env T) : SyncClient × SyncEngine T × Except SyncError (PullProgress T) :=
  let page := transport.pull client.topic client.pullCursor
  let walked := pullBlobs json aead client envs ⟨e, 0, 0, 0, client.pullCursor⟩ page.blobs
  match walked.2 with
  | some err => (client, walked.1.engine, .error err)
  | none =>
    ({ client with pullCursor := max page.nextCursor walked.1.consumed }, walked.1.engine,
      .ok walked.1)

end SyncClient

def carried {T : Type} (json : Json (DeltaEnvelope T)) (aead : Aead) (client : SyncClient)
    (blob : SealedDelta) : Option (DeltaEnvelope T) :=
  (aead.decrypt client.sealKey blob.nonce blob.ciphertext (TopicId.asBytes client.topic)).bind json.fromSlice

namespace SyncClient

theorem sealBlob_ok {aead : Aead} {client : SyncClient} {nonce : AeadNonce} {plaintext : Bytes}
    {blob : SealedDelta} (h : client.sealBlob aead nonce plaintext = .ok blob) :
    aead.decrypt client.sealKey blob.nonce blob.ciphertext (TopicId.asBytes client.topic) =
      some plaintext := by
  unfold sealBlob at h
  split at h
  · rename_i ciphertext hc
    obtain rfl := Except.ok.inj h
    exact aead.decrypt_encrypt _ _ _ _ _ hc
  · simp at h

/-- A push does nothing, only moves the watermark past a range without own ops, or
uploads one blob with the own ops past the watermark. -/
theorem push_cases {T : Type} (json : Json (DeltaEnvelope T)) (aead : Aead)
    (client : SyncClient) (e : SyncEngine T) (transport : InMemoryTransport) (nonce : AeadNonce) :
    (∃ r, client.push json aead e transport nonce = (client, transport, r) ∧
        (r.isOk = true → e.log.clock ≤ client.ownPushWatermark)) ∨
      ((ownDeltaSince e.log client.ownPushWatermark).ops = [] ∧
        client.ownPushWatermark < e.log.clock ∧
        client.push json aead e transport nonce =
          ({ client with ownPushWatermark := e.log.clock }, transport, .ok 0)) ∨
      ∃ blob n, carried json aead client blob =
          some (ownDeltaSince e.log client.ownPushWatermark) ∧
        client.ownPushWatermark < e.log.clock ∧
        client.push json aead e transport nonce =
          ({ client with ownPushWatermark := e.log.clock },
            (transport.push client.topic [blob]).1, .ok n) := by
  unfold push
  dsimp only
  split
  · exact .inl ⟨.ok 0, rfl, fun _ => ‹_›⟩
  · rename_i hclock
    split
    · rename_i hown
      exact .inr (.inl ⟨List.length_eq_zero_iff.mp hown, by omega, rfl⟩)
    · split
      · exact .inl ⟨_, rfl, by simp [Except.isOk, Except.toBool]⟩
      · rename_i plaintext hp
        split
        · exact .inl ⟨_, rfl, by simp [Except.isOk, Except.toBool]⟩
        · rename_i blob hb
          refine .inr (.inr ⟨blob, _, ?_, by omega, rfl⟩)
          simp [carried, sealBlob_ok hb, encodeEnvelope_ok hp]

def pullCalls {T : Type} [DecidableEq T] (json : Json (DeltaEnvelope T)) (aead : Aead)
    (client : SyncClient) (envs : Nat → Env T) : PullProgress T → List SealedDelta →
    List (Env T × Call T)
  | _, [] => []
  | p, blob :: blobs =>
    match client.openBlob aead blob with
    | .error .crypto =>
      pullCalls json aead client envs
        { p with skipped := p.skipped+1, consumed := p.consumed+1 } blobs
    | .error _ => []
    | .ok plaintext =>
      let applied := applyDelta json p.engine (envs p.consumed) plaintext
      match applied.2 with
      | .ok n =>
        deltaCalls json p.engine (envs p.consumed) plaintext ++
          pullCalls json aead client envs
            { p with engine := applied.1, absorbed := p.absorbed+n, consumed := p.consumed+1 }
            blobs
      | .error .deltaDecode =>
        pullCalls json aead client envs
          { p with malformed := p.malformed+1, consumed := p.consumed+1 } blobs
      | .error _ => []

theorem pullBlobs_calls {T : Type} [DecidableEq T] (json : Json (DeltaEnvelope T))
    (aead : Aead) (client : SyncClient) (envs : Nat → Env T) (p : PullProgress T)
    (blobs : List SealedDelta) :
    (pullBlobs json aead client envs p blobs).1.engine =
      p.engine.calls (pullCalls json aead client envs p blobs) := by
  induction blobs generalizing p with
  | nil => rfl
  | cons blob blobs ih =>
    unfold pullBlobs pullCalls
    cases client.openBlob aead blob with
    | error err =>
      cases err with
      | crypto => exact ih _
      | _ => rfl
    | ok plaintext =>
      dsimp only
      cases (applyDelta json p.engine (envs p.consumed) plaintext).2 with
      | ok n =>
        dsimp only
        rw [ih, SyncEngine.calls_append, ← applyDelta_calls]
      | error err =>
        cases err with
        | deltaDecode => exact ih _
        | _ => rfl

theorem openBlob_ok {aead : Aead} {client : SyncClient} {blob : SealedDelta}
    {plaintext : Bytes} (h : client.openBlob aead blob = .ok plaintext) :
    aead.decrypt client.sealKey blob.nonce blob.ciphertext (TopicId.asBytes client.topic) =
      some plaintext := by
  unfold openBlob at h
  split at h
  · rename_i opened ho
    obtain rfl := Except.ok.inj h
    exact ho
  · simp at h

theorem mem_pullCalls {T : Type} [DecidableEq T] {json : Json (DeltaEnvelope T)} {aead : Aead}
    {client : SyncClient} {envs : Nat → Env T} {p : PullProgress T} {blobs : List SealedDelta}
    {c : Env T × Call T} (h : c ∈ pullCalls json aead client envs p blobs) :
    ∃ blob ∈ blobs, ∃ envelope, carried json aead client blob = some envelope ∧
      c.2 = .mergeDelta envelope := by
  induction blobs generalizing p with
  | nil => simp [pullCalls] at h
  | cons blob blobs ih =>
    have lift : (∃ b ∈ blobs, ∃ envelope, carried json aead client b = some envelope ∧
        c.2 = .mergeDelta envelope) → ∃ b ∈ blob :: blobs, ∃ envelope,
        carried json aead client b = some envelope ∧ c.2 = .mergeDelta envelope := by
      rintro ⟨b, hb, d, hd⟩
      exact ⟨b, List.mem_cons_of_mem _ hb, d, hd⟩
    unfold pullCalls at h
    split at h
    · exact lift (ih h)
    · simp at h
    · rename_i plaintext ho
      dsimp only at h
      split at h
      · rcases List.mem_append.mp h with h | h
        · obtain ⟨envelope, hj, hc⟩ := mem_deltaCalls h
          exact ⟨blob, List.mem_cons_self, envelope, by simp [carried, openBlob_ok ho, hj], hc⟩
        · exact lift (ih h)
      · exact lift (ih h)
      · simp at h

section

variable {T : Type} [DecidableEq T] (json : Json (DeltaEnvelope T)) (aead : Aead)
  (client : SyncClient) (e : SyncEngine T) (transport : InMemoryTransport) (envs : Nat → Env T)

def pullReportingCalls : List (Env T × Call T) :=
  pullCalls json aead client envs ⟨e, 0, 0, 0, client.pullCursor⟩
    (transport.pull client.topic client.pullCursor).blobs

theorem pullReporting_calls :
    (client.pullReporting json aead e transport envs).2.1 =
      e.calls (client.pullReportingCalls json aead e transport envs) := by
  unfold pullReporting pullReportingCalls
  rw [← pullBlobs_calls json aead client envs ⟨e, 0, 0, 0, client.pullCursor⟩]
  dsimp only
  split <;> rfl

theorem pullReporting_client :
    ∃ cursor, (client.pullReporting json aead e transport envs).1 =
      { client with pullCursor := cursor } := by
  unfold pullReporting
  dsimp only
  split
  · exact ⟨client.pullCursor, rfl⟩
  · exact ⟨_, rfl⟩

end

end SyncClient

end Knowledge.Sync
