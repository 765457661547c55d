import Knowledge.Inference.Salvage
import Knowledge.Lib.Hex
import Knowledge.Sync.Transport

/-!
`crates/sync_relay`: the blob store, the bearer tokens and the two handlers of the relay, with the
HTTP client of a device. The relay serves each tenant a transport of its own.
-/

set_option autoImplicit false

namespace Knowledge.Sync.Relay
open Knowledge.Machine Knowledge.Transition
open Knowledge.Inference (Text trim)

abbrev TenantId := Text

structure StoreLimits where
  maxBlobsPerTopic : Nat
  maxBlobBytes : Nat

inductive RelayError where
  | blobTooLarge (size limit : Nat)
  | quotaExceeded (limit : Nat)

structure InMemoryBlobStore where
  limits : StoreLimits
  topics : Table (TenantId × TopicId) (List SealedDelta)

open InMemoryBlobStore

namespace InMemoryBlobStore

section

variable (s : InMemoryBlobStore) (tenant : TenantId) (topic : TopicId)

def rawBlobs : List SealedDelta :=
  (s.topics.lookup (tenant, topic)).getD []

/-- The entry of the topic is made before the quota is looked at. -/
def append (blobs : List SealedDelta) : InMemoryBlobStore × Except RelayError Nat :=
  match blobs.find? fun blob => s.limits.maxBlobBytes < blob.ciphertext.length with
  | some blob => (s, .error (.blobTooLarge blob.ciphertext.length s.limits.maxBlobBytes))
  | none =>
    let entry := s.rawBlobs tenant topic
    if s.limits.maxBlobsPerTopic < min (entry.length + blobs.length) u64Max then
      ({ s with topics := s.topics.insert (tenant, topic) entry },
        .error (.quotaExceeded s.limits.maxBlobsPerTopic))
    else
      ({ s with topics := s.topics.insert (tenant, topic) (entry ++ blobs) },
        .ok (min (entry ++ blobs).length u64Max))

def readSince (since : Nat) :
    PullPage :=
  let all := s.rawBlobs tenant topic
  ⟨min all.length u64Max, all.drop (min since all.length)⟩

end

end InMemoryBlobStore

/-- `eq_ignore_ascii_case` on the scheme. -/
def bearerToken (header : Text) : Option Text :=
  match header.dropWhile fun c => c ≠ ' ' with
  | [] => none
  | _ :: credential =>
    if (header.takeWhile fun c => c ≠ ' ').map Char.toLower = "bearer".toList then
      if trim credential = [] then none else some (trim credential)
    else none

def hexBytes : Bytes → Option Bytes
  | [] => some []
  | [_] => none
  | a :: b :: rest => do
    let hi ← Hex.toDigit a
    let lo ← Hex.toDigit b
    let out ← hexBytes rest
    some (UInt8.ofNat (hi * 16 + lo) :: out)

namespace TopicId

def toHex (topic : TopicId) : Bytes := Hex.encode (Sync.TopicId.asBytes topic)

def fromHex (s : Bytes) : Option TopicId :=
  if s.length ≠ 64 then none else (hexBytes s).map fun bytes => BitVec.ofNat 256 (ofBeBytes bytes)

end TopicId

/-- `authorization` is the header, where it is there. -/
inductive Request where
  | push (topicHex : Bytes) (authorization : Option Text) (body : Bytes)
  | pull (topicHex : Bytes) (since : Nat) (authorization : Option Text)

inductive Response where
  | pushed (cursor : Nat)
  | page (page : PullPage)
  | refused (status : Nat)

structure RelayState where
  store : InMemoryBlobStore
  tokens : Table Text TenantId
  maxBodyBytes : Nat

/-- `HeaderValue::to_str` gives nothing else. -/
def toStr (header : Text) : Option Text :=
  if header.all fun c => c.toNat = 9 || 32 ≤ c.toNat && c.toNat < 127 then some header else none

def authenticate (tokens : Table Text TenantId) (authorization : Option Text) : Option TenantId :=
  ((authorization.bind toStr).bind bearerToken).bind tokens.lookup

def pushHandler (json : Json (List SealedDelta)) (state : RelayState) (topicHex : Bytes)
    (authorization : Option Text) (body : Bytes) : RelayState × Response :=
  match authenticate state.tokens authorization with
  | none => (state, .refused 401)
  | some tenant =>
    match TopicId.fromHex topicHex with
    | none => (state, .refused 400)
    | some topic =>
      match json.fromSlice body with
      | none => (state, .refused 400)
      | some blobs =>
        let out := state.store.append tenant topic blobs
        match out.2 with
        | .ok cursor => ({ state with store := out.1 }, .pushed cursor)
        | .error (.blobTooLarge _ _) => ({ state with store := out.1 }, .refused 413)
        | .error (.quotaExceeded _) => ({ state with store := out.1 }, .refused 507)

def pullHandler (state : RelayState) (topicHex : Bytes) (since : Nat)
    (authorization : Option Text) : Response :=
  match authenticate state.tokens authorization with
  | none => .refused 401
  | some tenant =>
    match TopicId.fromHex topicHex with
    | none => .refused 400
    | some topic => .page (state.store.readSince tenant topic since)

/-- A body over the limit of the router comes to no handler. -/
def handle (json : Json (List SealedDelta)) (state : RelayState) : Request → RelayState × Response
  | .push topicHex authorization body =>
    if state.maxBodyBytes < body.length then (state, .refused 413)
    else pushHandler json state topicHex authorization body
  | .pull topicHex since authorization => (state, pullHandler state topicHex since authorization)

/-- `HttpRelayTransport`, with the token it was made for. -/
structure HttpRelayTransport where
  token : Text
  deriving DecidableEq

namespace HttpRelayTransport

def authorization (t : HttpRelayTransport) : Text := "Bearer ".toList ++ t.token

def pushRequest (json : Json (List SealedDelta)) (t : HttpRelayTransport) (topic : TopicId)
    (blobs : List SealedDelta) : Option Request :=
  (json.toVec blobs).map fun body => .push (TopicId.toHex topic) (some t.authorization) body

def pullRequest (t : HttpRelayTransport) (topic : TopicId) (since : Nat) : Request :=
  .pull (TopicId.toHex topic) since (some t.authorization)

def tenant (t : HttpRelayTransport) (tokens : Table Text TenantId) : Option TenantId :=
  authenticate tokens (some t.authorization)

end HttpRelayTransport

/-- A device that follows a topic, and what it has been given. -/
structure Follower where
  transport : HttpRelayTransport
  topic : TopicId
  cursor : Nat
  received : List SealedDelta
  deriving DecidableEq

/-- The relay with the devices that follow it. `accepted` is what pushes were answered with a
cursor for, in the order of the answers. -/
structure World where
  state : RelayState
  followers : List Follower
  accepted : TenantId → TopicId → List SealedDelta

/-- Any request of anyone, a device that begins to follow a topic, or one that pulls. -/
inductive Step where
  | request (r : Request)
  | follow (transport : HttpRelayTransport) (topic : TopicId)
  | pull (i : Nat)

def uploaded (json : Json (List SealedDelta)) (tokens : Table Text TenantId) (r : Request)
    (response : Response) (tenant : TenantId) (topic : TopicId) : List SealedDelta :=
  match r, response with
  | .push topicHex authorization body, .pushed _ =>
    if authenticate tokens authorization = some tenant ∧ TopicId.fromHex topicHex = some topic then
      (json.fromSlice body).getD []
    else []
  | _, _ => []

def World.next (json : Json (List SealedDelta)) (w : World) : Step → World
  | .request r =>
    let out := handle json w.state r
    { w with
      state := out.1
      accepted := fun tenant topic =>
        w.accepted tenant topic ++ uploaded json w.state.tokens r out.2 tenant topic }
  | .follow transport topic => { w with followers := w.followers ++ [⟨transport, topic, 0, []⟩] }
  | .pull i =>
    match w.followers[i]? with
    | none => w
    | some f =>
      match (handle json w.state (f.transport.pullRequest f.topic f.cursor)).2 with
      | .page page =>
        let f := { f with cursor := page.nextCursor, received := f.received ++ page.blobs }
        { w with followers := w.followers.set i f }
      | _ => w

/-- A relay with nothing in it, whose topics hold fewer blobs than a cursor can count. -/
def Fresh (w : World) : Prop :=
  w.state.store.topics = ∅ ∧ w.followers = [] ∧ (∀ tenant topic, w.accepted tenant topic = []) ∧
    w.state.store.limits.maxBlobsPerTopic < u64Max

def system (json : Json (List SealedDelta)) : System World Step :=
  .ofNext Fresh (fun _ _ => True) (World.next json)

section Routing

theorem hexBytes_encode (bytes : Bytes) : hexBytes (Hex.encode bytes) = some bytes := by
  have hdigit : ∀ d < 16, Hex.toDigit (Hex.lowerDigit d) = some d := by decide
  induction bytes with
  | nil => rfl
  | cons b bytes ih =>
    have hb := b.toNat_lt
    rw [Hex.encode_cons, hexBytes, hdigit _ (by omega), hdigit _ (by omega), ih]
    change some (UInt8.ofNat (b.toNat / 16 * 16 + b.toNat % 16) :: bytes) = some (b :: bytes)
    rw [Nat.div_add_mod', UInt8.ofNat_toNat]

/-- The topic in the path of a device's request is the one that the device meant. -/
theorem fromHex_toHex (topic : TopicId) : TopicId.fromHex (TopicId.toHex topic) = some topic := by
  have hlength : ∀ bytes : Bytes, (Hex.encode bytes).length = 2 * bytes.length := by
    intro bytes
    induction bytes with
    | nil => rfl
    | cons b bytes ih =>
      rw [Hex.encode_cons]
      simp only [List.length_cons, ih]
      omega
  have hlen : (TopicId.toHex topic).length = 64 := by
    rw [TopicId.toHex, hlength, Sync.TopicId.asBytes, length_toBeBytes]
  rw [TopicId.fromHex, if_neg (not_not_intro hlen), TopicId.toHex, hexBytes_encode, Option.map_some,
    Sync.TopicId.asBytes, ofBeBytes_toBeBytes (by simpa using topic.isLt), BitVec.ofNat_toNat,
    BitVec.setWidth_eq]

end Routing

section Store

theorem append_cases (s : InMemoryBlobStore) (tenant : TenantId) (topic : TopicId)
    (blobs : List SealedDelta) :
    (s.append tenant topic blobs).1.limits = s.limits ∧
      ((∃ e, (s.append tenant topic blobs).2 = .error e ∧
          ∀ tenant' topic', (s.append tenant topic blobs).1.rawBlobs tenant' topic' =
            s.rawBlobs tenant' topic') ∨
        ∃ cursor, (s.append tenant topic blobs).2 = .ok cursor ∧
          min ((s.rawBlobs tenant topic).length + blobs.length) u64Max ≤
            s.limits.maxBlobsPerTopic ∧
          ∀ tenant' topic', (s.append tenant topic blobs).1.rawBlobs tenant' topic' =
            if (tenant', topic') = (tenant, topic) then s.rawBlobs tenant topic ++ blobs
            else s.rawBlobs tenant' topic') := by
  unfold append
  split
  · exact ⟨rfl, .inl ⟨_, rfl, fun _ _ => rfl⟩⟩
  · dsimp only
    split
    · refine ⟨rfl, .inl ⟨_, rfl, fun tenant' topic' => ?_⟩⟩
      simp only [rawBlobs, Table.lookup_insert_ite]
      split
      · rename_i heq
        obtain ⟨rfl, rfl⟩ := Prod.mk.inj heq
        rfl
      · rfl
    · rename_i hroom
      refine ⟨rfl, .inr ⟨_, rfl, by omega, fun tenant' topic' => ?_⟩⟩
      simp only [rawBlobs, Table.lookup_insert_ite]
      split <;> rfl

end Store

section Handling

variable {json : Json (List SealedDelta)}

section

variable (json : Json (List SealedDelta))

/-- Everything a request can do: leave the logs alone, or have the blobs of an upload added to the
log of its tenant's topic. -/
theorem handle_cases (state : RelayState) (r : Request) :
    (handle json state r).1.tokens = state.tokens ∧
      (handle json state r).1.store.limits = state.store.limits ∧
      (((∀ cursor, (handle json state r).2 ≠ .pushed cursor) ∧ ∀ tenant topic,
          (handle json state r).1.store.rawBlobs tenant topic =
            state.store.rawBlobs tenant topic) ∨
        ∃ topicHex authorization body tenant topic blobs cursor,
          r = .push topicHex authorization body ∧
          authenticate state.tokens authorization = some tenant ∧
          TopicId.fromHex topicHex = some topic ∧ json.fromSlice body = some blobs ∧
          (handle json state r).2 = .pushed cursor ∧
          min ((state.store.rawBlobs tenant topic).length + blobs.length) u64Max ≤
            state.store.limits.maxBlobsPerTopic ∧
          ∀ tenant' topic', (handle json state r).1.store.rawBlobs tenant' topic' =
            if (tenant', topic') = (tenant, topic) then state.store.rawBlobs tenant topic ++ blobs
            else state.store.rawBlobs tenant' topic') := by
  cases r with
  | pull topicHex since authorization =>
    refine ⟨rfl, rfl, .inl ⟨fun cursor => ?_, fun _ _ => rfl⟩⟩
    simp only [handle, pullHandler]
    split
    · simp
    · split <;> simp
  | push topicHex authorization body =>
    have hrefused : ∀ status, (∀ cursor, (state, Response.refused status).2 ≠ .pushed cursor) :=
      fun status cursor => by simp
    simp only [handle, pushHandler]
    split
    · exact ⟨rfl, rfl, .inl ⟨hrefused _, fun _ _ => rfl⟩⟩
    cases hauth : authenticate state.tokens authorization with
    | none => exact ⟨rfl, rfl, .inl ⟨hrefused _, fun _ _ => rfl⟩⟩
    | some tenant =>
      cases htopic : TopicId.fromHex topicHex with
      | none => exact ⟨rfl, rfl, .inl ⟨hrefused _, fun _ _ => rfl⟩⟩
      | some topic =>
        cases hbody : json.fromSlice body with
        | none => exact ⟨rfl, rfl, .inl ⟨hrefused _, fun _ _ => rfl⟩⟩
        | some blobs =>
          obtain ⟨hlimits, ⟨e, he, hsame⟩ | ⟨cursor, hok, hroom, hgrown⟩⟩ :=
            append_cases state.store tenant topic blobs
          · dsimp only
            rw [he]
            cases e <;> exact ⟨rfl, hlimits, .inl ⟨fun cursor => by simp, hsame⟩⟩
          · dsimp only
            rw [hok]
            exact ⟨rfl, hlimits, .inr ⟨topicHex, authorization, body, tenant, topic, blobs, cursor,
              rfl, hauth, htopic, hbody, rfl, hroom, hgrown⟩⟩

/-- The logs grow by what the answer says has been uploaded. -/
theorem rawBlobs_handle (state : RelayState) (r : Request) (tenant : TenantId) (topic : TopicId) :
    (handle json state r).1.store.rawBlobs tenant topic =
      state.store.rawBlobs tenant topic ++
        uploaded json state.tokens r (handle json state r).2 tenant topic := by
  obtain ⟨-, -, ⟨hno, hsame⟩ | ⟨topicHex, authorization, body, t, p, blobs, cursor, rfl, hauth,
    htopic, hbody, hanswer, -, hgrown⟩⟩ := handle_cases json state r
  · have hnone : uploaded json state.tokens r (handle json state r).2 tenant topic = [] := by
      unfold uploaded
      split
      · rename_i hpushed
        exact absurd hpushed (hno _)
      · rfl
    rw [hsame, hnone, List.append_nil]
  · rw [hgrown, hanswer, uploaded, hauth, htopic, hbody]
    by_cases heq : (tenant, topic) = (t, p)
    · obtain ⟨rfl, rfl⟩ := Prod.mk.inj heq
      simp
    · have hne : ¬(some t = some tenant ∧ some p = some topic) := by
        rintro ⟨ht, hp⟩
        exact heq (Prod.ext (Option.some.inj ht).symm (Option.some.inj hp).symm)
      rw [if_neg heq, if_neg hne, List.append_nil]

theorem length_handle {state : RelayState} (r : Request)
    (hlimit : state.store.limits.maxBlobsPerTopic < u64Max)
    (h : ∀ tenant topic, (state.store.rawBlobs tenant topic).length ≤
      state.store.limits.maxBlobsPerTopic) (tenant : TenantId) (topic : TopicId) :
    ((handle json state r).1.store.rawBlobs tenant topic).length ≤
      state.store.limits.maxBlobsPerTopic := by
  obtain ⟨-, -, ⟨-, hsame⟩ | ⟨_, _, _, t, p, blobs, _, -, -, -, -, -, hroom, hgrown⟩⟩ :=
    handle_cases json state r
  · rw [hsame]
    exact h tenant topic
  · rw [hgrown]
    split
    · rw [List.length_append]
      omega
    · exact h tenant topic

theorem handle_pull (state : RelayState) (f : Follower) :
    (handle json state (f.transport.pullRequest f.topic f.cursor)).2 =
      match f.transport.tenant state.tokens with
      | none => .refused 401
      | some tenant => .page (state.store.readSince tenant f.topic f.cursor) := by
  simp only [HttpRelayTransport.pullRequest, handle, pullHandler, fromHex_toHex,
    HttpRelayTransport.tenant]

end

end Handling

section Following

variable {json : Json (List SealedDelta)} {w : World}

/-- A device has been given the first blobs that were accepted for the topic, as many as its cursor
says. One whose token is not known has been given nothing. -/
def Follower.InStep (accepted : TenantId → TopicId → List SealedDelta)
    (tokens : Table Text TenantId) (f : Follower) : Prop :=
  match f.transport.tenant tokens with
  | none => f.received = []
  | some tenant => f.cursor ≤ (accepted tenant f.topic).length ∧
      f.received = (accepted tenant f.topic).take f.cursor

structure Inv (w : World) : Prop where
  limit : w.state.store.limits.maxBlobsPerTopic < u64Max
  bounded : ∀ tenant topic, (w.state.store.rawBlobs tenant topic).length ≤
    w.state.store.limits.maxBlobsPerTopic
  logs : ∀ tenant topic, w.state.store.rawBlobs tenant topic = w.accepted tenant topic
  inStep : ∀ f ∈ w.followers, f.InStep w.accepted w.state.tokens

theorem Follower.InStep.grow {accepted : TenantId → TopicId → List SealedDelta}
    {tokens : Table Text TenantId} {f : Follower} (h : f.InStep accepted tokens)
    (more : TenantId → TopicId → List SealedDelta) :
    f.InStep (fun tenant topic => accepted tenant topic ++ more tenant topic) tokens := by
  unfold InStep at h ⊢
  split at h
  · exact h
  · obtain ⟨hle, heq⟩ := h
    exact ⟨by rw [List.length_append]; omega, by rw [List.take_append_of_le_length hle, heq]⟩

/-- The page after the cursor of a device brings it to the end of the log. -/
theorem Inv.page (h : Inv w) {f : Follower} (hf : f ∈ w.followers) {tenant : TenantId}
    (htenant : f.transport.tenant w.state.tokens = some tenant) :
    (w.state.store.readSince tenant f.topic f.cursor).nextCursor =
        (w.accepted tenant f.topic).length ∧
      f.received ++ (w.state.store.readSince tenant f.topic f.cursor).blobs =
        w.accepted tenant f.topic := by
  have hin := h.inStep f hf
  simp only [Follower.InStep, htenant] at hin
  have hbound := h.bounded tenant f.topic
  have hlimit := h.limit
  rw [h.logs] at hbound
  simp only [readSince, h.logs]
  refine ⟨by omega, ?_⟩
  rw [hin.2, Nat.min_eq_left hin.1, List.take_append_drop]

theorem Inv.next (h : Inv w) (step : Step) : Inv (w.next json step) := by
  cases step with
  | request r =>
    obtain ⟨htokens, hlimits, -⟩ := handle_cases json w.state r
    refine ⟨?_, fun tenant topic => ?_, fun tenant topic => ?_, fun f hf => ?_⟩
    · simp only [World.next, hlimits]
      exact h.limit
    · simp only [World.next, hlimits]
      exact length_handle json r h.limit h.bounded tenant topic
    · simp only [World.next, rawBlobs_handle, h.logs]
    · simp only [World.next, htokens]
      exact (h.inStep f hf).grow _
  | follow transport topic =>
    refine ⟨h.limit, h.bounded, h.logs, fun f hf => ?_⟩
    obtain hf | hf := List.mem_append.mp hf
    · exact h.inStep f hf
    · obtain rfl := List.mem_singleton.mp hf
      unfold Follower.InStep
      split
      · rfl
      · exact ⟨Nat.zero_le _, rfl⟩
  | pull i =>
    simp only [World.next]
    cases hi : w.followers[i]? with
    | none => exact h
    | some f =>
      have hf := List.mem_of_getElem? hi
      simp only [handle_pull]
      cases htenant : f.transport.tenant w.state.tokens with
      | none => exact h
      | some tenant =>
        refine ⟨h.limit, h.bounded, h.logs, fun g hg => ?_⟩
        obtain ⟨hcursor, hreceived⟩ := h.page hf htenant
        obtain hg | rfl := List.mem_or_eq_of_mem_set hg
        · exact h.inStep g hg
        · simp only [Follower.InStep, htenant]
          rw [hcursor, hreceived, List.take_length]
          exact ⟨Nat.le_refl _, rfl⟩

theorem inv_of_reachable (h : (system json).Reachable w) : Inv w := by
  refine h.invariant Inv (fun w hw => ?_) fun w step w' _ hw hstep => ?_
  · obtain ⟨hempty, hnobody, hnothing, hlimit⟩ := hw
    have hlogs : ∀ tenant topic, w.state.store.rawBlobs tenant topic = [] := fun tenant topic => by
      simp [rawBlobs, hempty]
    exact ⟨hlimit, fun tenant topic => by simp [hlogs], fun tenant topic => by
      rw [hlogs, hnothing], fun f hf => by simp [hnobody] at hf⟩
  · rw [hstep.2]
    exact hw.next step

/-- Whatever is requested by whom, a device that follows a topic of its tenant has been given a
first part of what pushes to that topic under the tenant's tokens were accepted with, each blob once
and in that order, and its next pull gives it the rest. A device whose token is not known is given
nothing. -/
theorem relay_delivers (json : Json (List SealedDelta)) {w : World}
    (h : (system json).Reachable w) {i : Nat} {f : Follower} (hi : w.followers[i]? = some f) :
    (f.transport.tenant w.state.tokens = none → f.received = []) ∧
      ∀ tenant, f.transport.tenant w.state.tokens = some tenant →
        f.received = (w.accepted tenant f.topic).take f.cursor ∧
        ∃ g, (w.next json (.pull i)).followers[i]? = some g ∧ g.transport = f.transport ∧
          g.topic = f.topic ∧ g.received = w.accepted tenant f.topic := by
  have hinv := inv_of_reachable h
  have hf := List.mem_of_getElem? hi
  have hin := hinv.inStep f hf
  refine ⟨fun hnone => ?_, fun tenant htenant => ?_⟩
  · simpa only [Follower.InStep, hnone] using hin
  · simp only [Follower.InStep, htenant] at hin
    obtain ⟨hcursor, hreceived⟩ := hinv.page hf htenant
    have hlt : i < w.followers.length := (List.getElem?_eq_some_iff.mp hi).1
    let page := w.state.store.readSince tenant f.topic f.cursor
    let g : Follower := { f with cursor := page.nextCursor, received := f.received ++ page.blobs }
    refine ⟨hin.2, g, ?_, rfl, rfl, hreceived⟩
    simp only [World.next, hi, handle_pull, htenant]
    exact List.getElem?_set_self hlt

/-! Two tenants follow one topic, and the device of the first one pulls twice. -/

def blobText (byte : String) : String :=
  "\x7b\"nonce\":[0,0,0,0,0,0,0,0,0,0,0,0,0,0,0,0,0,0,0,0,0,0,0,0],\"ciphertext\":[" ++ byte ++
    "]\x7d"

def deltaJson : Json (List SealedDelta) :=
  .pair [⟨0, [1]⟩, ⟨0, [2]⟩] [⟨0, [3]⟩]
    ("\x7b\"blobs\":[" ++ blobText "1" ++ "," ++ blobText "2" ++ "]\x7d")
    ("\x7b\"blobs\":[" ++ blobText "3" ++ "]\x7d") (by decide +kernel)

def device : HttpRelayTransport := ⟨"s3cret".toList⟩

def stranger : HttpRelayTransport := ⟨"t0ken".toList⟩

def empty : World :=
  { state := ⟨⟨⟨10000, 1048576⟩, ∅⟩, ((∅ : Table Text TenantId).insert "s3cret".toList
      "acme".toList).insert "t0ken".toList "globex".toList, 2097152⟩
    followers := []
    accepted := fun _ _ => [] }

def pushed (transport : HttpRelayTransport) (blobs : List SealedDelta) : List Step :=
  (transport.pushRequest deltaJson 7 blobs).toList.map .request

def requested : List Step :=
  pushed device [⟨0, [1]⟩, ⟨0, [2]⟩] ++ [.follow device 7, .pull 0] ++
    pushed stranger [⟨0, [3]⟩] ++ pushed device [⟨0, [3]⟩] ++
    [.follow stranger 7, .pull 1, .pull 0]

def followed : World := requested.foldl (World.next deltaJson) empty

theorem followed_reachable : (system deltaJson).Reachable followed := by
  have hlegal : ∀ (w : World) (steps : List Step),
      Legal (fun _ _ => True) (World.next deltaJson) w steps := by
    intro w steps
    induction steps generalizing w with
    | nil => trivial
    | cons step steps ih => exact ⟨trivial, ih _⟩
  exact (hlegal _ _).reachable (.init ⟨rfl, rfl, fun _ _ => rfl, show 10000 < u64Max by decide⟩)

theorem relay_delivers_followed :
    followed.followers = [⟨device, 7, 3, [⟨0, [1]⟩, ⟨0, [2]⟩, ⟨0, [3]⟩]⟩,
        ⟨stranger, 7, 1, [⟨0, [3]⟩]⟩] ∧
      (followed.accepted "acme".toList 7).take 3 = [⟨0, [1]⟩, ⟨0, [2]⟩, ⟨0, [3]⟩] ∧
      (followed.accepted "globex".toList 7).take 1 = [⟨0, [3]⟩] := by
  have hall : followed.followers = [⟨device, 7, 3, [⟨0, [1]⟩, ⟨0, [2]⟩, ⟨0, [3]⟩]⟩,
      ⟨stranger, 7, 1, [⟨0, [3]⟩]⟩] := by decide +kernel
  have htenants : device.tenant followed.state.tokens = some "acme".toList ∧
      stranger.tenant followed.state.tokens = some "globex".toList := by decide +kernel
  have hfirst : followed.followers[0]? =
      some ⟨device, 7, 3, [⟨0, [1]⟩, ⟨0, [2]⟩, ⟨0, [3]⟩]⟩ := by
    rw [hall]
    rfl
  have hsecond : followed.followers[1]? = some ⟨stranger, 7, 1, [⟨0, [3]⟩]⟩ := by
    rw [hall]
    rfl
  have hdevice := (relay_delivers deltaJson followed_reachable hfirst).2 _ htenants.1
  have hstranger := (relay_delivers deltaJson followed_reachable hsecond).2 _ htenants.2
  dsimp only at hdevice hstranger
  exact ⟨hall, hdevice.1.symm, hstranger.1.symm⟩

end Following

end Knowledge.Sync.Relay
