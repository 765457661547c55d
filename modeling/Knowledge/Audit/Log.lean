import Knowledge.Crypto.Vault
import Knowledge.Lib.Collect
import Knowledge.Lib.Machine
import Knowledge.Lib.Transition
import Knowledge.Sync.AddWinsSet

/-!
`crates/audit_service/src`: the append-only log of `log.rs` and its database of `persist.rs`, which
is opened again by whoever may have edited its rows in between. Cryptography is ideal, and JSON is
a pair of functions.
-/

set_option autoImplicit false

namespace Knowledge.AuditService
open Knowledge.Cipher
open Knowledge.Collect
open Knowledge.Machine
open Knowledge.Sync (Uuid uuidText)
open Knowledge.Transition
open Knowledge.Vault

abbrev Bytes := List UInt8

inductive JsonNumber where
  | posInt (n : Nat)
  | negInt (n : Nat)
  | float (bits : UInt64)

inductive JsonValue where
  | null
  | bool (b : Bool)
  | number (n : JsonNumber)
  | string (s : String)
  | array (elements : List JsonValue)
  | object (fields : List (String × JsonValue))

inductive AuditActionType where
  | canonicalPromotion | export | agentProposal | policyChange | memberProvisioned
  | memberRemoved | tenantLifecycle | keyDestruction | exportRendered | exportSimulated
  | agentProposalSubmitted | agentProposalPromoted | agentProposalRejected
  deriving DecidableEq

def AuditActionType.asStr : AuditActionType → String
  | canonicalPromotion => "canonical_promotion"
  | .export => "export"
  | agentProposal => "agent_proposal"
  | policyChange => "policy_change"
  | memberProvisioned => "member_provisioned"
  | memberRemoved => "member_removed"
  | tenantLifecycle => "tenant_lifecycle"
  | keyDestruction => "key_destruction"
  | exportRendered => "export_rendered"
  | exportSimulated => "export_simulated"
  | agentProposalSubmitted => "agent_proposal_submitted"
  | agentProposalPromoted => "agent_proposal_promoted"
  | agentProposalRejected => "agent_proposal_rejected"

inductive TargetType where
  | tenant | domain | channel | user | memoryObject | concept | summary | exportProfile
  | policy | key | agent

def TargetType.asStr : TargetType → String
  | tenant => "tenant"
  | domain => "domain"
  | channel => "channel"
  | user => "user"
  | memoryObject => "memory_object"
  | concept => "concept"
  | summary => "summary"
  | exportProfile => "export_profile"
  | policy => "policy"
  | key => "key"
  | agent => "agent"

structure TargetRef where
  targetType : TargetType
  targetId : Uuid

inductive Actor where
  | user (id : Uuid)
  | agent (id : Uuid)
  | system

abbrev AuditEntryId := Uuid

structure AuditEntry where
  id : AuditEntryId
  sequence : Nat
  timestamp : Int
  actor : Actor
  actionType : AuditActionType
  target : TargetRef
  scopeId : Option Uuid
  details : JsonValue

inductive AuditError where
  | persistence (message : String)
  | sqlite
  | crypto

def ofVault : VaultError → AuditError
  | .sqlite => .sqlite
  | .crypto => .crypto
  | .persistence message => .persistence message

structure AuditLog where
  entries : List AuditEntry
  nextSequence : Nat

namespace AuditLog

def new : AuditLog := ⟨[], 0⟩

def replayPersisted (self : AuditLog) (entry : AuditEntry) : Except AuditError AuditLog :=
  if entry.sequence ≠ self.nextSequence then
    .error (.persistence "replayed audit entry sequence is not contiguous with next_sequence")
  else .ok ⟨self.entries ++ [entry], saturatingSucc self.nextSequence⟩

def peekNextSequence (self : AuditLog) : Nat := self.nextSequence

end AuditLog

inductive Cell where
  | null
  | integer (n : Int)
  | real (bits : UInt64)
  | text (s : String)
  | blob (bytes : Bytes)
  deriving DecidableEq

def Cell.asInteger : Cell → Except AuditError Int
  | integer n => .ok n
  | _ => .error .sqlite

def Cell.asBlob : Cell → Except AuditError Bytes
  | blob bytes => .ok bytes
  | _ => .error .sqlite

def aeadNonceLen : Nat := 24

abbrev AeadNonce := Bytes

abbrev Ciphertext (Text : Type) := Sealed DerivedKey AeadNonce Bytes Text

structure Labels where
  actionType : Cell
  actorType : Cell
  actorId : Cell
  targetType : Cell
  targetId : Cell
  scopeId : Cell
  createdAt : Cell

/-- A row of `audit_log`. The payload is missing where its column is no blob. -/
structure Row (Text : Type) where
  id : Cell
  sequence : Cell
  labels : Labels
  nonce : Cell
  payload : Option (Ciphertext Text)

/-- `serde_json`: how an entry is written, and what is read from a text. -/
structure Json (Text : Type) where
  toVec : AuditEntry → Option Text
  fromSlice : Text → Option AuditEntry

def uuidBytes (id : Uuid) : Bytes := toBeBytes 16 id.toNat

def actorTags : Actor → String × String
  | .user id => ("user", uuidText id)
  | .agent id => ("agent", uuidText id)
  | .system => ("system", "")

def i64ToLe (n : Int) : Bytes := toLeBytes 8 (n % 18446744073709551616).toNat

def entryAad (id : Uuid) (sequence : Int) : Bytes :=
  "audit_entry:v1:".toUTF8.data.toList ++ uuidBytes id ++ i64ToLe sequence

def seqToI64 (seq : Nat) : Except AuditError Int :=
  if i64Max < seq then
    .error (.persistence "audit-log sequence overflows i64 — refusing to persist")
  else .ok seq

def i64ToSeq (seq : Int) : Except AuditError Nat :=
  if seq < 0 then
    .error (.persistence "audit-log sequence column is negative — refusing to load")
  else .ok seq.toNat

def sliceToUuid (b : Bytes) : Except AuditError Uuid :=
  if b.length ≠ 16 then .error (.persistence "uuid column has wrong width")
  else .ok (BitVec.ofNat 128 (ofBeBytes b))

def sliceToNonce (b : Bytes) : Except AuditError AeadNonce :=
  if b.length ≠ aeadNonceLen then .error (.persistence "nonce column has wrong width")
  else .ok b

def decryptAead {Text : Type} (key : DerivedKey) (nonce : AeadNonce) (ct : Ciphertext Text)
    (aad : Bytes) : Except AuditError Text :=
  if ct.nonce ≠ nonce then .error .crypto
  else
    match ct.openWith key aad with
    | none => .error .crypto
    | some text => .ok text

def pageContext : String := "sqlcipher:audit:v1"

def payloadContext : String := "audit_entry:v1"

section Persist

variable {Text : Type} (json : Json Text)

def entryRow (key : DerivedKey) (entry : AuditEntry) (sequence : Int) (nonce : AeadNonce)
    (text : Text) : Row Text where
  id := .blob (uuidBytes entry.id)
  sequence := .integer sequence
  labels :=
    { actionType := .text entry.actionType.asStr
      actorType := .text (actorTags entry.actor).1
      actorId := .text (actorTags entry.actor).2
      targetType := .text entry.target.targetType.asStr
      targetId := .text (uuidText entry.target.targetId)
      scopeId := match entry.scopeId with
        | none => .null
        | some scope => .blob (uuidBytes scope)
      createdAt := .integer (entry.timestamp / 1000000) }
  nonce := .blob nonce
  payload := some ⟨key, nonce, entryAad entry.id sequence, text⟩

/-- The primary key and `UNIQUE` on the sequence. -/
def conflicts (rows : List (Row Text)) (row : Row Text) : Bool :=
  rows.any fun r => r.id = row.id || r.sequence = row.sequence

structure PersistentAuditLog (Text : Type) where
  log : AuditLog
  conn : DbFile (List (Row Text))
  payloadKey : DerivedKey
  masterKey : MasterKey

/-- What an append draws, and whether its encryption or its statement fails. -/
structure AppendEnv where
  nonce : {bytes : AeadNonce // bytes.length = aeadNonceLen}
  encryptFails : Bool
  executeFails : Bool

namespace PersistentAuditLog

def persist (self : PersistentAuditLog Text) (entry : AuditEntry) (env : AppendEnv) :
    Except AuditError (DbFile (List (Row Text))) :=
  match json.toVec entry with
  | none => .error (.persistence "audit entry payload could not be serialised")
  | some text =>
    match seqToI64 entry.sequence with
    | .error err => .error err
    | .ok sequence =>
      if env.encryptFails then .error .crypto
      else
        let row := entryRow self.payloadKey entry sequence env.nonce text
        if env.executeFails || conflicts self.conn.rows row then .error .sqlite
        else .ok { self.conn with rows := self.conn.rows ++ [row] }

def append (self : PersistentAuditLog Text) (entry : AuditEntry) (env : AppendEnv) :
    PersistentAuditLog Text × Except AuditError AuditEntryId :=
  let entry := { entry with sequence := self.log.peekNextSequence }
  match self.persist json entry env with
  | .error err => (self, .error err)
  | .ok conn =>
    match self.log.replayPersisted entry with
    | .error err => ({ self with conn }, .error err)
    | .ok log => ({ self with log, conn }, .ok entry.id)

end PersistentAuditLog

/-- Integers in their order. Where a row holds anything else the order does not matter, since no
such row is read. -/
def Cell.before : Cell → Cell → Bool
  | integer a, integer b => a ≤ b
  | _, _ => true

def orderedRows (rows : List (Row Text)) : List (Row Text) :=
  rows.insertionSort fun a b => a.sequence.before b.sequence

def readRow (row : Row Text) : Except AuditError (Uuid × Int × AeadNonce × Ciphertext Text) := do
  let idBytes ← row.id.asBlob
  let sequence ← row.sequence.asInteger
  let nonceBytes ← row.nonce.asBlob
  match row.payload with
  | none => .error .sqlite
  | some ct => return (← sliceToUuid idBytes, sequence, ← sliceToNonce nonceBytes, ct)

def decodeRow (key : DerivedKey) : Uuid × Int × AeadNonce × Ciphertext Text →
    Except AuditError AuditEntry
  | (id, sequence, nonce, ct) => do
    let text ← decryptAead key nonce ct (entryAad id sequence)
    match json.fromSlice text with
    | none => .error (.persistence "audit entry payload is not valid JSON")
    | some entry =>
      if entry.id ≠ id then
        .error (.persistence "audit entry id/sequence does not match its row")
      else if (← i64ToSeq sequence) ≠ entry.sequence then
        .error (.persistence "audit entry id/sequence does not match its row")
      else return entry

def replayRows (key : DerivedKey) : AuditLog → List (Uuid × Int × AeadNonce × Ciphertext Text) →
    Except AuditError AuditLog
  | log, [] => .ok log
  | log, row :: rest => do
    let entry ← decodeRow json key row
    let log ← log.replayPersisted entry
    replayRows key log rest

def loadAll (rows : List (Row Text)) (key : DerivedKey) (queryFails : Bool) :
    Except AuditError AuditLog := do
  if queryFails then throw .sqlite
  let read ← (orderedRows rows).mapM readRow
  replayRows json key .new read

namespace PersistentAuditLog

def emptyFile : DbFile (List (Row Text)) := ⟨none, 0, []⟩

/-- The file it leaves, and the log that holds it when it opened. -/
def «open» (file : Option (DbFile (List (Row Text)))) (masterKey : MasterKey) (fault : OpenFault)
    (queryFails : Bool) :
    DbFile (List (Row Text)) × Except AuditError (PersistentAuditLog Text) :=
  match (file.getD emptyFile).unlock (deriveKey masterKey pageContext) fault with
  | (file, .error err) => (file, .error (ofVault err))
  | (file, .ok ()) =>
    let payloadKey := deriveKey masterKey payloadContext
    match loadAll json file.rows payloadKey queryFails with
    | .error err => (file, .error err)
    | .ok log => (file, .ok ⟨log, file, payloadKey, masterKey⟩)

end PersistentAuditLog

/-- The process and the entries that were appended, as they were stamped. -/
structure World (Text : Type) where
  process : Process (List (Row Text)) (PersistentAuditLog Text)
  appended : List AuditEntry

inductive Event where
  | append (entry : AuditEntry) (env : AppendEnv)
  | close
  | «open» (fault : OpenFault) (queryFails : Bool)

namespace World

def file (w : World Text) : DbFile (List (Row Text)) :=
  match w.process with
  | .closed file => file.getD PersistentAuditLog.emptyFile
  | .opened p => p.conn

def next (masterKey : MasterKey) (w : World Text) : Event → World Text
  | .append entry env =>
    match w.process with
    | .closed _ => w
    | .opened p =>
      match p.append json entry env with
      | (q, .error _) => { w with process := .opened q }
      | (q, .ok _) =>
        ⟨.opened q, w.appended ++ [{ entry with sequence := p.log.peekNextSequence }]⟩
  | .close =>
    match w.process with
    | .closed _ => w
    | .opened p => { w with process := .closed (some p.conn) }
  | .open fault queryFails =>
    match w.process with
    | .opened _ => w
    | .closed file =>
      match PersistentAuditLog.open json file masterKey fault queryFails with
      | (file, .error _) => { w with process := .closed (some file) }
      | (_, .ok p) => { w with process := .opened p }

end World

def system (masterKey : MasterKey) : System (World Text) Event :=
  .ofNext (· = ⟨.closed none, []⟩) (fun _ _ => True) (World.next json masterKey)

/-- What the entry is written as is read as the entry. -/
def ReadsBack (entry : AuditEntry) : Prop :=
  ∀ text, json.toVec entry = some text → json.fromSlice text = some entry

/-- Neither the sequence, nor the id, nor the encryption, nor the statement stops the append. -/
def Accepts (p : PersistentAuditLog Text) (entry : AuditEntry) (env : AppendEnv) : Prop :=
  p.log.nextSequence ≤ i64Max ∧ (∀ old ∈ p.log.entries, old.id ≠ entry.id) ∧
    env.encryptFails = false ∧ env.executeFails = false

def Lands (w : World Text) : Event → Prop
  | .append entry env => ∀ p, w.process = .opened p → Accepts p entry env →
    ReadsBack json { entry with sequence := p.log.nextSequence }
  | .close | .open _ _ => True

/-- Without the payload key no ciphertext is made that opens under it: those that do are among
the ones of the rows. Everything else of the file is free. -/
def Forgeable (key : DerivedKey) (rows tampered : List (Row Text)) : Prop :=
  ∀ row ∈ tampered, ∀ ct, row.payload = some ct → ct.key = key →
    ∃ honest ∈ rows, honest.payload = some ct

def TamperEvident (masterKey : MasterKey) (w : World Text) : Prop :=
  ∀ (tampered : DbFile (List (Row Text))) (fault : OpenFault) (queryFails : Bool)
    (left : DbFile (List (Row Text))) (q : PersistentAuditLog Text),
    Forgeable (deriveKey masterKey payloadContext) w.file.rows tampered.rows →
    PersistentAuditLog.open json (some tampered) masterKey fault queryFails = (left, .ok q) →
    q.log.entries <+: w.appended ∧
      ∀ (i : Nat) (entry : AuditEntry), q.log.entries[i]? = some entry → entry.sequence = i

def Complete (masterKey : MasterKey) (w : World Text) : Prop :=
  (∃ left q, PersistentAuditLog.open json (some w.file) masterKey .none false = (left, .ok q) ∧
    q.log.entries = w.appended ∧ q.log.nextSequence = w.appended.length) ∧
  ∀ p, w.process = .opened p → p.log = ⟨w.appended, w.appended.length⟩

section Proofs

variable {json} {key : DerivedKey}

def RowOf (json : Json Text) (key : DerivedKey) (row : Row Text) (entry : AuditEntry) : Prop :=
  ∃ nonce text, nonce.length = aeadNonceLen ∧ json.toVec entry = some text ∧
    row = entryRow key entry entry.sequence nonce text

def BoundOf (json : Json Text) (key : DerivedKey)
    (bound : Uuid × Int × AeadNonce × Ciphertext Text) (entry : AuditEntry) : Prop :=
  ∃ nonce text, json.toVec entry = some text ∧
    bound = (entry.id, (entry.sequence : Int), nonce,
      ⟨key, nonce, entryAad entry.id entry.sequence, text⟩)

theorem sliceToUuid_uuidBytes (id : Uuid) : sliceToUuid (uuidBytes id) = .ok id := by
  have hlen : (uuidBytes id).length = 16 := by
    rw [uuidBytes, toBeBytes, List.length_reverse, length_toLeBytes]
  have hread : ofBeBytes (uuidBytes id) = id.toNat := ofBeBytes_toBeBytes id.isLt
  simp [sliceToUuid, hlen, hread]

theorem RowOf.read {row : Row Text} {entry : AuditEntry} (h : RowOf json key row entry) :
    ∃ bound, readRow row = .ok bound ∧ BoundOf json key bound entry := by
  obtain ⟨nonce, text, hlen, htext, rfl⟩ := h
  refine ⟨_, ?_, nonce, text, htext, rfl⟩
  have hnonce : sliceToNonce nonce = .ok nonce := by simp [sliceToNonce, hlen]
  simp only [readRow, entryRow, Cell.asBlob, Cell.asInteger, bind, Except.bind,
    sliceToUuid_uuidBytes, hnonce]
  rfl

theorem readRows {rows : List (Row Text)} {entries : List AuditEntry}
    (h : List.Forall₂ (RowOf json key) rows entries) :
    ∃ read, rows.mapM readRow = .ok read ∧ List.Forall₂ (BoundOf json key) read entries := by
  induction h with
  | nil => exact ⟨[], rfl, .nil⟩
  | cons hrow _ ih =>
    obtain ⟨bound, hread, hbound⟩ := hrow.read
    obtain ⟨read, hreads, hall⟩ := ih
    refine ⟨bound :: read, ?_, .cons hbound hall⟩
    rw [List.mapM_cons, hread, hreads]
    rfl

theorem readRow_payload {row : Row Text} {id : Uuid} {sequence : Int} {nonce : AeadNonce}
    {ct : Ciphertext Text} (h : readRow row = .ok (id, sequence, nonce, ct)) :
    row.payload = some ct := by
  cases hpayload : row.payload with
  | none =>
    simp only [readRow, bind, Except.bind, hpayload] at h
    repeat' split at h
    all_goals cases h
  | some found =>
    simp only [readRow, bind, Except.bind, hpayload] at h
    repeat' split at h
    all_goals cases h
    rfl

theorem decodeRow_ok {id : Uuid} {sequence : Int} {nonce : AeadNonce} {ct : Ciphertext Text}
    {entry : AuditEntry} (h : decodeRow json key (id, sequence, nonce, ct) = .ok entry) :
    ∃ text, ct.openWith key (entryAad id sequence) = some text ∧
      json.fromSlice text = some entry := by
  simp only [decodeRow, decryptAead, bind, Except.bind] at h
  by_cases hnonce : ct.nonce ≠ nonce
  · rw [if_pos hnonce] at h
    cases h
  rw [if_neg hnonce] at h
  cases hopen : ct.openWith key (entryAad id sequence) with
  | none =>
    rw [hopen] at h
    cases h
  | some text =>
    rw [hopen] at h
    dsimp only at h
    cases hjson : json.fromSlice text with
    | none =>
      rw [hjson] at h
      cases h
    | some found =>
      rw [hjson] at h
      dsimp only at h
      refine ⟨text, rfl, ?_⟩
      split at h
      · cases h
      · split at h
        · cases h
        · split at h
          · cases h
          · rw [hjson, Except.ok.inj h]

section

variable {bound : Uuid × Int × AeadNonce × Ciphertext Text}

theorem BoundOf.decode {entry found : AuditEntry}
    (h : BoundOf json key bound entry) (hd : decodeRow json key bound = .ok found) :
    ∃ text, json.toVec entry = some text ∧ json.fromSlice text = some found := by
  obtain ⟨nonce, text, htext, rfl⟩ := h
  obtain ⟨text', hopen, hjson⟩ := decodeRow_ok hd
  rw [Sealed.openWith_mk] at hopen
  exact ⟨text, htext, Option.some.inj hopen ▸ hjson⟩

theorem BoundOf.decode_of_readsBack {entry : AuditEntry} (h : BoundOf json key bound entry) (hr : ReadsBack json entry) :
    decodeRow json key bound = .ok entry := by
  obtain ⟨nonce, text, htext, rfl⟩ := h
  have hseq : i64ToSeq (entry.sequence : Int) = .ok entry.sequence := by
    simp [i64ToSeq]
  simp [decodeRow, decryptAead, hr text htext, hseq, bind, Except.bind, pure, Except.pure]

theorem replayRows_cons {bounds : List (Uuid × Int × AeadNonce × Ciphertext Text)} {log result : AuditLog}
    (h : replayRows json key log (bound :: bounds) = .ok result) :
    ∃ found, decodeRow json key bound = .ok found ∧ found.sequence = log.nextSequence ∧
      replayRows json key ⟨log.entries ++ [found], saturatingSucc log.nextSequence⟩ bounds =
        .ok result := by
  simp only [replayRows, bind, Except.bind, AuditLog.replayPersisted] at h
  split at h
  · cases h
  · rename_i found hdecode
    by_cases hseq : found.sequence = log.nextSequence
    · rw [if_neg (not_not.mpr hseq)] at h
      exact ⟨found, hdecode, hseq, h⟩
    · rw [if_pos hseq] at h
      cases h

end

theorem replay_prefix {bounds : List (Uuid × Int × AeadNonce × Ciphertext Text)}
    {log result : AuditLog} (h : replayRows json key log bounds = .ok result) :
    log.entries <+: result.entries := by
  induction bounds generalizing log with
  | nil =>
    obtain rfl := Except.ok.inj h
    exact List.prefix_refl _
  | cons bound bounds ih =>
    obtain ⟨found, -, -, hrest⟩ := replayRows_cons h
    exact (List.prefix_append _ _).trans (ih hrest)

theorem replayPersisted_ok (log : AuditLog) {entry : AuditEntry}
    (hseq : entry.sequence = log.nextSequence) (hlt : log.nextSequence < u64Max) :
    log.replayPersisted entry = .ok ⟨log.entries ++ [entry], log.nextSequence + 1⟩ := by
  simp [AuditLog.replayPersisted, hseq, saturatingSucc_of_lt hlt]

theorem replay_iff {bounds : List (Uuid × Int × AeadNonce × Ciphertext Text)}
    {entries : List AuditEntry} (h : List.Forall₂ (BoundOf json key) bounds entries)
    (front : List AuditEntry) (hseq : ∀ (i : Nat) (entry : AuditEntry), entries[i]? = some entry →
      entry.sequence = front.length + i) (hlen : front.length + entries.length ≤ u64Max) :
    (∃ log, replayRows json key ⟨front, front.length⟩ bounds = .ok log ∧
        log.entries = front ++ entries ∧ log.nextSequence = front.length + entries.length) ↔
      ∀ entry ∈ entries, ReadsBack json entry := by
  induction h generalizing front with
  | nil => simpa using ⟨_, rfl, rfl, rfl⟩
  | @cons bound entry bounds entries hbound _ ih =>
    rw [List.length_cons] at hlen
    have hfirst : entry.sequence = front.length := hseq 0 entry rfl
    have hrest : ∀ i e, entries[i]? = some e → e.sequence = (front ++ [entry]).length + i := by
      intro i e he
      have hi := hseq (i+1) e he
      rw [List.length_append, List.length_singleton]
      omega
    have hstep : ∀ log, decodeRow json key bound = .ok entry →
        (replayRows json key ⟨front, front.length⟩ (bound :: bounds) = .ok log ↔
          replayRows json key ⟨front ++ [entry], (front ++ [entry]).length⟩ bounds = .ok log) := by
      intro log hdecode
      have hreplay := replayPersisted_ok ⟨front, front.length⟩ hfirst (by
        dsimp only
        omega)
      simp only [replayRows, bind, Except.bind, hdecode, hreplay, List.length_append,
        List.length_singleton]
    have hih := ih (front ++ [entry]) hrest (by
      rw [List.length_append, List.length_singleton]
      omega)
    rw [List.forall_mem_cons]
    constructor
    · rintro ⟨log, hlog, hentries, hnext⟩
      obtain ⟨found, hdecode, -, hafter⟩ := replayRows_cons hlog
      obtain ⟨text, htext, hread⟩ := hbound.decode hdecode
      have hsame : found = entry := by
        obtain ⟨rest, hrest⟩ := replay_prefix hafter
        rw [hentries, List.append_assoc, List.append_cancel_left_eq] at hrest
        exact (List.cons.inj hrest).1
      subst hsame
      refine ⟨fun t ht => ?_, hih.mp ⟨log, (hstep log hdecode).mp hlog, ?_, ?_⟩⟩
      · rw [htext] at ht
        obtain rfl := Option.some.inj ht
        exact hread
      · simpa using hentries
      · simp only [List.length_append, List.length_cons, List.length_nil] at hnext ⊢
        omega
    · rintro ⟨hback, hall⟩
      obtain ⟨log, hlog, hentries, hnext⟩ := hih.mpr hall
      refine ⟨log, (hstep log (hbound.decode_of_readsBack hback)).mpr hlog, ?_, ?_⟩
      · simpa using hentries
      · simp only [List.length_append, List.length_cons, List.length_nil] at hnext ⊢
        omega

theorem replay_take {appended : List AuditEntry}
    (hseq : ∀ (i : Nat) (entry : AuditEntry), appended[i]? = some entry → entry.sequence = i)
    (hlen : appended.length ≤ u64Max) {bounds : List (Uuid × Int × AeadNonce × Ciphertext Text)}
    (hknown : ∀ bound ∈ bounds, ∀ entry, decodeRow json key bound = .ok entry → entry ∈ appended)
    {n : Nat} (hn : n ≤ appended.length) {result : AuditLog}
    (h : replayRows json key ⟨appended.take n, n⟩ bounds = .ok result) :
    result.entries <+: appended := by
  induction bounds generalizing n with
  | nil =>
    obtain rfl := Except.ok.inj h
    exact List.take_prefix n appended
  | cons bound bounds ih =>
    obtain ⟨found, hdecode, hfit, hrest⟩ := replayRows_cons h
    obtain ⟨i, hi, hget⟩ := List.mem_iff_getElem.mp
      (hknown bound List.mem_cons_self found hdecode)
    have hindex : found.sequence = i :=
      hseq i found (by rw [← hget]; exact List.getElem?_eq_getElem hi)
    obtain rfl : i = n := hindex.symm.trans hfit
    have htake : appended.take i ++ [found] = appended.take (i+1) := by
      rw [← hget, List.take_concat_get' appended i hi]
    have hlt : i < u64Max := by omega
    dsimp only at hrest
    rw [htake, saturatingSucc_of_lt hlt] at hrest
    exact ih (fun b hb => hknown b (List.mem_cons_of_mem _ hb)) hi hrest

structure Backed (json : Json Text) (key : DerivedKey) (rows : List (Row Text))
    (appended : List AuditEntry) : Prop where
  rows : List.Forall₂ (RowOf json key) rows appended
  seqs : ∀ (i : Nat) (entry : AuditEntry), appended[i]? = some entry → entry.sequence = i
  bound : appended.length ≤ i64Max + 1

section Rows

variable {rows : List (Row Text)} {appended : List AuditEntry}

theorem Backed.length_le (h : Backed json key rows appended) : appended.length ≤ u64Max := by
  have hbound := h.bound
  simp only [i64Max, u64Max] at *
  omega

theorem Backed.ordered (h : Backed json key rows appended) : orderedRows rows = rows := by
  refine List.Pairwise.insertionSort_eq (List.pairwise_iff_getElem.mpr fun i j hi hj hij => ?_)
  have hlen := h.rows.length_eq
  have hat : ∀ k (hk : k < rows.length), rows[k].sequence = .integer k := by
    intro k hk
    have hk' : k < appended.length := hlen ▸ hk
    obtain ⟨nonce, text, -, -, hrow⟩ := h.rows.get hk hk'
    have hseq := h.seqs k appended[k] (List.getElem?_eq_getElem hk')
    simp only [List.get_eq_getElem] at hrow
    rw [hrow, entryRow, hseq]
  rw [hat i hi, hat j hj]
  simp only [Cell.before, decide_eq_true_eq]
  omega

theorem Backed.load_iff (h : Backed json key rows appended) :
    (∃ log, loadAll json rows key false = .ok log ∧ log.entries = appended ∧
        log.nextSequence = appended.length) ↔ ∀ entry ∈ appended, ReadsBack json entry := by
  obtain ⟨read, hread, hall⟩ := readRows h.rows
  have hreplay := replay_iff hall [] (by simpa using h.seqs) (by simpa using h.length_le)
  have hload : loadAll json rows key false = replayRows json key .new read := by
    simp [loadAll, h.ordered, hread, bind, Except.bind]
  rw [hload]
  simpa [AuditLog.new] using hreplay

theorem Backed.known (h : Backed json key rows appended)
    (hback : ∀ entry ∈ appended, ReadsBack json entry) {tampered : List (Row Text)}
    (hforge : Forgeable key rows tampered) {row : Row Text} (hrow : row ∈ tampered)
    {bound : Uuid × Int × AeadNonce × Ciphertext Text} (hread : readRow row = .ok bound)
    {entry : AuditEntry} (hdecode : decodeRow json key bound = .ok entry) : entry ∈ appended := by
  obtain ⟨id, sequence, nonce, ct⟩ := bound
  have hct := readRow_payload hread
  obtain ⟨text, hopen, hjson⟩ := decodeRow_ok hdecode
  obtain ⟨hkey, -, hplain⟩ := Sealed.openWith_eq_some.mp hopen
  obtain ⟨honest, hmem, hpayload⟩ := hforge row hrow ct hct hkey
  obtain ⟨i, hi, hget⟩ := List.mem_iff_getElem.mp hmem
  have hi' : i < appended.length := h.rows.length_eq ▸ hi
  obtain ⟨nonce', text', -, htext, hrow'⟩ := h.rows.get hi hi'
  simp only [List.get_eq_getElem] at hrow'
  rw [hget] at hrow'
  rw [hrow', entryRow] at hpayload
  have hplain' : text' = text := by
    rw [← hplain, ← Option.some.inj hpayload]
  have hmem' := List.getElem_mem hi'
  have hsame := hback _ hmem' text' htext
  rw [hplain', hjson] at hsame
  rw [Option.some.inj hsame]
  exact hmem'

end Rows

/-- What every state of a run is like: the rows are those of the appended entries, and an open
log has these in its memory. -/
structure Sound (json : Json Text) (masterKey : MasterKey) (w : World Text) : Prop where
  own : w.file.Own (deriveKey masterKey pageContext)
  rows : Backed json (deriveKey masterKey payloadContext) w.file.rows w.appended
  opened : ∀ p, w.process = .opened p → p.masterKey = masterKey ∧
    p.payloadKey = deriveKey masterKey payloadContext ∧
    p.log = ⟨w.appended, w.appended.length⟩

variable {masterKey : MasterKey} {w : World Text}

theorem Sound.complete_iff (h : Sound json masterKey w) :
    Complete json masterKey w ↔ ∀ entry ∈ w.appended, ReadsBack json entry := by
  rw [← h.rows.load_iff]
  have hunlock := h.own.unlock_ok
  constructor
  · rintro ⟨⟨left, q, hopen, hentries, hnext⟩, -⟩
    simp only [PersistentAuditLog.open, Option.getD_some, hunlock] at hopen
    cases hload : loadAll json w.file.rows (deriveKey masterKey payloadContext) false with
    | error err => simp [hload] at hopen
    | ok log =>
      simp only [hload, Prod.mk.injEq, Except.ok.injEq] at hopen
      obtain ⟨-, rfl⟩ := hopen
      exact ⟨log, rfl, hentries, hnext⟩
  · rintro ⟨log, hload, hentries, hnext⟩
    let left : DbFile (List (Row Text)) :=
      ⟨some (deriveKey masterKey pageContext), schemaVersion, w.file.rows⟩
    refine ⟨⟨left, ⟨log, left, deriveKey masterKey payloadContext, masterKey⟩, ?_, hentries, hnext⟩,
      fun p hp => (h.opened p hp).2.2⟩
    simp only [PersistentAuditLog.open, Option.getD_some, hunlock, hload, left]

theorem Sound.tamperEvident (h : Sound json masterKey w)
    (hback : ∀ entry ∈ w.appended, ReadsBack json entry) : TamperEvident json masterKey w := by
  intro tampered fault queryFails left q hforge hopen
  have hfront : q.log.entries <+: w.appended := by
    simp only [PersistentAuditLog.open, Option.getD_some] at hopen
    rcases hu : tampered.unlock (deriveKey masterKey pageContext) fault with ⟨file, reply⟩
    have hrows := tampered.unlock_rows (deriveKey masterKey pageContext) fault
    rw [hu] at hopen hrows
    cases reply with
    | error err => cases (Prod.mk.inj hopen).2
    | ok _ =>
      dsimp only at hopen hrows
      cases hload : loadAll json file.rows (deriveKey masterKey payloadContext) queryFails with
      | error err =>
        rw [hload] at hopen
        cases (Prod.mk.inj hopen).2
      | ok log =>
        rw [hload] at hopen
        obtain rfl := Except.ok.inj (Prod.mk.inj hopen).2
        rw [hrows] at hload
        cases queryFails with
        | true => cases hload
        | false =>
          simp only [loadAll, bind, Except.bind, Bool.false_eq_true, if_false] at hload
          cases hread : (orderedRows tampered.rows).mapM readRow with
          | error err =>
            rw [hread] at hload
            cases hload
          | ok read =>
            rw [hread] at hload
            refine replay_take h.rows.seqs h.rows.length_le ?_ (Nat.zero_le _) hload
            intro bound hbound entry hdecode
            obtain ⟨row, hrow, hbound⟩ := exists_left (mapM_ok_iff.mp hread) hbound
            rw [orderedRows, (List.perm_insertionSort _ _).mem_iff] at hrow
            exact h.rows.known hback hforge hrow hbound hdecode
  refine ⟨hfront, fun i entry hi => h.rows.seqs i entry ?_⟩
  obtain ⟨hlt, rfl⟩ := List.getElem?_eq_some_iff.mp hi
  rw [hfront.getElem hlt]
  exact List.getElem?_eq_getElem _

theorem uuidBytes_injective : Function.Injective uuidBytes := by
  intro a b h
  have hread : sliceToUuid (uuidBytes a) = sliceToUuid (uuidBytes b) := congrArg _ h
  rw [sliceToUuid_uuidBytes, sliceToUuid_uuidBytes] at hread
  exact Except.ok.inj hread

theorem Backed.conflict_iff {rows : List (Row Text)} {appended : List AuditEntry}
    (h : Backed json key rows appended) {row : Row Text} {id : AuditEntryId}
    (hid : row.id = .blob (uuidBytes id)) (hseq : row.sequence = .integer appended.length) :
    conflicts rows row = true ↔ ∃ old ∈ appended, old.id = id := by
  rw [conflicts, List.any_eq_true]
  simp only [hid, hseq]
  constructor
  · rintro ⟨other, hother, hconflict⟩
    obtain ⟨i, hi, rfl⟩ := List.mem_iff_getElem.mp hother
    have hi' : i < appended.length := h.rows.length_eq ▸ hi
    obtain ⟨nonce, text, -, -, heq⟩ := h.rows.get hi hi'
    simp only [List.get_eq_getElem] at heq
    have hat := h.seqs i _ (List.getElem?_eq_getElem hi')
    simp only [heq, entryRow, Bool.or_eq_true, decide_eq_true_eq, Cell.blob.injEq,
      Cell.integer.injEq] at hconflict
    obtain hid | hsame := hconflict
    · exact ⟨_, List.getElem_mem hi', uuidBytes_injective hid⟩
    · omega
  · rintro ⟨old, hold, rfl⟩
    obtain ⟨other, hother, nonce, text, -, -, rfl⟩ := exists_left h.rows hold
    exact ⟨_, hother, by simp [entryRow]⟩

theorem persist_ok_iff {p : PersistentAuditLog Text} {entry : AuditEntry} {env : AppendEnv}
    {conn : DbFile (List (Row Text))} :
    p.persist json entry env = .ok conn ↔ ∃ text, json.toVec entry = some text ∧
      entry.sequence ≤ i64Max ∧ env.encryptFails = false ∧ env.executeFails = false ∧
      conflicts p.conn.rows (entryRow p.payloadKey entry entry.sequence env.nonce text) = false ∧
      conn = { p.conn with
        rows := p.conn.rows ++ [entryRow p.payloadKey entry entry.sequence env.nonce text] } := by
  unfold PersistentAuditLog.persist seqToI64
  cases htext : json.toVec entry with
  | none => simp
  | some text =>
    simp only [Option.some.injEq, exists_eq_left']
    by_cases hbound : i64Max < entry.sequence
    · have hno : ¬entry.sequence ≤ i64Max := by omega
      simp [hbound, hno]
    · have hle : entry.sequence ≤ i64Max := by omega
      simp only [hbound, if_false, hle, true_and]
      cases henc : env.encryptFails with
      | true => simp
      | false =>
        cases hexec : env.executeFails with
        | true => simp
        | false =>
          cases conflicts p.conn.rows
              (entryRow p.payloadKey entry entry.sequence env.nonce text) with
          | true => simp
          | false =>
            simp only [Bool.or_self, Bool.false_eq_true, if_false, true_and]
            exact ⟨fun h => (Except.ok.inj h).symm, fun h => congrArg _ h.symm⟩

theorem Sound.append (h : Sound json masterKey w) {p : PersistentAuditLog Text}
    (hp : w.process = .opened p) (entry : AuditEntry) (env : AppendEnv) :
    (∃ err, p.append json entry env = (p, .error err) ∧
        ∀ text, json.toVec { entry with sequence := p.log.nextSequence } = some text →
          ¬Accepts p entry env) ∨
      ∃ q id, p.append json entry env = (q, .ok id) ∧ Accepts p entry env ∧
        Sound json masterKey
          ⟨.opened q, w.appended ++ [{ entry with sequence := p.log.nextSequence }]⟩ := by
  obtain ⟨hmaster, hkey, hlog⟩ := h.opened p hp
  have hfile : w.file = p.conn := by rw [World.file, hp]
  have hrows := h.rows
  have hown := h.own
  rw [hfile] at hrows hown
  have hnext : p.log.nextSequence = w.appended.length := by rw [hlog]
  have hentries : p.log.entries = w.appended := by rw [hlog]
  unfold PersistentAuditLog.append AuditLog.peekNextSequence
  generalize hstamp : ({ entry with sequence := p.log.nextSequence } : AuditEntry) = stamped
  have hseq : stamped.sequence = w.appended.length := by
    rw [← hstamp]
    exact hnext
  have hid : stamped.id = entry.id := by rw [← hstamp]
  have hconflict : ∀ text, conflicts p.conn.rows
      (entryRow p.payloadKey stamped stamped.sequence env.nonce text) = true ↔
        ∃ old ∈ w.appended, old.id = entry.id := by
    intro text
    refine hrows.conflict_iff ?_ ?_
    · rw [← hid]
      rfl
    · rw [← hseq]
      rfl
  dsimp only
  cases hpersist : p.persist json stamped env with
  | error err =>
    refine .inl ⟨err, rfl, fun text htext haccepts => ?_⟩
    obtain ⟨hle, hids, henc, hexec⟩ := haccepts
    have hfree : conflicts p.conn.rows
        (entryRow p.payloadKey stamped stamped.sequence env.nonce text) = false := by
      rw [← Bool.not_eq_true, hconflict]
      rintro ⟨old, hold, hsame⟩
      exact hids old (hentries ▸ hold) hsame
    have hok := persist_ok_iff.mpr ⟨text, htext, by omega, henc, hexec, hfree, rfl⟩
    rw [hpersist] at hok
    cases hok
  | ok conn =>
    obtain ⟨text, htext, hle, henc, hexec, hfree, rfl⟩ := persist_ok_iff.mp hpersist
    rw [← Bool.not_eq_true, hconflict] at hfree
    have hlt : p.log.nextSequence < u64Max := by
      simp only [i64Max, u64Max] at *
      omega
    rw [replayPersisted_ok p.log (hseq.trans hnext.symm) hlt]
    refine .inr ⟨_, _, rfl, ⟨by omega, fun old hold hsame => ?_, henc, hexec⟩, hown, ?_, ?_⟩
    · exact hfree ⟨old, hentries ▸ hold, hsame⟩
    · refine ⟨List.rel_append hrows.rows (.cons ⟨env.nonce, text, env.nonce.2, htext, ?_⟩ .nil), ?_, ?_⟩
      · rw [hkey]
      · intro i e hi
        rw [List.getElem?_append] at hi
        split at hi
        · exact hrows.seqs i e hi
        · obtain ⟨hlt, rfl⟩ := List.getElem?_eq_some_iff.mp hi
          simp only [List.length_singleton, Nat.lt_one_iff] at hlt
          simp only [hlt, List.getElem_cons_zero]
          omega
      · rw [List.length_append, List.length_singleton]
        omega
    · intro q hq
      obtain rfl := Process.opened.inj hq
      refine ⟨hmaster, hkey, ?_⟩
      simp [hentries, hnext]

theorem Sound.next (h : Sound json masterKey w)
    (hback : ∀ entry ∈ w.appended, ReadsBack json entry) (event : Event) :
    Sound json masterKey (w.next json masterKey event) ∧
      ((∀ entry ∈ (w.next json masterKey event).appended, ReadsBack json entry) ↔
        Lands json w event) := by
  cases event with
  | append entry env =>
    cases hp : w.process with
    | closed file =>
      simp only [World.next, hp]
      exact ⟨h, iff_of_true hback (by simp [Lands, hp])⟩
    | opened p =>
      obtain ⟨err, hcall, hno⟩ | ⟨q, id, hcall, hyes, hq⟩ := h.append hp entry env
      · have hsame : ({ w with process := .opened p } : World Text) = w := by
          rw [← hp]
        simp only [World.next, hp, hcall, hsame]
        refine ⟨h, iff_of_true hback ?_⟩
        intro p' hp' haccepts text htext
        obtain rfl := Process.opened.inj (hp.symm.trans hp')
        exact absurd haccepts (hno text htext)
      · simp only [World.next, hp, hcall, AuditLog.peekNextSequence]
        refine ⟨hq, ?_⟩
        rw [List.forall_mem_append]
        constructor
        · intro hall p' hp' _
          obtain rfl := Process.opened.inj (hp.symm.trans hp')
          exact hall.2 _ List.mem_cons_self
        · intro hlands
          refine ⟨hback, ?_⟩
          rw [List.forall_mem_singleton]
          exact hlands p hp hyes
  | close =>
    cases hp : w.process with
    | closed file =>
      simp only [World.next, hp]
      exact ⟨h, iff_of_true hback trivial⟩
    | opened p =>
      have hfile : w.file = p.conn := by rw [World.file, hp]
      have hrows := h.rows
      have hown := h.own
      rw [hfile] at hrows hown
      simp only [World.next, hp]
      refine ⟨⟨hown, hrows, ?_⟩, iff_of_true hback trivial⟩
      intro q hq
      cases hq
  | «open» fault queryFails =>
    cases hp : w.process with
    | opened p =>
      simp only [World.next, hp]
      exact ⟨h, iff_of_true hback trivial⟩
    | closed file =>
      have hfile : w.file = file.getD PersistentAuditLog.emptyFile := by rw [World.file, hp]
      have hrows := h.rows
      have hown := h.own.unlock fault
      have hsame := w.file.unlock_rows (deriveKey masterKey pageContext) fault
      rw [hfile] at hrows hown hsame
      simp only [World.next, hp, PersistentAuditLog.open]
      rcases hu : (file.getD PersistentAuditLog.emptyFile).unlock
        (deriveKey masterKey pageContext) fault with ⟨left, reply⟩
      rw [hu] at hown hsame
      dsimp only at hown hsame
      rw [← hsame] at hrows
      have hclosed : Sound json masterKey ⟨.closed (some left), w.appended⟩ := by
        refine ⟨hown, hrows, ?_⟩
        intro q hq
        cases hq
      refine ⟨?_, iff_of_true ?_ trivial⟩
      · cases reply with
        | error err => exact hclosed
        | ok _ =>
          dsimp only
          cases hload : loadAll json left.rows (deriveKey masterKey payloadContext) queryFails with
          | error err => exact hclosed
          | ok log =>
            refine ⟨hown, hrows, ?_⟩
            intro q hq
            obtain rfl := Process.opened.inj hq
            obtain ⟨log', hlog', hentries, hnext⟩ := hrows.load_iff.mpr hback
            cases queryFails with
            | true => cases hload
            | false =>
              rw [hlog'] at hload
              obtain rfl := Except.ok.inj hload
              obtain ⟨entries, nextSequence⟩ := log'
              obtain rfl : entries = w.appended := hentries
              obtain rfl : nextSequence = w.appended.length := hnext
              exact ⟨rfl, rfl, rfl⟩
      · cases reply with
        | error err => exact hback
        | ok _ =>
          dsimp only
          cases loadAll json left.rows (deriveKey masterKey payloadContext) queryFails with
          | error err => exact hback
          | ok log => exact hback

theorem sound_of_reachable (h : ((system json masterKey).restrict (Lands json)).Reachable w) :
    Sound json masterKey w ∧ ∀ entry ∈ w.appended, ReadsBack json entry := by
  refine h.invariant (fun w => Sound json masterKey w ∧
    ∀ entry ∈ w.appended, ReadsBack json entry) ?_ ?_
  · rintro w rfl
    refine ⟨⟨⟨.inl rfl, .inl rfl⟩, ⟨.nil, by simp, by simp⟩, ?_⟩, by simp⟩
    intro p hp
    cases hp
  · rintro w event w' - ⟨hw, hback⟩ ⟨⟨-, rfl⟩, hlands⟩
    obtain ⟨hnext, hiff⟩ := hw.next hback event
    exact ⟨hnext, hiff.mpr hlands⟩

end Proofs

/-- In a run whose appended entries can be read back, whatever is done to the file yields at most a
first part of them, the file itself yields them all, a failed append changes nothing, and the next
step keeps it so just in case its entry can be read back too. -/
theorem audit_tamper_evident (masterKey : MasterKey) {w : World Text}
    (h : ((system json masterKey).restrict (Lands json)).Reachable w) :
    TamperEvident json masterKey w ∧ Complete json masterKey w ∧
      (∀ p q entry env err, w.process = .opened p →
        p.append json entry env = (q, .error err) → q = p) ∧
      ∀ event, Complete json masterKey (w.next json masterKey event) ↔ Lands json w event := by
  obtain ⟨hsound, hback⟩ := sound_of_reachable h
  refine ⟨hsound.tamperEvident hback, hsound.complete_iff.mpr hback, ?_, fun event => ?_⟩
  · intro p q entry env err hp hfail
    obtain ⟨err', hcall, -⟩ | ⟨q', id, hcall, -⟩ := hsound.append hp entry env
    · exact (Prod.mk.inj (hfail.symm.trans hcall)).1
    · cases (Prod.mk.inj (hfail.symm.trans hcall)).2
  · obtain ⟨hnext, hiff⟩ := hsound.next hback event
    exact hnext.complete_iff.trans hiff

end Persist

namespace JsonValue

mutual

def depth : JsonValue → Nat
  | null | bool _ | number _ | string _ => 0
  | array elements => 1 + depthElements elements
  | object fields => 1 + depthFields fields

def depthElements : List JsonValue → Nat
  | [] => 0
  | value :: rest => max value.depth (depthElements rest)

def depthFields : List (String × JsonValue) → Nat
  | [] => 0
  | field :: rest => max (depthField field) (depthFields rest)

def depthField : String × JsonValue → Nat
  | (_, value) => value.depth

end

def nested : Nat → JsonValue
  | 0 => null
  | n+1 => array [nested n]

end JsonValue

/-- `serde_json` with a text for what it denotes. The reader gives up where arrays and objects are
nested 128 deep, the entry itself counted; the writer has no such limit. -/
def serdeJson : Json AuditEntry where
  toVec := some
  fromSlice entry := if 1 + entry.details.depth < 128 then some entry else none

theorem readsBack_of_depth {entry : AuditEntry} (h : 1 + entry.details.depth < 128) :
    ReadsBack serdeJson entry := by
  intro text htext
  obtain rfl := Option.some.inj htext
  exact if_pos h

def sampleEntry (id : AuditEntryId) (details : JsonValue) : AuditEntry :=
  ⟨id, 0, 1700000000000000000, .system, .policyChange, ⟨.policy, 7⟩, none, details⟩

def sampleEnv (fails : Bool) : AppendEnv :=
  ⟨⟨List.replicate 24 0, rfl⟩, false, fails⟩

def sampleRun (events : List Event) : World AuditEntry :=
  events.foldl (World.next serdeJson 5) ⟨.closed none, []⟩

theorem sampleEntry_readsBack (id : AuditEntryId) (seq : Nat) (details : JsonValue)
    (h : 1 + details.depth < 128) :
    ReadsBack serdeJson { sampleEntry id details with sequence := seq } :=
  readsBack_of_depth h

def sampleEvents : List Event :=
  [.open .none false, .append (sampleEntry 1 .null) (sampleEnv false),
    .append (sampleEntry 2 (.nested 3)) (sampleEnv true),
    .append (sampleEntry 2 (.nested 3)) (sampleEnv false), .close, .open .none false]

theorem audit_tamper_evident_sample :
    (sampleRun sampleEvents).appended.map AuditEntry.id = [1, 2] ∧
      TamperEvident serdeJson 5 (sampleRun sampleEvents) ∧
      Complete serdeJson 5 (sampleRun sampleEvents) := by
  have hlegal : Legal (fun w event => True ∧ Lands serdeJson w event) (World.next serdeJson 5)
      ⟨.closed none, []⟩ sampleEvents :=
    ⟨⟨trivial, trivial⟩, ⟨trivial, fun _ _ _ => sampleEntry_readsBack _ _ .null (by decide)⟩,
      ⟨trivial, fun _ _ _ => sampleEntry_readsBack _ _ (.nested 3) (by decide)⟩,
      ⟨trivial, fun _ _ _ => sampleEntry_readsBack _ _ (.nested 3) (by decide)⟩,
      ⟨trivial, trivial⟩,
      ⟨trivial, trivial⟩, trivial⟩
  have hsample := audit_tamper_evident serdeJson 5 (hlegal.reachable_restrict (.init rfl))
  exact ⟨by decide +kernel, hsample.1, hsample.2.1⟩

def deepEvents : List Event :=
  [.open .none false, .append (sampleEntry 1 (.nested 127)) (sampleEnv false)]

theorem deep_details_lost :
    (sampleRun deepEvents).appended.length = 1 ∧
      (PersistentAuditLog.open serdeJson (some (sampleRun deepEvents).file) 5 .none false).2.isOk =
        false ∧
      ¬∀ (masterKey : MasterKey) (w : World AuditEntry),
        (system serdeJson masterKey).Reachable w → Complete serdeJson masterKey w := by
  have hclosed : (PersistentAuditLog.open serdeJson (some (sampleRun deepEvents).file) 5
      .none false).2.isOk = false := by decide +kernel
  refine ⟨by decide +kernel, hclosed, fun hall => ?_⟩
  have hlegal : Legal (fun _ _ => True) (World.next serdeJson 5) ⟨.closed none, []⟩ deepEvents :=
    ⟨trivial, trivial, trivial⟩
  have hreach : (system serdeJson 5).Reachable (sampleRun deepEvents) :=
    hlegal.reachable (.init rfl)
  obtain ⟨⟨left, q, hopen, -⟩, -⟩ := hall 5 _ hreach
  rw [hopen] at hclosed
  cases hclosed

end Knowledge.AuditService
