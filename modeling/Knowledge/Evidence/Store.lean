import Knowledge.Lib.Cipher
import Knowledge.Lib.Table
import Knowledge.Sync.AddWinsSet
import Mathlib.Algebra.GroupWithZero.Nat

/-!
`EvidenceStore` of `crates/evidence_store/src/store.rs`: the tables whose rows are sealed
under the keys of scopes, and the cache those keys are resolved from. A statement fails only
where a constraint of the schema refuses it, and cryptography is ideal.
-/

set_option autoImplicit false

namespace Knowledge.Evidence
open Knowledge.Cipher
open Knowledge.Sync (Uuid)

abbrev Bytes := List UInt8

abbrev ScopeId := Uuid

abbrev MasterKey := BitVec 256

/-- A BLAKE3 hash. Two bodies have the same one only if they are the same. -/
structure ContentHash where
  preimage : Bytes
  deriving DecidableEq

def contentHash (body : Bytes) : ContentHash := ⟨body⟩

/-- Values from the OS RNG are told apart by the number of the draw. -/
structure EvidenceId where
  draw : Nat
  deriving DecidableEq

inductive Part where
  | text (s : String)
  | uuid (id : Uuid)
  | evidence (id : EvidenceId)
  | hash (hash : ContentHash)
  | version (version : UInt32)
  deriving DecidableEq

inductive AeadKey where
  | derived (master : MasterKey) (context : List Part)
  | random (draw : Nat)
  deriving DecidableEq

abbrev Ciphertext (α : Type) := Sealed AeadKey Nat (List Part) α

inductive EvidenceError where
  | sqlite (message : String)
  | crypto
  | schema (message : String)
  | notFound (id : EvidenceId)
  | danglingBodyRef
  | invalidConfig (message : String)
  | keyRotation (message : String)

theorem eq_ok_of_toOption {ε α : Type} {reply : Except ε α} {a : α} (h : reply.toOption = some a) :
    reply = .ok a := by
  cases reply with
  | error err => cases h
  | ok b => exact congrArg Except.ok (Option.some.inj h)

def deriveKey (master : MasterKey) (context : List Part) : AeadKey := .derived master context

def encryptAead {α : Type} (key : AeadKey) (nonce : Nat) (plain : α) (aad : List Part) :
    Ciphertext α := ⟨key, nonce, aad, plain⟩

def decryptAead {α : Type} (key : AeadKey) (ciphertext : Ciphertext α) (aad : List Part) :
    Except EvidenceError α :=
  match ciphertext.openWith key aad with
  | none => .error .crypto
  | some plain => .ok plain

def scopeContext (scope : ScopeId) : List Part := [.text "scope:", .uuid scope, .text ":body:v1"]

def dekWrappingKey (master : MasterKey) : AeadKey := deriveKey master [.text "scope-dek-wrap:v1"]

def scopeDekAad (scope : ScopeId) : List Part := [.text "scope-dek-wrap:v1", .uuid scope]

def cekWrapAad (hash : ContentHash) : List Part := [.text "cek_wrap:v1:", .hash hash]

def ingestAad (scope : ScopeId) (id : EvidenceId) (hash : ContentHash) : List Part :=
  [.uuid scope, .evidence id, .hash hash]

def bodyTableAad (hash : ContentHash) : List Part := [.text "body_store:v1", .hash hash]

def ringBufferAad (scope : ScopeId) : List Part := [.text "ring_buffer:v1", .uuid scope]

def memoryAad (scope : ScopeId) (kind : String) : List Part :=
  [.text "memory:", .text kind, .text ":", .uuid scope]

def connectorInstanceAad (scope : ScopeId) (instanceId : Uuid) (kindTag : String) : List Part :=
  [.text "connector-instance:v1:", .uuid scope, .uuid instanceId, .text ":", .text kindTag]

def connectorTokenAad (scope : ScopeId) (instanceId : Uuid) : List Part :=
  [.text "connector-token:v1:", .uuid scope, .uuid instanceId]

def synthesisObjectVersionAad (scope : ScopeId) (windowId : Uuid) (version : UInt32) : List Part :=
  [.text "synthesis-object-version:v1:", .uuid scope, .uuid windowId, .version version]

def wrapCek (wrapperKey cek : AeadKey) (nonce : Nat) (hash : ContentHash) : Ciphertext AeadKey :=
  encryptAead wrapperKey nonce cek (cekWrapAad hash)

def unwrapCek (wrapperKey : AeadKey) (wrapped : Ciphertext AeadKey) (hash : ContentHash) :
    Except EvidenceError AeadKey := decryptAead wrapperKey wrapped (cekWrapAad hash)

inductive ImportanceClass where
  | critical | important | useful | noise
  deriving DecidableEq

inductive StoragePath where
  | inline | bodyTable | ringBuffer
  deriving DecidableEq

def routeStorageWithThreshold (bodyLen : Nat) (importance : ImportanceClass)
    (inlineThreshold : Nat) : StoragePath :=
  if importance = .noise then .ringBuffer
  else if bodyLen ≤ inlineThreshold then .inline
  else .bodyTable

structure EvidenceRow where
  scopeId : ScopeId
  contentHash : ContentHash
  body : Option (Ciphertext Bytes)
  bodyRef : Option ContentHash
  sourceRef : Option String
  importance : ImportanceClass
  storagePath : StoragePath
  createdAt : Int
  languageTag : Option String

structure BodyRow where
  body : Ciphertext Bytes
  refCount : Int

structure RingRow where
  id : Nat
  scopeId : ScopeId
  body : Ciphertext Bytes
  payloadSize : Nat
  createdAt : Int
  lastAccessedAt : Int
  priority : Int
  deriving DecidableEq

structure DekRow where
  wrappedDek : Ciphertext AeadKey
  createdAt : Int

structure MemoryRow where
  payload : Ciphertext Bytes
  updatedAt : Int

structure ConnectorInstanceRow where
  scopeId : ScopeId
  kind : String
  payload : Ciphertext Bytes
  updatedAt : Int

structure ConnectorTokenRow where
  scopeId : ScopeId
  payload : Ciphertext Bytes
  updatedAt : Int

structure ApprovedDocumentRow where
  contentHash : ContentHash
  sizeBytes : Nat
  updatedAt : Int

structure SynthesisVersionRow where
  payload : Ciphertext Bytes
  createdAt : Int

structure Database where
  evidence : Table EvidenceId EvidenceRow
  bodyStore : Table ContentHash BodyRow
  keyWraps : Table (ContentHash × ScopeId) (Ciphertext AeadKey)
  ringBuffer : List RingRow
  ringSequence : Nat
  scopeDeks : Table ScopeId DekRow
  memoryObjects : Table (ScopeId × String) MemoryRow
  connectorInstances : Table Uuid ConnectorInstanceRow
  connectorTokens : Table Uuid ConnectorTokenRow
  approvedDocuments : Table (ScopeId × Uuid) ApprovedDocumentRow
  synthesisVersions : Table (ScopeId × Uuid × UInt32) SynthesisVersionRow
  forgottenScopes : Table ScopeId Int

def Database.empty : Database := ⟨∅, ∅, ∅, [], 0, ∅, ∅, ∅, ∅, ∅, ∅, ∅⟩

structure EvidenceStoreConfig where
  inlineThresholdBytes : Nat
  ringBufferMaxBytes : Nat

/-- An open store: its file, its configuration, the key cache and the master key. The RNG
is known by how many values have been drawn. -/
structure EvidenceStore where
  db : Database
  config : EvidenceStoreConfig
  scopeKeys : Table ScopeId AeadKey
  masterKey : MasterKey
  draws : Nat

structure IngestResult where
  evidenceId : EvidenceId
  storagePath : StoragePath
  contentHash : ContentHash

structure RingBufferEntry where
  id : Nat
  scopeId : ScopeId
  body : Bytes
  createdAt : Int

/-- `LIMIT 1` without an order: some row, if there is one. -/
structure AnyRow (α : Type) where
  pick : List α → Option α
  mem : ∀ rows row, pick rows = some row → row ∈ rows
  exhausted : ∀ rows, pick rows = none → rows = []

namespace RingRow

def before (r r' : RingRow) : Bool :=
  r.priority < r'.priority || r.priority = r'.priority &&
    (r.lastAccessedAt < r'.lastAccessedAt || r.lastAccessedAt = r'.lastAccessedAt && r.id ≤ r'.id)

def older (r r' : RingRow) : Bool :=
  r.createdAt < r'.createdAt || r.createdAt = r'.createdAt && r.id ≤ r'.id

def victim : List RingRow → Option RingRow
  | [] => none
  | r :: rest =>
    match victim rest with
    | none => some r
    | some r' => if r.before r' then some r else some r'

theorem victim_mem {rows : List RingRow} {v : RingRow} (h : victim rows = some v) : v ∈ rows := by
  induction rows with
  | nil => cases h
  | cons r rest ih =>
    rw [victim] at h
    split at h
    · cases h
      exact List.mem_cons_self
    · split at h
      · cases h
        exact List.mem_cons_self
      · cases h
        rename_i hrest _
        exact List.mem_cons_of_mem _ (ih hrest)

def without (id : Nat) (rows : List RingRow) : List RingRow := rows.filter fun r => r.id ≠ id

def evict (cap : Nat) (rows : List RingRow) : List RingRow :=
  if (rows.map payloadSize).sum ≤ cap then rows
  else
    match _h : victim rows with
    | none => rows
    | some v => evict cap (without v.id rows)
termination_by rows.length
decreasing_by
  exact List.length_filter_lt_length_iff_exists.mpr ⟨v, victim_mem _h, by simp⟩

end RingRow

namespace EvidenceStore

def anyFirst {T : Type} : AnyRow T where
  pick := List.head?
  mem := fun _ _ h => List.mem_of_head? h
  exhausted := fun _ h => List.head?_eq_none_iff.mp h

def draw (store : EvidenceStore) : EvidenceStore × Nat :=
  ({ store with draws := store.draws+1 }, store.draws)

def scopeKey (store : EvidenceStore) (scope : ScopeId) : EvidenceStore × AeadKey :=
  match store.scopeKeys.lookup scope with
  | some key => (store, key)
  | none =>
    let key := deriveKey store.masterKey (scopeContext scope)
    ({ store with scopeKeys := store.scopeKeys.insert scope key }, key)

def loadScopeDeks (db : Database) (masterKey : MasterKey) :
    Except EvidenceError (Table ScopeId AeadKey) :=
  Table.collect (fun scope row =>
    decryptAead (dekWrappingKey masterKey) row.wrappedDek (scopeDekAad scope)) ∅ db.scopeDeks.rows

def openFile (db : Database) (masterKey : MasterKey) (config : EvidenceStoreConfig) (draws : Nat) :
    Except EvidenceError EvidenceStore :=
  if config.ringBufferMaxBytes = 0 then
    .error (.invalidConfig "ring_buffer_max_bytes must be > 0")
  else if config.inlineThresholdBytes = 0 then
    .error (.invalidConfig "inline_threshold_bytes must be > 0")
  else
    match loadScopeDeks db masterKey with
    | .error err => .error err
    | .ok deks => .ok ⟨db, config, deks, masterKey, draws⟩

def reopen (store : EvidenceStore) : EvidenceStore × Except EvidenceError Unit :=
  match openFile store.db store.masterKey store.config store.draws with
  | .error err => (store, .error err)
  | .ok store => (store, .ok ())

/-- The connection is rebuilt on the file as it is now; the key cache is left intact. -/
def reopenConnection (store : EvidenceStore) (file : Database) : EvidenceStore :=
  { store with db := file }

/-- `INSERT OR IGNORE`; the cache follows when the row is new. -/
def storeScopeDek (store : EvidenceStore) (scope : ScopeId) (dek : AeadKey) (now : Int) :
    EvidenceStore :=
  let (store, nonce) := store.draw
  match store.db.scopeDeks.lookup scope with
  | some _ => store
  | none =>
    let wrapped := encryptAead (dekWrappingKey store.masterKey) nonce dek (scopeDekAad scope)
    { store with
      db := { store.db with scopeDeks := store.db.scopeDeks.insert scope ⟨wrapped, now⟩ }
      scopeKeys := store.scopeKeys.insert scope dek }

def hasEvidence (db : Database) (scope : ScopeId) : Bool :=
  db.evidence.any fun _ row => row.scopeId = scope

section

variable (store : EvidenceStore) (scope : ScopeId)

def ensureScopeDek (now : Int) :
    EvidenceStore × Except EvidenceError AeadKey :=
  match store.scopeKeys.lookup scope with
  | some key => (store, .ok key)
  | none =>
    match store.db.scopeDeks.lookup scope with
    | some row =>
      match decryptAead (dekWrappingKey store.masterKey) row.wrappedDek (scopeDekAad scope) with
      | .error err => (store, .error err)
      | .ok key => ({ store with scopeKeys := store.scopeKeys.insert scope key }, .ok key)
    | none =>
      if hasEvidence store.db scope then
        let key := deriveKey store.masterKey (scopeContext scope)
        (store.storeScopeDek scope key now, .ok key)
      else
        let (store, draw) := store.draw
        (store.storeScopeDek scope (.random draw) now, .ok (.random draw))

def deleteScopeDek : EvidenceStore :=
  { store with
    db := { store.db with scopeDeks := store.db.scopeDeks.erase scope }
    scopeKeys := store.scopeKeys.erase scope }

def purgeBodyKeyWrapsForScope : EvidenceStore :=
  let hashes := (store.db.keyWraps.rows.filter fun e => e.1.2 = scope).map fun e => e.1.1
  let wraps := store.db.keyWraps.filter fun k _ => k.2 ≠ scope
  let bodies := store.db.bodyStore.filter fun hash _ =>
    !(hash ∈ hashes && !wraps.any fun k _ => k.1 = hash)
  { store with db := { store.db with keyWraps := wraps, bodyStore := bodies } }

/-- A body that is not there yet, under a fresh content key, and the scope's wrap of it. -/
def insertNewBody (scopeKey : AeadKey) (body : Bytes) (hash : ContentHash) : EvidenceStore :=
  let (store, cek) := store.draw
  let (store, bodyNonce) := store.draw
  let ciphertext := encryptAead (.random cek) bodyNonce body (bodyTableAad hash)
  let (store, wrapNonce) := store.draw
  let wrapped := wrapCek scopeKey (.random cek) wrapNonce hash
  { store with
    db := { store.db with
      bodyStore := store.db.bodyStore.insert hash ⟨ciphertext, 1⟩
      keyWraps := store.db.keyWraps.insert (hash, scope) wrapped } }

def insertWrap (scopeKey cek : AeadKey) (hash : ContentHash) : EvidenceStore :=
  let (store, wrapNonce) := store.draw
  { store with
    db := { store.db with
      keyWraps := store.db.keyWraps.insert (hash, scope) (wrapCek scopeKey cek wrapNonce hash) } }

end

def deleteBody (store : EvidenceStore) (hash : ContentHash) : EvidenceStore :=
  { store with db := { store.db with bodyStore := store.db.bodyStore.erase hash } }

def bumpRefCount (store : EvidenceStore) (hash : ContentHash) : EvidenceStore :=
  match store.db.bodyStore.lookup hash with
  | none => store
  | some row =>
    { store with
      db := { store.db with
        bodyStore := store.db.bodyStore.insert hash { row with refCount := row.refCount+1 } } }

def otherWraps (db : Database) (hash : ContentHash) (scope : ScopeId) :
    List (ScopeId × Ciphertext AeadKey) :=
  (db.keyWraps.rows.filter fun e => e.1.1 = hash ∧ e.1.2 ≠ scope).map fun e => (e.1.2, e.2)

section

variable (store : EvidenceStore)

def insertEvidence (id : EvidenceId) (row : EvidenceRow) : EvidenceStore :=
  { store with db := { store.db with evidence := store.db.evidence.insert id row } }

def ingestInline (scope : ScopeId) (body : Bytes)
    (sourceRef : Option String) (importance : ImportanceClass) (hash : ContentHash)
    (languageTag : Option String) (now : Int) :
    EvidenceStore × Except EvidenceError IngestResult :=
  let (store, draw) := store.draw
  let evidenceId : EvidenceId := ⟨draw⟩
  let (store, key) := store.scopeKey scope
  let (store, nonce) := store.draw
  let ciphertext := encryptAead key nonce body (ingestAad scope evidenceId hash)
  (store.insertEvidence evidenceId
    ⟨scope, hash, some ciphertext, none, sourceRef, importance, .inline, now, languageTag⟩,
    .ok ⟨evidenceId, .inline, hash⟩)

def dedupDonor (any : AnyRow (ScopeId × Ciphertext AeadKey))
    (hash : ContentHash) (scope : ScopeId) :
    EvidenceStore × Option (Ciphertext AeadKey × AeadKey) :=
  match any.pick (otherWraps store.db hash scope) with
  | none => (store, none)
  | some (donorScope, wrapped) =>
    let (store, donorKey) := store.scopeKey donorScope
    (store, some (wrapped, donorKey))

def admitBody (scope : ScopeId) (scopeKey : AeadKey)
    (donor : Option (Ciphertext AeadKey × AeadKey)) (body : Bytes) (hash : ContentHash) :
    Except EvidenceError EvidenceStore :=
  match store.db.bodyStore.lookup hash with
  | none => .ok (store.insertNewBody scope scopeKey body hash)
  | some _ =>
    let store := store.bumpRefCount hash
    match store.db.keyWraps.lookup (hash, scope) with
    | some _ => .ok store
    | none =>
      match donor with
      | some (wrapped, donorKey) =>
        match unwrapCek donorKey wrapped hash with
        | .error err => .error err
        | .ok cek => .ok (store.insertWrap scope scopeKey cek hash)
      | none => .ok ((store.deleteBody hash).insertNewBody scope scopeKey body hash)

def ingestBodyTable (any : AnyRow (ScopeId × Ciphertext AeadKey))
    (scope : ScopeId) (body : Bytes) (sourceRef : Option String) (importance : ImportanceClass)
    (hash : ContentHash) (languageTag : Option String) (now : Int) :
    EvidenceStore × Except EvidenceError IngestResult :=
  let (store, draw) := store.draw
  let evidenceId : EvidenceId := ⟨draw⟩
  let (store, scopeKey) := store.scopeKey scope
  let (store, donor) := store.dedupDonor any hash scope
  match store.admitBody scope scopeKey donor body hash with
  | .error err => (store, .error err)
  | .ok store =>
    (store.insertEvidence evidenceId
      ⟨scope, hash, none, some hash, sourceRef, importance, .bodyTable, now, languageTag⟩,
      .ok ⟨evidenceId, .bodyTable, hash⟩)

def ringBufferInsertWithPriority (scope : ScopeId) (body : Bytes)
    (priority : Int) (now : Int) : EvidenceStore × Except EvidenceError Unit :=
  let (store, key) := store.scopeKey scope
  let (store, nonce) := store.draw
  let ciphertext := encryptAead key nonce body (ringBufferAad scope)
  -- the ciphertext carries a tag of 16 bytes and stands beside a nonce of 24
  let payloadSize := min (body.length+16+24) (2^63-1)
  let id := store.db.ringSequence+1
  let rows := store.db.ringBuffer ++ [⟨id, scope, ciphertext, payloadSize, now, now, priority⟩]
  ({ store with
    db := { store.db with
      ringBuffer := RingRow.evict (min store.config.ringBufferMaxBytes (2^63-1)) rows
      ringSequence := id } }, .ok ())

def ringBufferInsert (scope : ScopeId) (body : Bytes) (now : Int) :
    EvidenceStore × Except EvidenceError Unit :=
  store.ringBufferInsertWithPriority scope body 0 now

def ingestWithLanguage (any : AnyRow (ScopeId × Ciphertext AeadKey))
    (scope : ScopeId) (body : Bytes) (sourceRef : Option String) (importance : ImportanceClass)
    (languageTag : Option String) (now : Int) :
    EvidenceStore × Except EvidenceError IngestResult :=
  let hash := contentHash body
  match routeStorageWithThreshold body.length importance store.config.inlineThresholdBytes with
  | .ringBuffer =>
    match store.ringBufferInsert scope body now with
    | (store, .error err) => (store, .error err)
    | (store, .ok ()) =>
      let (store, draw) := store.draw
      (store, .ok ⟨⟨draw⟩, .ringBuffer, hash⟩)
  | .inline => store.ingestInline scope body sourceRef importance hash languageTag now
  | .bodyTable => store.ingestBodyTable any scope body sourceRef importance hash languageTag now

def ingest (any : AnyRow (ScopeId × Ciphertext AeadKey))
    (scope : ScopeId) (body : Bytes) (sourceRef : Option String) (importance : ImportanceClass)
    (now : Int) : EvidenceStore × Except EvidenceError IngestResult :=
  store.ingestWithLanguage any scope body sourceRef importance none now

def readBody (id : EvidenceId) :
    EvidenceStore × Except EvidenceError Bytes :=
  match store.db.evidence.lookup id with
  | none => (store, .error (.notFound id))
  | some row =>
    match row.storagePath with
    | .inline =>
      let (store, key) := store.scopeKey row.scopeId
      match row.body with
      | none => (store, .error (.schema "inline row missing body column"))
      | some body => (store, decryptAead key body (ingestAad row.scopeId id row.contentHash))
    | .bodyTable =>
      match row.bodyRef with
      | none => (store, .error (.schema "body-table row missing body_ref"))
      | some bodyRef =>
        match store.db.bodyStore.lookup bodyRef with
        | none => (store, .error .danglingBodyRef)
        | some bodyRow =>
          let (store, scopeKey) := store.scopeKey row.scopeId
          match store.db.keyWraps.lookup (bodyRef, row.scopeId) with
          | none => (store, .error .danglingBodyRef)
          | some wrapped =>
            match unwrapCek scopeKey wrapped row.contentHash with
            | .error err => (store, .error err)
            | .ok cek => (store, decryptAead cek bodyRow.body (bodyTableAad row.contentHash))
    | .ringBuffer => (store, .error (.schema "evidence row has unknown storage_path tag"))

end

def openWindow (key : AeadKey) (scope : ScopeId) :
    List RingRow → Except EvidenceError (List RingBufferEntry)
  | [] => .ok []
  | row :: rest =>
    match decryptAead key row.body (ringBufferAad scope) with
    | .error err => .error err
    | .ok body =>
      match openWindow key scope rest with
      | .error err => .error err
      | .ok entries => .ok (⟨row.id, scope, body, row.createdAt⟩ :: entries)

section

variable (store : EvidenceStore) (scope : ScopeId)

def ringBufferReadWindow (now : Int) :
    EvidenceStore × Except EvidenceError (List RingBufferEntry) :=
  let (store, key) := store.scopeKey scope
  let rows := (store.db.ringBuffer.filter fun r => r.scopeId = scope).mergeSort RingRow.older
  match openWindow key scope rows with
  | .error err => (store, .error err)
  | .ok entries =>
    let ids := entries.map RingBufferEntry.id
    let touched := store.db.ringBuffer.map fun r =>
      if r.id ∈ ids then { r with lastAccessedAt := now } else r
    ({ store with db := { store.db with ringBuffer := touched } }, .ok entries)

def saveMemoryBlob (kind : String) (plaintext : Bytes)
    (now : Int) : EvidenceStore × Except EvidenceError Unit :=
  let (store, key) := store.scopeKey scope
  let (store, nonce) := store.draw
  let ciphertext := encryptAead key nonce plaintext (memoryAad scope kind)
  ({ store with
    db := { store.db with
      memoryObjects := store.db.memoryObjects.insert (scope, kind) ⟨ciphertext, now⟩ } }, .ok ())

def loadMemoryBlob (kind : String) :
    EvidenceStore × Except EvidenceError (Option Bytes) :=
  match store.db.memoryObjects.lookup (scope, kind) with
  | none => (store, .ok none)
  | some row =>
    let (store, key) := store.scopeKey scope
    match decryptAead key row.payload (memoryAad scope kind) with
    | .error err => (store, .error err)
    | .ok plaintext => (store, .ok (some plaintext))

end

def saveConnectorInstance (store : EvidenceStore) (instanceId : Uuid) (scope : ScopeId)
    (kindTag : String) (plaintext : Bytes) (now : Int) :
    EvidenceStore × Except EvidenceError Unit :=
  let (store, key) := store.scopeKey scope
  let (store, nonce) := store.draw
  let ciphertext := encryptAead key nonce plaintext (connectorInstanceAad scope instanceId kindTag)
  if store.db.connectorInstances.any fun id row =>
      id ≠ instanceId && row.scopeId = scope && row.kind = kindTag then
    (store, .error (.sqlite
      "UNIQUE constraint failed: connector_instances.scope_id, connector_instances.kind"))
  else
    ({ store with
      db := { store.db with
        connectorInstances :=
          store.db.connectorInstances.insert instanceId ⟨scope, kindTag, ciphertext, now⟩ } },
      .ok ())

def openInstances (store : EvidenceStore) : List (Uuid × ConnectorInstanceRow) →
    EvidenceStore × List (Uuid × ScopeId × String × Bytes)
  | [] => (store, [])
  | (instanceId, row) :: rest =>
    let (store, key) := store.scopeKey row.scopeId
    let opened :=
      match decryptAead key row.payload (connectorInstanceAad row.scopeId instanceId row.kind) with
      | .error _ => []
      | .ok plaintext => [(instanceId, row.scopeId, row.kind, plaintext)]
    let (store, out) := openInstances store rest
    (store, opened ++ out)

def loadConnectorInstances (store : EvidenceStore) :
    EvidenceStore × Except EvidenceError (List (Uuid × ScopeId × String × Bytes)) :=
  let (store, out) := store.openInstances store.db.connectorInstances.rows
  (store, .ok out)

def saveConnectorToken (store : EvidenceStore) (instanceId : Uuid) (scope : ScopeId)
    (plaintext : Bytes) (now : Int) : EvidenceStore × Except EvidenceError Unit :=
  let (store, key) := store.scopeKey scope
  let (store, nonce) := store.draw
  let ciphertext := encryptAead key nonce plaintext (connectorTokenAad scope instanceId)
  ({ store with
    db := { store.db with
      connectorTokens := store.db.connectorTokens.insert instanceId ⟨scope, ciphertext, now⟩ } },
    .ok ())

def openTokens (store : EvidenceStore) : List (Uuid × ConnectorTokenRow) →
    EvidenceStore × List (Uuid × ScopeId × Bytes)
  | [] => (store, [])
  | (instanceId, row) :: rest =>
    let (store, key) := store.scopeKey row.scopeId
    let opened :=
      match decryptAead key row.payload (connectorTokenAad row.scopeId instanceId) with
      | .error _ => []
      | .ok plaintext => [(instanceId, row.scopeId, plaintext)]
    let (store, out) := openTokens store rest
    (store, opened ++ out)

section

variable (store : EvidenceStore)

def loadConnectorTokens :
    EvidenceStore × Except EvidenceError (List (Uuid × ScopeId × Bytes)) :=
  let (store, out) := store.openTokens store.db.connectorTokens.rows
  (store, .ok out)

/-- The body of an approved document; other than an ingest it does not count a scope twice. -/
def admitApprovedDocBody (any : AnyRow (ScopeId × Ciphertext AeadKey))
    (scope : ScopeId) (plaintext : Bytes) (hash : ContentHash) :
    EvidenceStore × Except EvidenceError Unit :=
  let (store, scopeKey) := store.scopeKey scope
  match store.db.bodyStore.lookup hash with
  | none => (store.insertNewBody scope scopeKey plaintext hash, .ok ())
  | some _ =>
    match store.db.keyWraps.lookup (hash, scope) with
    | some _ => (store, .ok ())
    | none =>
      match store.dedupDonor any hash scope with
      | (store, some (wrapped, donorKey)) =>
        match unwrapCek donorKey wrapped hash with
        | .error err => (store, .error err)
        | .ok cek => ((store.insertWrap scope scopeKey cek hash).bumpRefCount hash, .ok ())
      | (store, none) =>
        ((store.deleteBody hash).insertNewBody scope scopeKey plaintext hash, .ok ())

def saveApprovedDocumentPayload (any : AnyRow (ScopeId × Ciphertext AeadKey)) (scope : ScopeId) (documentId : Uuid)
    (plaintext : Bytes) (hash : ContentHash) (now : Int) :
    EvidenceStore × Except EvidenceError Unit :=
  match store.admitApprovedDocBody any scope plaintext hash with
  | (store, .error err) => (store, .error err)
  | (store, .ok ()) =>
    let row : ApprovedDocumentRow := ⟨hash, min plaintext.length (2^63-1), now⟩
    ({ store with
      db := { store.db with
        approvedDocuments := store.db.approvedDocuments.insert (scope, documentId) row } }, .ok ())

def loadApprovedDocBody (scope : ScopeId) (hash : ContentHash) :
    EvidenceStore × Except EvidenceError (Option Bytes) :=
  match store.db.keyWraps.lookup (hash, scope) with
  | none => (store, .ok none)
  | some wrapped =>
    let (store, scopeKey) := store.scopeKey scope
    match unwrapCek scopeKey wrapped hash with
    | .error err => (store, .error err)
    | .ok cek =>
      match store.db.bodyStore.lookup hash with
      | none => (store, .ok none)
      | some bodyRow =>
        match decryptAead cek bodyRow.body (bodyTableAad hash) with
        | .error err => (store, .error err)
        | .ok plaintext => (store, .ok (some plaintext))

def loadApprovedDocumentPayload (scope : ScopeId) (documentId : Uuid) :
    EvidenceStore × Except EvidenceError (Option Bytes) :=
  match store.db.approvedDocuments.lookup (scope, documentId) with
  | none => (store, .ok none)
  | some row =>
    match store.loadApprovedDocBody scope row.contentHash with
    | (store, .error err) => (store, .error err)
    | (store, .ok none) => (store, .error (.schema ("approved_document_payloads row references " ++
        "a body that is no longer wrapped for this scope (body_store row gone, or wrap purged " ++
        "before metadata)")))
    | (store, .ok (some plaintext)) => (store, .ok (some plaintext))

def loadSynthesisObjectVersion (scope : ScopeId) (windowId : Uuid)
    (version : UInt32) : EvidenceStore × Except EvidenceError (Option Bytes) :=
  match store.db.synthesisVersions.lookup (scope, windowId, version) with
  | none => (store, .ok none)
  | some row =>
    let (store, key) := store.scopeKey scope
    match decryptAead key row.payload (synthesisObjectVersionAad scope windowId version) with
    | .error err => (store, .error err)
    | .ok plaintext => (store, .ok (some plaintext))

/-- `INSERT OR IGNORE`: the first time a scope is forgotten is kept. -/
def recordForgottenScopeAt (scope : ScopeId) (forgottenAt : Int) : EvidenceStore :=
  match store.db.forgottenScopes.lookup scope with
  | some _ => store
  | none =>
    { store with
      db := { store.db with forgottenScopes := store.db.forgottenScopes.insert scope forgottenAt } }

end

end EvidenceStore

end Knowledge.Evidence
