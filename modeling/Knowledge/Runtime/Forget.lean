import Knowledge.Crypto.Permanence
import Knowledge.Evidence.Store
import Knowledge.Runtime.Boundary
import Knowledge.Runtime.Sparing

/-!
`forget` and `forget_scope` of `crates/ffi/src/lib.rs` on the whole of a runtime and its database,
with the clean-up that `open_store` of `runtime.rs` repeats. What no statement looks into (payloads,
wraps, live objects) is of a type `V`, and a blob that loads gives back what was saved.
-/

set_option autoImplicit false

namespace Knowledge.Runtime
open Knowledge.Sync (Uuid)
open Knowledge.Memory (ScopeId)
open Knowledge.Evidence (ContentHash)
open Knowledge.Crypto (DekRegistry TombstoneStore EpochId AeadKey destroyScopeDek destroyEpochDek)
open Knowledge.Synthesis (WindowId SynthesisObject WindowScopeTier)

/-- `evidence_fts`, `evidence_fts_cjk` and `evidence_fts_bigram`. -/
inductive FtsIndex where
  | unicode61
  | trigram
  | bigram

structure FtsRow where
  index : FtsIndex
  content : String
  evidenceId : Uuid
  scopeId : ScopeId

/-- The kinds of memory that the runtime keeps in a map by scope, besides those of a tenant. -/
inductive MemoryKind where
  | user
  | channel
  | domain
  deriving DecidableEq

inductive SynthesisTierKind where
  | domain
  | tenant
  deriving DecidableEq

/-- The tables. `memory_objects` is split by kind: `blobs`, `tenants`, `objects` and, under the nil
scope, `windows`. -/
structure StoreFile (V : Type) where
  evidence : Table Uuid ScopeId
  fts : List FtsRow
  embeddings : Table (Uuid × String) V
  bodyStore : Table ContentHash V
  keyWraps : Table (ContentHash × ScopeId) V
  scopeDeks : Table ScopeId AeadKey
  blobs : Table (ScopeId × MemoryKind) V
  tenants : Table ScopeId TenantMemoryObject
  objects : Table ScopeId (List SynthesisObject)
  windows : Option WindowManager
  payloads : Table (ScopeId × Uuid) (List UInt8)
  versions : Table (ScopeId × WindowId × Nat) SynthesisObject
  connectorInstances : Table Uuid (ScopeId × V)
  connectorTokens : Table Uuid (ScopeId × V)
  epochTombstones : Table (ScopeId × EpochId) Int
  forgottenScopes : Table ScopeId Int

/-- `memories` is `user_memories`, `channel_memories` and `domain_memories`. -/
structure FfiRuntime (V : Type) where
  registry : DekRegistry
  memories : Table (ScopeId × MemoryKind) V
  tenants : Table ScopeId TenantMemoryObject
  objects : Table ScopeId (Table WindowId SynthesisObject)
  windows : WindowManager
  cooldowns : Table (ScopeId × SynthesisTierKind) Int
  connectorInstances : Table Uuid (ScopeId × V)
  connectors : Table Uuid V
  tokenVault : Table Uuid V

namespace StoreFile

def empty (V : Type) : StoreFile V :=
  ⟨∅, [], ∅, ∅, ∅, ∅, ∅, ∅, ∅, none, ∅, ∅, ∅, ∅, ∅, ∅⟩

section

variable {V : Type}

section

variable (file : StoreFile V) (scope : ScopeId)

def forgotten : Bool :=
  (file.forgottenScopes.lookup scope).isSome

def purgeFtsForScope : StoreFile V :=
  { file with
    fts := file.fts.filter fun row => file.evidence.lookup row.evidenceId ≠ some scope
    embeddings := file.embeddings.filter fun key _ => file.evidence.lookup key.1 ≠ some scope }

def purgeBodyKeyWrapsForScope : StoreFile V :=
  let wraps := file.keyWraps.filter fun key _ => key.2 ≠ scope
  { file with
    keyWraps := wraps
    bodyStore := file.bodyStore.filter fun hash _ =>
      !((file.keyWraps.lookup (hash, scope)).isSome && !wraps.any fun key _ => key.1 = hash) }

def deleteMemoryBlobsForScope : StoreFile V :=
  { file with
    blobs := file.blobs.filter fun key _ => key.1 ≠ scope
    tenants := file.tenants.erase scope
    objects := file.objects.erase scope
    windows := if scope = synthesisWindowsScope then none else file.windows }

def deleteApprovedDocumentPayloadsForScope : StoreFile V :=
  { file with payloads := file.payloads.filter fun key _ => key.1 ≠ scope }

def deleteSynthesisObjectVersionsForScope : StoreFile V :=
  { file with versions := file.versions.filter fun key _ => key.1 ≠ scope }

def deleteConnectorInstancesForScope : StoreFile V :=
  { file with connectorInstances := file.connectorInstances.filter fun _ row => row.1 ≠ scope }

def deleteConnectorTokensForScope : StoreFile V :=
  { file with connectorTokens := file.connectorTokens.filter fun _ row => row.1 ≠ scope }

end

/-- The tombstone tables as `EvidenceStoreTombstoneStore` hands them out, with the writes to them
that will fail. -/
def tombstoneStore (file : StoreFile V) (fails : Nat → Bool) : TombstoneStore :=
  ⟨file.epochTombstones, file.forgottenScopes, fails, 0⟩

def disk (file : StoreFile V) : Disk where
  tombstones := file.forgottenScopes.keys
  windows := file.windows
  tenants := file.tenants
  objects := file.objects
  payloads := file.payloads
  versions := file.versions

def withDisk (file : StoreFile V) (d : Disk) : StoreFile V :=
  { file with
    windows := d.windows
    tenants := d.tenants
    objects := d.objects
    payloads := d.payloads
    versions := d.versions }

end

end StoreFile

/-- What the database answers to the statements of one call, in their order. -/
structure ForgetAnswers where
  now : Int
  tombstoneFails : Nat → Bool
  tombstoneError : String
  deleteScopeDek : Answer
  purgeFts : Answer
  purgeWraps : Answer
  deleteBlobs : Answer
  deletePayloads : Answer
  deleteVersions : Answer
  flushWindows : Answer
  deleteInstances : Answer
  deleteTokens : Answer

def ForgetAnswers.allOk (now : Int) : ForgetAnswers where
  now := now
  tombstoneFails _ := false
  tombstoneError := ""
  deleteScopeDek := .ok ()
  purgeFts := .ok ()
  purgeWraps := .ok ()
  deleteBlobs := .ok ()
  deletePayloads := .ok ()
  deleteVersions := .ok ()
  flushWindows := .ok ()
  deleteInstances := .ok ()
  deleteTokens := .ok ()

section

variable {V : Type}

def attemptCleanup (answer : Answer) (f : StoreFile V → StoreFile V)
    (p : StoreFile V × Option FfiError) : StoreFile V × Option FfiError :=
  match answer.orEvidence with
  | .ok _ => (f p.1, p.2)
  | .error e => (p.1, p.2.or (some e))

def tryCleanup (answer : Answer) (f : StoreFile V → StoreFile V) (file : StoreFile V) :
    StoreFile V :=
  match answer with
  | .ok _ => f file
  | .error _ => file

namespace FfiRuntime

def isScopeForgotten (rt : FfiRuntime V) (scope : ScopeId) : Bool :=
  rt.registry.isScopeForgotten scope

def dropScope (rt : FfiRuntime V) (scope : ScopeId) : FfiRuntime V :=
  let bound (id : Uuid) : Bool := (rt.connectorInstances.lookup id).any fun e => e.1 = scope
  { rt with
    memories := rt.memories.filter fun key _ => key.1 ≠ scope
    tenants := rt.tenants.erase scope
    objects := rt.objects.erase scope
    windows := rt.windows.removeWindowsForScope scope
    cooldowns := rt.cooldowns.filter fun key _ => key.1 ≠ scope
    connectorInstances := rt.connectorInstances.filter fun _ e => e.1 ≠ scope
    connectors := rt.connectors.filter fun id _ => !bound id
    tokenVault := rt.tokenVault.filter fun id _ => !bound id }

end FfiRuntime

def cleanUp (file : StoreFile V) (scope : ScopeId) (windows : WindowManager) (a : ForgetAnswers) :
    StoreFile V × Option FfiError :=
  let file := tryCleanup a.deleteScopeDek
    (fun file => { file with scopeDeks := file.scopeDeks.erase scope }) file
  let p := attemptCleanup a.purgeFts (·.purgeFtsForScope scope) (file, none)
  let p := attemptCleanup a.purgeWraps (·.purgeBodyKeyWrapsForScope scope) p
  let p := attemptCleanup a.deleteBlobs (·.deleteMemoryBlobsForScope scope) p
  let p := attemptCleanup a.deletePayloads (·.deleteApprovedDocumentPayloadsForScope scope) p
  let p := attemptCleanup a.deleteVersions (·.deleteSynthesisObjectVersionsForScope scope) p
  let p := (tryCleanup a.flushWindows (fun file => { file with windows := some windows }) p.1, p.2)
  let p := attemptCleanup a.deleteInstances (·.deleteConnectorInstancesForScope scope) p
  attemptCleanup a.deleteTokens (·.deleteConnectorTokensForScope scope) p

def sentinelRefused : FfiError :=
  .invalidId ("scope_id: nil UUID is reserved as the synthesis-windows sentinel; " ++
    "refusing to forget the substrate-internal scope")

structure ForgetOutcome (V : Type) where
  runtime : FfiRuntime V
  file : StoreFile V
  result : Except FfiError Unit

def forgetScopeState (rt : FfiRuntime V) (file : StoreFile V) (scope : ScopeId)
    (a : ForgetAnswers) : ForgetOutcome V :=
  if scope = synthesisWindowsScope then ⟨rt, file, .error sentinelRefused⟩
  else
    let d := destroyScopeDek rt.registry (file.tombstoneStore a.tombstoneFails) true scope a.now
    let rt := { rt with registry := d.registry }
    let file := { file with
      epochTombstones := d.store.tombstones, forgottenScopes := d.store.forgottenScopes }
    match d.result with
    | .error _ => ⟨rt, file, .error (.evidence a.tombstoneError)⟩
    | .ok _ =>
      let rt := rt.dropScope scope
      let p := cleanUp file scope rt.windows a
      match p.2 with
      | some e => ⟨rt, p.1, .error e⟩
      | none => ⟨rt, p.1, .ok ()⟩

def parseEvidenceId (parse : UuidParser) (s : String) : Except FfiError Uuid :=
  match parse s with
  | .error e => .error (.invalidId ("evidence_id: " ++ e))
  | .ok id => .ok id

def evidenceScope (parse : UuidParser) (file : StoreFile V) (id : String) (reads : Answer) :
    Except FfiError ScopeId :=
  match parseEvidenceId parse id with
  | .error e => .error e
  | .ok uuid =>
    match reads.orEvidence with
    | .error e => .error e
    | .ok _ =>
      match file.evidence.lookup uuid with
      | none => .error (.notFound "evidence" id)
      | some scope => .ok scope

end

/-- What the database, the decoders and the connector factory answer while the store is opened.
The statements whose failure is only logged say whether they fail. -/
structure OpenAnswers where
  now : Int
  opens : Answer
  loadForgotten : Answer
  loadEpochs : Answer
  purgeFts : Answer
  purgeWraps : ScopeId → Answer
  deleteBlobs : ScopeId → Answer
  deleteDekFails : ScopeId → Bool
  listMemories : Answer
  loads : ScopeId → MemoryKind → Bool
  listObjects : Answer
  faults : Faults
  loadInstances : Answer
  instanceLoads : Uuid → Bool
  connects : Uuid → Bool
  deleteInstanceFails : Uuid → Bool
  loadTokens : Answer
  tokenLoads : Uuid → Bool
  deleteTokenFails : Uuid → Bool

def OpenAnswers.allOk (now : Int) : OpenAnswers where
  now := now
  opens := .ok ()
  loadForgotten := .ok ()
  loadEpochs := .ok ()
  purgeFts := .ok ()
  purgeWraps _ := .ok ()
  deleteBlobs _ := .ok ()
  deleteDekFails _ := false
  listMemories := .ok ()
  loads _ _ := true
  listObjects := .ok ()
  faults := .none
  loadInstances := .ok ()
  instanceLoads _ := true
  connects _ := true
  deleteInstanceFails _ := false
  loadTokens := .ok ()
  tokenLoads _ := true
  deleteTokenFails _ := false

section

variable {V : Type}

def replayRegistry (file : StoreFile V) (now : Int) : DekRegistry :=
  let r := file.forgottenScopes.keys.foldl (fun r scope =>
    (destroyScopeDek r (file.tombstoneStore fun _ => false) false scope now).registry) .empty
  let r := file.epochTombstones.rows.foldl (fun r e =>
    if file.forgotten e.1.1 then r
    else (destroyEpochDek r (file.tombstoneStore fun _ => false) false e.1.1 e.1.2 now).registry) r
  file.scopeDeks.rows.foldl (fun r e =>
    if r.isScopeForgotten e.1 then r
    else { r with scopeDeks := r.scopeDeks.insert e.1 ⟨now, 0, e.2, false⟩ }) r

def purgeTombstoned (a : OpenAnswers) (file : StoreFile V) :
    List ScopeId → StoreFile V × Except FfiError Unit
  | [] => (file, .ok ())
  | scope :: rest =>
    match (a.purgeWraps scope).orEvidence with
    | .error e => (file, .error e)
    | .ok _ =>
      let file := file.purgeBodyKeyWrapsForScope scope
      match (a.deleteBlobs scope).orEvidence with
      | .error e => (file, .error e)
      | .ok _ => purgeTombstoned a (file.deleteMemoryBlobsForScope scope) rest

structure Rehydration (V : Type) where
  instances : Table Uuid (ScopeId × V)
  connectors : Table Uuid V
  tokens : Table Uuid V

/-- `rehydrate_connectors`. A row of a forgotten scope is deleted, and so is a token whose instance
was not read back. -/
def rehydrateConnectors (a : OpenAnswers) (file : StoreFile V) : StoreFile V × Rehydration V :=
  match a.loadInstances with
  | .error _ => (file, ⟨∅, ∅, ∅⟩)
  | .ok _ =>
    let instances := file.connectorInstances.filter fun id row =>
      !file.forgotten row.1 && a.instanceLoads id
    let connectors := (instances.filter fun id _ => a.connects id).mapValues fun _ row => row.2
    let file := { file with
      connectorInstances := file.connectorInstances.filter fun id row =>
        !file.forgotten row.1 || a.deleteInstanceFails id }
    match a.loadTokens with
    | .error _ => (file, ⟨instances, connectors, ∅⟩)
    | .ok _ =>
      let owned (id : Uuid) (row : ScopeId × V) : Bool :=
        !file.forgotten row.1 && (instances.lookup id).isSome
      ({ file with
        connectorTokens := file.connectorTokens.filter fun id row =>
          owned id row || a.deleteTokenFails id },
        ⟨instances, connectors, (file.connectorTokens.filter fun id row =>
          owned id row && a.tokenLoads id).mapValues fun _ row => row.2⟩)

def rehydrateRuntime (a : OpenAnswers) (file : StoreFile V) :
    StoreFile V × Except FfiError (FfiRuntime V) :=
  let registry := replayRegistry file a.now
  let file := { file with
    scopeDeks := file.scopeDeks.filter fun scope _ =>
      !registry.isScopeForgotten scope || a.deleteDekFails scope }
  match a.listMemories.orEvidence with
  | .error e => (file, .error e)
  | .ok _ =>
    let memories := file.blobs.filter fun key _ => !file.forgotten key.1 && a.loads key.1 key.2
    match a.listObjects.orEvidence with
    | .error e =>
      ({ file with
        windows := (rehydrateWindows (purgeBlobs file.disk) a.now a.faults).1.windows }, .error e)
    | .ok _ =>
      let opened := openStore file.disk a.now a.faults
      let c := rehydrateConnectors a (file.withDisk opened.1)
      (c.1, .ok ⟨registry, memories, opened.2.tenants, opened.2.objects, opened.2.windows, ∅,
        c.2.instances, c.2.connectors, c.2.tokens⟩)

def openFile (a : OpenAnswers) (file : StoreFile V) : StoreFile V × Except FfiError (FfiRuntime V) :=
  match a.opens.orEvidence with
  | .error e => (file, .error e)
  | .ok _ =>
    match a.loadForgotten.orEvidence with
    | .error e => (file, .error e)
    | .ok _ =>
      match a.loadEpochs.orEvidence with
      | .error e => (file, .error e)
      | .ok _ =>
        match a.purgeFts.orEvidence with
        | .error e => (file, .error e)
        | .ok _ =>
          let purged := file.forgottenScopes.keys.foldl StoreFile.purgeFtsForScope file
          match purgeTombstoned a purged purged.forgottenScopes.keys with
          | (file, .error e) => (file, .error e)
          | (file, .ok _) => rehydrateRuntime a file

end

namespace WindowManager

/-- A random id that is in use is not drawn. -/
def openWindow (m : WindowManager) (w : StoredWindow) : WindowManager :=
  if (m.windows.lookup w.id).isSome then m
  else ⟨m.windows.insert w.id w,
    m.byScope.insert w.scopeId ((m.byScope.lookup w.scopeId).getD [] ++ [w.id])⟩

def setStatus (m : WindowManager) (id : WindowId) (status : Synthesis.WindowStatus) :
    WindowManager :=
  match m.windows.lookup id with
  | none => m
  | some w => { m with windows := m.windows.insert id { w with status := status } }

def listedFor (m : WindowManager) (scope : ScopeId) : List WindowId :=
  (m.byScope.lookup scope).getD []

def removeWindows (m : WindowManager) (scope : ScopeId) (ids : List WindowId) : WindowManager where
  windows := ids.foldl (fun t id => t.erase id) m.windows
  byScope :=
    match m.byScope.lookup scope with
    | none => m.byScope
    | some listed =>
      if (listed.filter fun id => !ids.contains id).isEmpty then m.byScope.erase scope
      else m.byScope.insert scope (listed.filter fun id => !ids.contains id)

end WindowManager

/-- One write of a call that works on a scope: to a table of the database or to a map in memory.
Where a value may be missing, `none` deletes. -/
inductive Write (V : Type) where
  | ingest (id : Uuid) (contents : List (FtsIndex × String)) (embedding : Option (String × V))
  | body (hash : ContentHash) (row wrap : V)
  | scopeDek (key : AeadKey)
  | blob (kind : MemoryKind) (value : Option V)
  | tenantBlob (documents : List ApprovedDocumentRef)
  | objectsBlob (objects : List SynthesisObject)
  | windowsBlob
  | payload (document : Uuid) (row : Option (List UInt8))
  | version (window : WindowId) (version : Nat) (object : Option SynthesisObject)
  | instanceRow (id : Uuid) (row : Option V)
  | tokenRow (id : Uuid) (row : Option V)
  | memory (kind : MemoryKind) (value : Option V)
  | tenant (documents : List ApprovedDocumentRef)
  | objects (objects : Table WindowId SynthesisObject)
  | openWindow (id : WindowId) (windowStart windowEnd : Int) (tier : Option WindowScopeTier)
      (createdAt : Option Int)
  | windowStatus (id : WindowId) (status : Synthesis.WindowStatus)
  | removeWindows (ids : List WindowId)
  | cooldown (tier : SynthesisTierKind) (time : Int)
  | connectorInstance (id : Uuid) (value : V)
  | connector (id : Uuid) (value : V)
  | token (id : Uuid) (value : Option V)

section

variable {V : Type}

def upsert {K W : Type} [DecidableEq K] (t : Table K W) (k : K) : Option W → Table K W
  | none => t.erase k
  | some v => t.insert k v

/-- The write under the scope of its call. An evidence id that is in use is refused by the primary
key, and a token or a handle is kept only for an instance that is there. -/
def Write.run (scope : ScopeId) (rt : FfiRuntime V) (file : StoreFile V) :
    Write V → FfiRuntime V × StoreFile V
  | .ingest id contents embedding =>
    if (file.evidence.lookup id).isSome then (rt, file)
    else (rt, { file with
      evidence := file.evidence.insert id scope
      fts := file.fts ++ contents.map fun c => ⟨c.1, c.2, id, scope⟩
      embeddings :=
        match embedding with
        | none => file.embeddings
        | some (tag, v) => file.embeddings.insert (id, tag) v })
  | .body hash row wrap => (rt, { file with
      bodyStore := file.bodyStore.insert hash row
      keyWraps := file.keyWraps.insert (hash, scope) wrap })
  | .scopeDek key =>
    ({ rt with
      registry := { rt.registry with
        scopeDeks := rt.registry.scopeDeks.insert scope ⟨0, 0, key, false⟩ } },
      { file with scopeDeks := file.scopeDeks.insert scope key })
  | .blob kind value => (rt, { file with blobs := upsert file.blobs (scope, kind) value })
  | .tenantBlob documents =>
    (rt, { file with tenants := file.tenants.insert scope ⟨scope, documents⟩ })
  | .objectsBlob held => (rt, { file with objects := file.objects.insert scope held })
  | .windowsBlob => (rt, { file with windows := some rt.windows })
  | .payload document row =>
    (rt, { file with payloads := upsert file.payloads (scope, document) row })
  | .version window n object =>
    (rt, { file with versions := upsert file.versions (scope, window, n) object })
  | .instanceRow id row => (rt, { file with
      connectorInstances := upsert file.connectorInstances id (row.map fun v => (scope, v)) })
  | .tokenRow id row => (rt, { file with
      connectorTokens := upsert file.connectorTokens id (row.map fun v => (scope, v)) })
  | .memory kind value => ({ rt with memories := upsert rt.memories (scope, kind) value }, file)
  | .tenant documents => ({ rt with tenants := rt.tenants.insert scope ⟨scope, documents⟩ }, file)
  | .objects held => ({ rt with objects := rt.objects.insert scope held }, file)
  | .openWindow id windowStart windowEnd tier createdAt =>
    ({ rt with
      windows := rt.windows.openWindow
        ⟨⟨id, scope, windowStart, windowEnd, .pending, tier⟩, createdAt⟩ }, file)
  | .windowStatus id status => ({ rt with windows := rt.windows.setStatus id status }, file)
  | .removeWindows ids =>
    ({ rt with
      windows := rt.windows.removeWindows scope
        (ids.filter fun id => (rt.windows.listedFor scope).contains id) }, file)
  | .cooldown tier time =>
    ({ rt with cooldowns := rt.cooldowns.insert (scope, tier) time }, file)
  | .connectorInstance id value =>
    ({ rt with connectorInstances := rt.connectorInstances.insert id (scope, value) }, file)
  | .connector id value =>
    if (rt.connectorInstances.lookup id).isSome then
      ({ rt with connectors := rt.connectors.insert id value }, file)
    else (rt, file)
  | .token id value =>
    if (rt.connectorInstances.lookup id).isSome then
      ({ rt with tokenVault := upsert rt.tokenVault id value }, file)
    else (rt, file)

def runWrites (scope : ScopeId) (p : FfiRuntime V × StoreFile V) (writes : List (Write V)) :
    FfiRuntime V × StoreFile V :=
  writes.foldl (fun p w => w.run scope p.1 p.2) p

end

/-- A call that forgets, any other call by the scope it works on and what it comes to write there,
`remove_connector`, and the store being closed or opened. -/
inductive StoreEvent (V : Type) where
  | forget (id : String) (reads : Answer) (answers : ForgetAnswers)
  | forgetScope (scopeId : String) (answers : ForgetAnswers)
  | call (scope : ScopeId) (writes : List (Write V))
  | removeConnector (id : Uuid) (deleteInstance deleteToken : Answer)
  | closeStore
  | openStore (answers : OpenAnswers)

/-- The file, the runtime while it is open, and the scopes that a call has reported forgotten. -/
structure Session (V : Type) where
  file : StoreFile V
  live : Option (FfiRuntime V)
  reported : List ScopeId

namespace Session

section

variable {V : Type}

def forgets (parse : UuidParser) (t : Session V) : StoreEvent V → Option ScopeId
  | .forget id reads _ => (evidenceScope parse t.file id reads).toOption
  | .forgetScope scopeId _ => (parseScopeId parse scopeId).toOption
  | _ => none

def report (reported : List ScopeId) (scope : ScopeId) : Except FfiError Unit → List ScopeId
  | .ok _ => scope :: reported
  | .error _ => reported

def forgetOn (t : Session V) (scope : Except FfiError ScopeId) (a : ForgetAnswers) : Session V :=
  match t.live, scope with
  | some rt, .ok scope =>
    let out := forgetScopeState rt t.file scope a
    ⟨out.file, some out.runtime, report t.reported scope out.result⟩
  | _, _ => t

def removeConnector (t : Session V) (id : Uuid) (deleteInstance deleteToken : Answer) :
    Session V :=
  match t.live with
  | none => t
  | some rt =>
    let rt := { rt with
      connectorInstances := rt.connectorInstances.erase id
      connectors := rt.connectors.erase id
      tokenVault := rt.tokenVault.erase id }
    match deleteInstance with
    | .error _ => { t with live := some rt }
    | .ok _ =>
      let file := { t.file with connectorInstances := t.file.connectorInstances.erase id }
      match deleteToken with
      | .error _ => { t with file := file, live := some rt }
      | .ok _ => { t with
          file := { file with connectorTokens := file.connectorTokens.erase id }
          live := some rt }

def next (parse : UuidParser) (t : Session V) : StoreEvent V → Session V
  | .forget id reads a => t.forgetOn (evidenceScope parse t.file id reads) a
  | .forgetScope scopeId a => t.forgetOn (parseScopeId parse scopeId) a
  | .call scope writes =>
    match t.live with
    | none => t
    | some rt =>
      if rt.isScopeForgotten scope then t
      else
        let p := runWrites scope (rt, t.file) writes
        { t with file := p.2, live := some p.1 }
  | .removeConnector id deleteInstance deleteToken =>
    t.removeConnector id deleteInstance deleteToken
  | .closeStore => { t with live := none }
  | .openStore a =>
    match t.live with
    | some _ => t
    | none =>
      match openFile a t.file with
      | (file, .error _) => { t with file := file }
      | (file, .ok rt) => { t with file := file, live := some rt }

end

end Session

end Knowledge.Runtime
