import Knowledge.Evidence.Rotation
import Knowledge.Lib.Concurrent
import Knowledge.Runtime.Forget

/-!
`crates/ffi/src/connector.rs` and `webhook.rs`, with `sync.rs` and `token_vault.rs` of
`crates/connector_framework`. A call takes the runtime's lock to read what it needs, gives it back
to talk to the provider, and takes it again to write. The providers, the connector kinds and the
formatting of times are parameters.
-/

set_option autoImplicit false

namespace Knowledge.Runtime
open Knowledge.Sync (Uuid uuidText)
open Knowledge.Memory (ScopeId)
open Knowledge.Concurrent
open Knowledge.Transition

inductive ConnectorError where
  | auth (message : String)
  | tokenRefresh (message : String)
  | tokenNotFound
  | sync (message : String)
  | webhook (message : String)
  | duplicateConnector
  | connectorNotFound
  | duplicateAttachment
  | attachmentNotFound
  | permissionDenied
  | unsupportedObjectType
  | permission (message : String)
  | json (message : String)
  | transport (message : String)
  | unimplemented (message : String)

def ConnectorError.display : ConnectorError → String
  | auth message => "authentication failed: " ++ message
  | tokenRefresh message => "token refresh failed: " ++ message
  | tokenNotFound => "token vault entry not found"
  | sync message => "sync failed: " ++ message
  | webhook message => "webhook failure: " ++ message
  | duplicateConnector => "connector instance already exists"
  | connectorNotFound => "connector instance not found"
  | duplicateAttachment => "connector already attached for this source on the given scope"
  | attachmentNotFound => "attachment not found"
  | permissionDenied => "permission denied: subject lacks admin/editor on scope"
  | unsupportedObjectType => "unsupported object type for connector attachment"
  | permission message | json message => message
  | transport message => "http transport error: " ++ message
  | unimplemented message => "operation not implemented: " ++ message

namespace FfiError

def display : FfiError → String
  | unimplemented method => "method `" ++ method ++ "` is not implemented in this build"
  | invalidId message => "invalid identifier: " ++ message
  | invalidQuery message => "invalid query: " ++ message
  | notFound kind id => "not found: " ++ kind ++ "/" ++ id
  | evidence message => "evidence store failure: " ++ message
  | memory message => "memory manager failure: " ++ message
  | synthesis message => "synthesis pipeline failure: " ++ message
  | crypto message => "crypto failure: " ++ message
  | unavailable subsystem => "subsystem unavailable: " ++ subsystem
  | inferenceFailure message => "inference failure: " ++ message
  | connector message => "connector failure: " ++ message
  | throttled subsystem ms =>
    "subsystem `" ++ subsystem ++ "` throttled (retry after " ++ toString ms ++ " ms)"
  | modelDownloading pct => "SLM weights downloading (" ++ toString pct ++ "%)"

def ofConnector (e : ConnectorError) : FfiError := .connector e.display

end FfiError

structure RefreshedToken where
  accessToken : String
  refreshToken : Option String
  expiresAt : Int
  scope : Option String
  deriving DecidableEq

structure OAuth2Token where
  accessToken : String
  refreshToken : Option String
  expiresAt : Int
  scope : String
  tokenType : String
  deriving DecidableEq

namespace OAuth2Token

def isExpiringWithin (t : OAuth2Token) (now skew : Int) : Bool := now+skew ≥ t.expiresAt

def refreshed (t : OAuth2Token) (r : RefreshedToken) : OAuth2Token where
  accessToken := r.accessToken
  refreshToken := r.refreshToken.or t.refreshToken
  expiresAt := r.expiresAt
  scope := r.scope.getD t.scope
  tokenType := t.tokenType

end OAuth2Token

/-- A token with its descent: the place of its authentication among all that were acknowledged,
the token that one stored, and the refreshes since. -/
structure Lineage where
  serial : Nat
  granted : OAuth2Token
  refreshes : List RefreshedToken
  deriving DecidableEq

namespace Lineage

def token (l : Lineage) : OAuth2Token := l.refreshes.foldl OAuth2Token.refreshed l.granted

def refresh (l : Lineage) (r : RefreshedToken) : Lineage :=
  { l with refreshes := l.refreshes ++ [r] }

end Lineage

inductive SyncMode where
  | full
  | incremental
  deriving DecidableEq

inductive SyncStatus where
  | neverRun
  | inProgress
  | succeeded
  | failed
  deriving DecidableEq

structure SyncState where
  mode : SyncMode
  cursor : Option String
  lastSyncedAt : Option Int
  status : SyncStatus
  lastError : Option String

namespace SyncState

def new : SyncState := ⟨.full, none, none, .neverRun, none⟩

def markInProgress (s : SyncState) : SyncState :=
  { s with status := .inProgress, lastError := none }

def markSucceeded (_s : SyncState) (newCursor : Option String) (time : Int) : SyncState :=
  ⟨.incremental, newCursor, some time, .succeeded, none⟩

def markFailed (s : SyncState) (err : String) : SyncState :=
  { s with status := .failed, lastError := some err }

def canRunIncremental (s : SyncState) : Bool := s.mode = .incremental && s.cursor.isSome

end SyncState

structure ConnectorInstance (K : Type) where
  kind : K
  scopeId : ScopeId
  syncState : SyncState

/-- What an event says besides its document and its time is read by no call. -/
inductive ConnectorEvent where
  | documentCreated (documentId : String) (occurredAt : Int)
  | documentUpdated (documentId : String) (occurredAt : Int)
  | documentDeleted (documentId : String) (occurredAt : Int)
  | permissionChanged (documentId : String) (occurredAt : Int)
  deriving DecidableEq

structure EvidenceBody where
  kind : String
  documentId : String
  occurredAt : Int
  deriving DecidableEq

def eventToEvidenceBody : ConnectorEvent → Option EvidenceBody
  | .documentCreated documentId occurredAt => some ⟨"document_created", documentId, occurredAt⟩
  | .documentUpdated documentId occurredAt => some ⟨"document_updated", documentId, occurredAt⟩
  | .documentDeleted _ _ | .permissionChanged _ _ => none

structure SyncRunResult where
  events : List ConnectorEvent
  nextCursor : Option String
  deriving DecidableEq

/-- A row of the evidence store, with the instance on whose behalf it was ingested. -/
structure IngestedRow where
  instanceId : Uuid
  scopeId : ScopeId
  body : EvidenceBody
  sourceRef : String
  evidenceId : Uuid
  deriving DecidableEq

/-- What is remembered of a run, oldest first: the rows that were ingested, the instances whose
removal was acknowledged and the scopes that were forgotten. -/
inductive Mark where
  | ingested (row : IngestedRow)
  | removed (id : Uuid)
  | forgot (scope : ScopeId)
  deriving DecidableEq

/-- The connector maps of the runtime and their tables. The last three are ghosts: the identifiers
that were drawn or named, the authentications that were acknowledged, and the history. -/
structure Connectors (K : Type) where
  instances : Table Uuid (ConnectorInstance K)
  connectors : Table Uuid Unit
  tokenVault : Table Uuid Lineage
  instanceRows : Table Uuid (ConnectorInstance K)
  tokenRows : Table Uuid (ScopeId × Lineage)
  forgotten : List ScopeId
  oauthClient : Bool
  known : List Uuid
  acknowledged : List (Uuid × OAuth2Token)
  history : List Mark

/-- The `uuid` parser, the source tags of the connector kinds, and `{:?}` of an optional time. -/
structure Host (K : Type) where
  parse : UuidParser
  sourceTag : K → String
  timeText : Option Int → String

def Host.parseInstanceId {K : Type} (host : Host K) (s : String) : Except FfiError Uuid :=
  match host.parse s with
  | .error e => .error (.invalidId ("invalid connector instance id `" ++ s ++ "`: " ++ e))
  | .ok id => .ok id

def autoRefreshSkewSecs : Int := 60

inductive ConnectorCall where
  | authenticate (instanceId : String)
  | refresh (instanceId : String)
  | sync (instanceId : String) (startedAt : Int)
  | webhook (id : Uuid) (providerId : String)

structure SyncSnapshot (K : Type) where
  instanceId : Uuid
  display : String
  scope : ScopeId
  sourceKind : K
  mode : SyncMode
  syncState : SyncState
  token : Lineage
  startedAt : Int

/-- What `refresh_token_three_phase` works on, with the sync that asked for it, if one did. -/
structure RefreshJob (K : Type) where
  instanceId : Uuid
  display : String
  scope : ScopeId
  current : Lineage
  sync : Option (SyncSnapshot K)

structure WebhookSnapshot (K : Type) where
  instanceId : Uuid
  scope : ScopeId
  kind : K

structure SyncReport where
  instanceId : Uuid
  mode : SyncMode
  eventsTotal : Nat
  eventsIngested : Nat
  ingestedEvidenceIds : List Uuid
  nextCursor : Option String
  startedAt : Int
  completedAt : Int

inductive ConnectorResponse where
  | authenticated
  | refreshed (instanceId : Uuid) (refreshed : Bool) (expiresAt refreshedAt : Int)
  | synced (report : SyncReport)

/-- Where a call is: before its snapshot, at the provider, or about to write. -/
inductive ConnectorPhase (K : Type) where
  | called (id : Uuid)
  | exchanging (id : Uuid) (display : String)
  | granting (id : Uuid) (display : String) (token : OAuth2Token)
  | building (job : RefreshJob K)
  | refreshing (job : RefreshJob K)
  | storing (job : RefreshJob K) (answer : RefreshedToken)
  | dispatching (snap : SyncSnapshot K)
  | failing (snap : SyncSnapshot K) (message : String) (err : FfiError)
  | persisting (snap : SyncSnapshot K) (run : SyncRunResult)
  | handling (snap : WebhookSnapshot K)
  | delivering (snap : WebhookSnapshot K) (events : List ConnectorEvent)
  | returned (result : Except FfiError ConnectorResponse)
  | delivered (result : Except ConnectorError Nat)

/-- What the clock, the provider and the database answer to a step. A step reads what it asks for:
`ingests` by the number of the row, `savesFailed` for the row that records a failure. -/
structure Reply where
  now : Int
  exchange : Except ConnectorError OAuth2Token
  refresh : Except ConnectorError RefreshedToken
  sync : Except ConnectorError SyncRunResult
  events : Except ConnectorError (List ConnectorEvent)
  registers : Answer
  saves : Answer
  savesFailed : Answer
  ingests : Nat → Except String Uuid

namespace Connectors

section

variable {K : Type}

def isScopeForgotten (s : Connectors K) (scope : ScopeId) : Bool := s.forgotten.contains scope

def registered (s : Connectors K) (id : Uuid) : Bool := (s.instances.lookup id).isSome

def lookupConnectorHandle (s : Connectors K) (id : Uuid) (display : String) :
    Except FfiError Unit :=
  if (s.connectors.lookup id).isSome then .ok ()
  else if s.registered id then .error (.unavailable "connector")
  else .error (.notFound "connector" display)

def scopeNotFound (scope : ScopeId) : FfiError := .notFound "scope" (uuidText scope)

def putToken (s : Connectors K) (id : Uuid) (scope : ScopeId) (l : Lineage) : Connectors K :=
  { s with
    tokenRows := s.tokenRows.insert id (scope, l)
    tokenVault := s.tokenVault.insert id l }

def tokenNotSaved (e : String) : FfiError := .evidence ("save_connector_token failed: " ++ e)

def instanceNotSaved (e : String) : FfiError := .evidence ("save_connector_instance failed: " ++ e)

def authenticateSnapshot (s : Connectors K) (id : Uuid) (display : String) : ConnectorPhase K :=
  match s.lookupConnectorHandle id display with
  | .error e => .returned (.error e)
  | .ok _ =>
    if s.registered id then .exchanging id display
    else .returned (.error (.notFound "connector" display))

def storeGrant (s : Connectors K) (id : Uuid) (display : String) (token : OAuth2Token) (x : Reply) :
    Connectors K × ConnectorPhase K :=
  match s.instances.lookup id with
  | none => (s, .returned (.error (.notFound "connector" display)))
  | some inst =>
    if s.isScopeForgotten inst.scopeId then (s, .returned (.error (scopeNotFound inst.scopeId)))
    else
      match x.saves with
      | .error e => (s, .returned (.error (tokenNotSaved e)))
      | .ok _ =>
        ({ s.putToken id inst.scopeId ⟨s.acknowledged.length, token, []⟩ with
          acknowledged := s.acknowledged ++ [(id, token)] }, .returned (.ok .authenticated))

def noRefreshToken (display : String) : FfiError :=
  .connector ("cannot refresh connector token: no refresh_token stored for instance " ++ display ++
    " — re-authorisation required")

/-- A refresh that fails ends the call that asked for it; a sync records the failure first. -/
def refreshFails (job : RefreshJob K) (err : FfiError) : ConnectorPhase K :=
  match job.sync with
  | none => .returned (.error err)
  | some snap => .failing snap err.display err

def startRefresh (job : RefreshJob K) : ConnectorPhase K :=
  if job.current.token.refreshToken.isNone then refreshFails job (noRefreshToken job.display)
  else .building job

def refreshSnapshot (s : Connectors K) (id : Uuid) (display : String) : ConnectorPhase K :=
  match s.lookupConnectorHandle id display with
  | .error e => .returned (.error e)
  | .ok _ =>
    match s.instances.lookup id with
    | none => .returned (.error (.notFound "connector" display))
    | some inst =>
      if s.isScopeForgotten inst.scopeId then .returned (.error (scopeNotFound inst.scopeId))
      else
        match s.tokenVault.lookup id with
        | none => .returned (.error (.ofConnector .tokenNotFound))
        | some l => startRefresh ⟨id, display, inst.scopeId, l, none⟩

def refreshStored (job : RefreshJob K) (l : Lineage) (now : Int) : ConnectorPhase K :=
  match job.sync with
  | none => .returned (.ok (.refreshed job.instanceId true l.token.expiresAt now))
  | some snap => .dispatching { snap with token := l }

def storeRefreshed (s : Connectors K) (job : RefreshJob K) (answer : RefreshedToken) (x : Reply) :
    Connectors K × ConnectorPhase K :=
  if !s.registered job.instanceId then
    (s, refreshFails job (.notFound "connector" job.display))
  else if s.isScopeForgotten job.scope then (s, refreshFails job (scopeNotFound job.scope))
  else
    match x.saves with
    | .error e => (s, refreshFails job (tokenNotSaved e))
    | .ok _ =>
      (s.putToken job.instanceId job.scope (job.current.refresh answer),
        refreshStored job (job.current.refresh answer) x.now)

def alreadyInProgress (host : Host K) (display : String) (lastSyncedAt : Option Int) : FfiError :=
  .connector ("sync_connector: another sync is already in progress for connector instance " ++
    display ++ " (last_synced_at=" ++ host.timeText lastSyncedAt ++
    "); call remove_connector + create_connector to abandon a stuck sync")

def setSyncState (s : Connectors K) (id : Uuid) (inst : ConnectorInstance K) (state : SyncState) :
    Connectors K :=
  { s with instances := s.instances.insert id { inst with syncState := state } }

/-- A sync with its snapshot refreshes a token that is about to expire, and only then. -/
def startSync (snap : SyncSnapshot K) (now : Int) : ConnectorPhase K :=
  if snap.token.token.isExpiringWithin now autoRefreshSkewSecs then
    startRefresh ⟨snap.instanceId, snap.display, snap.scope, snap.token, some snap⟩
  else .dispatching snap

def syncSnapshot (host : Host K) (s : Connectors K) (id : Uuid) (display : String)
    (startedAt : Int) (x : Reply) : Connectors K × ConnectorPhase K :=
  match s.instances.lookup id with
  | none => (s, .returned (.error (.notFound "connector" display)))
  | some inst =>
    if inst.syncState.status = .inProgress then
      (s, .returned (.error (alreadyInProgress host display inst.syncState.lastSyncedAt)))
    else if s.isScopeForgotten inst.scopeId then
      (s, .returned (.error (scopeNotFound inst.scopeId)))
    else
      match x.registers.orEvidence with
      | .error e => (s, .returned (.error e))
      | .ok _ =>
        match s.tokenVault.lookup id with
        | none => (s, .returned (.error (.ofConnector .tokenNotFound)))
        | some l =>
          match s.lookupConnectorHandle id display with
          | .error e => (s, .returned (.error e))
          | .ok _ =>
            (s.setSyncState id inst inst.syncState.markInProgress,
              startSync ⟨id, display, inst.scopeId, inst.kind,
                if inst.syncState.canRunIncremental then .incremental else .full,
                inst.syncState, l, startedAt⟩ x.now)

def saveInstance (s : Connectors K) (id : Uuid) : Connectors K :=
  match s.instances.lookup id with
  | none => s
  | some inst => { s with instanceRows := s.instanceRows.insert id inst }

def failSync (s : Connectors K) (id : Uuid) (message : String) (saves : Answer) : Connectors K :=
  match s.instances.lookup id with
  | none => s
  | some inst =>
    let s := s.setSyncState id inst (inst.syncState.markFailed message)
    match saves with
    | .error _ => s
    | .ok _ => s.saveInstance id

end

def ingestEvents (id : Uuid) (scope : ScopeId) (tag : String) :
    List ConnectorEvent → (Nat → Except String Uuid) → List IngestedRow × Except String (List Uuid)
  | [], _ => ([], .ok [])
  | event :: rest, ingests =>
    match eventToEvidenceBody event with
    | none => ingestEvents id scope tag rest ingests
    | some body =>
      match ingests 0 with
      | .error e => ([], .error e)
      | .ok evidenceId =>
        let r := ingestEvents id scope tag rest fun n => ingests (n+1)
        (⟨id, scope, body, tag, evidenceId⟩ :: r.1, r.2.map (evidenceId :: ·))

section

variable {K : Type}

def ingest (s : Connectors K) (rows : List IngestedRow) : Connectors K :=
  { s with history := s.history ++ rows.map .ingested }

def persistSync (host : Host K) (s : Connectors K) (snap : SyncSnapshot K) (run : SyncRunResult)
    (x : Reply) : Connectors K × ConnectorPhase K :=
  let fail (s : Connectors K) (e : FfiError) : Connectors K × ConnectorPhase K :=
    (s.failSync snap.instanceId e.display x.savesFailed, .returned (.error e))
  match s.instances.lookup snap.instanceId with
  | none => fail s (.notFound "connector" snap.display)
  | some inst =>
    if s.isScopeForgotten snap.scope then fail s (scopeNotFound snap.scope)
    else
      let r := ingestEvents snap.instanceId snap.scope (host.sourceTag snap.sourceKind) run.events
        x.ingests
      let s := s.ingest r.1
      match r.2 with
      | .error e => fail s (.evidence e)
      | .ok ids =>
        let s := s.setSyncState snap.instanceId inst
          (inst.syncState.markSucceeded run.nextCursor x.now)
        match x.saves with
        | .error e => fail s (instanceNotSaved e)
        | .ok _ =>
          (s.saveInstance snap.instanceId,
            .returned (.ok (.synced ⟨snap.instanceId, snap.mode, run.events.length % 4294967296,
              ids.length % 4294967296, ids, run.nextCursor, snap.startedAt, x.now⟩)))

def webhookSnapshot (s : Connectors K) (id : Uuid) (providerId : String) : ConnectorPhase K :=
  let unbound (kind text : String) : ConnectorPhase K :=
    .delivered (.error (.webhook ("no live binding for provider_id=" ++ providerId ++ ": " ++
      kind ++ "=" ++ text ++ " not found")))
  match s.instances.lookup id with
  | none => unbound "connector_instance" (uuidText id)
  | some inst =>
    if s.isScopeForgotten inst.scopeId then unbound "scope" (uuidText inst.scopeId)
    else if (s.connectors.lookup id).isNone then
      .delivered (.error (.transport ("webhook dispatch Step 1 snapshot failed: " ++
        FfiError.display (.connector ("internal: connector instance " ++ uuidText id ++
          " missing from connectors map")))))
    else .handling ⟨id, inst.scopeId, inst.kind⟩

def persistFailed (e : FfiError) : ConnectorPhase K :=
  .delivered (.error (.transport ("webhook dispatch persist phase failed: " ++ e.display)))

def persistWebhook (host : Host K) (s : Connectors K) (snap : WebhookSnapshot K)
    (events : List ConnectorEvent) (x : Reply) : Connectors K × ConnectorPhase K :=
  if s.isScopeForgotten snap.scope then (s, .delivered (.ok 0))
  else
    match x.registers.orEvidence with
    | .error e => (s, persistFailed e)
    | .ok _ =>
      let r := ingestEvents snap.instanceId snap.scope (host.sourceTag snap.kind) events x.ingests
      match r.2 with
      | .error e => (s.ingest r.1, persistFailed (.evidence e))
      | .ok ids => (s.ingest r.1, .delivered (.ok ids.length))

/-- One step of a call, taken with the lock held or, where it only asks the provider, without. -/
def step (host : Host K) (s : Connectors K) (c : ConnectorCall) :
    ConnectorPhase K → Reply → Connectors K × ConnectorPhase K
  | .called id, x =>
    match c with
    | .authenticate display => (s, s.authenticateSnapshot id display)
    | .refresh display => (s, s.refreshSnapshot id display)
    | .sync display startedAt => s.syncSnapshot host id display startedAt x
    | .webhook _ providerId => (s, s.webhookSnapshot id providerId)
  | .exchanging id display, x =>
    match x.exchange with
    | .error e => (s, .returned (.error (.ofConnector e)))
    | .ok token => (s, .granting id display token)
  | .granting id display token, x => s.storeGrant id display token x
  | .building job, _ =>
    if s.oauthClient then (s, .refreshing job)
    else (s, refreshFails job (.unavailable "connector-http-client"))
  | .refreshing job, x =>
    match x.refresh with
    | .error e => (s, refreshFails job (.ofConnector e))
    | .ok answer => (s, .storing job answer)
  | .storing job answer, x => s.storeRefreshed job answer x
  | .dispatching snap, x =>
    match x.sync with
    | .error e => (s, .failing snap e.display (.ofConnector e))
    | .ok run => (s, .persisting snap run)
  | .failing snap message err, x =>
    (s.failSync snap.instanceId message x.savesFailed, .returned (.error err))
  | .persisting snap run, x => s.persistSync host snap run x
  | .handling snap, x =>
    match x.events with
    | .error e => (s, .delivered (.error e))
    | .ok events => (s, .delivering snap events)
  | .delivering snap events, x => s.persistWebhook host snap events x
  | phase, _ => (s, phase)

def first (host : Host K) : ConnectorCall → ConnectorPhase K
  | .authenticate display | .refresh display | .sync display _ =>
    match host.parseInstanceId display with
    | .error e => .returned (.error e)
    | .ok id => .called id
  | .webhook id _ => .called id

/-- `create_connector` with a fresh identifier. `config` is whether the configuration is JSON, and
`builds` what `build_connector` answers. -/
def createConnector (host : Host K) [DecidableEq K] (s : Connectors K) (kind : K)
    (scopeId : String) (config : Answer) (id : Uuid) (builds : Except FfiError Unit)
    (registers saves : Answer) : Connectors K × Except FfiError Uuid :=
  match parseScopeId host.parse scopeId with
  | .error e => (s, .error e)
  | .ok scope =>
    match config with
    | .error e => (s, .error (.connector ("invalid auth config JSON: " ++ e)))
    | .ok _ =>
      if s.isScopeForgotten scope then (s, .error (.notFound "scope" scopeId))
      else if s.instances.any fun _ inst => inst.scopeId = scope && inst.kind = kind then
        (s, .error (.ofConnector .duplicateConnector))
      else
        match builds with
        | .error e => (s, .error e)
        | .ok _ =>
          match registers.orEvidence with
          | .error e => (s, .error e)
          | .ok _ =>
            match saves with
            | .error e => (s, .error (instanceNotSaved e))
            | .ok _ =>
              ({ s with
                instanceRows := s.instanceRows.insert id ⟨kind, scope, .new⟩
                instances := s.instances.insert id ⟨kind, scope, .new⟩
                connectors := s.connectors.insert id ()
                known := id :: s.known }, .ok id)

def removeConnector (host : Host K) (s : Connectors K) (instanceId : String)
    (deleteInstance deleteToken : Answer) : Connectors K × Except FfiError Uuid :=
  match host.parseInstanceId instanceId with
  | .error e => (s, .error e)
  | .ok id =>
    let s := { s with
      instances := s.instances.erase id
      connectors := s.connectors.erase id
      tokenVault := s.tokenVault.erase id }
    match deleteInstance with
    | .error e => (s, .error (.evidence ("delete_connector_instance failed: " ++ e)))
    | .ok _ =>
      let s := { s with instanceRows := s.instanceRows.erase id }
      match deleteToken with
      | .error e => (s, .error (.evidence ("delete_connector_token failed: " ++ e)))
      | .ok _ => ({ s with tokenRows := s.tokenRows.erase id }, .ok id)

/-- What `forget_scope_state` does to the connectors once the scope's tombstone is written. -/
def forgetScope (s : Connectors K) (scope : ScopeId) (deleteInstances deleteTokens : Answer) :
    Connectors K :=
  let bound (id : Uuid) : Bool := (s.instances.lookup id).any fun inst => inst.scopeId = scope
  let s := { s with
    forgotten := scope :: s.forgotten
    instances := s.instances.filter fun _ inst => inst.scopeId ≠ scope
    connectors := s.connectors.filter fun id _ => !bound id
    tokenVault := s.tokenVault.filter fun id _ => !bound id }
  let s := match deleteInstances with
    | .error _ => s
    | .ok _ => { s with instanceRows := s.instanceRows.filter fun _ inst => inst.scopeId ≠ scope }
  match deleteTokens with
  | .error _ => s
  | .ok _ => { s with tokenRows := s.tokenRows.filter fun _ row => row.1 ≠ scope }

/-- `rehydrate_connectors`, when the store is opened again. A row of a forgotten scope is deleted,
and so is a token whose instance was not read back. -/
def rehydrate (s : Connectors K) (a : OpenAnswers) : Connectors K :=
  let s := { s with instances := ∅, connectors := ∅, tokenVault := ∅ }
  match a.loadInstances with
  | .error _ => s
  | .ok _ =>
    let instances := s.instanceRows.filter fun id inst =>
      !s.isScopeForgotten inst.scopeId && a.instanceLoads id
    let s := { s with
      instances := instances
      connectors := (instances.filter fun id _ => a.connects id).mapValues fun _ _ => ()
      instanceRows := s.instanceRows.filter fun id inst =>
        !s.isScopeForgotten inst.scopeId || a.deleteInstanceFails id }
    match a.loadTokens with
    | .error _ => s
    | .ok _ =>
      let owned (id : Uuid) (row : ScopeId × Lineage) : Bool :=
        !s.isScopeForgotten row.1 && (instances.lookup id).isSome
      { s with
        tokenVault := (s.tokenRows.filter fun id row =>
          owned id row && a.tokenLoads id).mapValues fun _ row => row.2
        tokenRows := s.tokenRows.filter fun id row => owned id row || a.deleteTokenFails id }

end

end Connectors

/-- The calls that hold the lock from their beginning to their end, and the store being closed and
opened again. -/
inductive ConnectorAct (K : Type) where
  | create (kind : K) (scopeId : String) (config : Answer) (id : Uuid)
    (builds : Except FfiError Unit) (registers saves : Answer)
  | remove (instanceId : String) (deleteInstance deleteToken : Answer)
  | forget (scope : ScopeId) (deleteInstances deleteTokens : Answer)
  | reopen (answers : OpenAnswers)

namespace Connectors

section

variable {K : Type} [DecidableEq K]

def act (host : Host K) (s : Connectors K) : ConnectorAct K → Connectors K
  | .create kind scopeId config id builds registers saves =>
    (s.createConnector host kind scopeId config id builds registers saves).1
  | .remove instanceId deleteInstance deleteToken =>
    match s.removeConnector host instanceId deleteInstance deleteToken with
    | (s, .error _) => s
    | (s, .ok id) => { s with known := id :: s.known, history := s.history ++ [.removed id] }
  | .forget scope deleteInstances deleteTokens =>
    let s := s.forgetScope scope deleteInstances deleteTokens
    { s with history := s.history ++ [.forgot scope] }
  | .reopen answers => s.rehydrate answers

end

end Connectors

def ConnectorPhase.finished {K : Type} : ConnectorPhase K → Bool
  | .returned _ | .delivered _ => true
  | _ => false

def connectorCode {K : Type} [DecidableEq K] (host : Host K) :
    Code (Connectors K) ConnectorCall (ConnectorPhase K) Reply (ConnectorAct K) where
  first := Connectors.first host
  step := Connectors.step host
  act := Connectors.act host

namespace Connectors

section

variable {K : Type} {s s' s'' : Connectors K}

theorem registered_of_lookup {id : Uuid} {inst : ConnectorInstance K}
    (h : s.instances.lookup id = some inst) : s.registered id = true := by
  rw [registered, h]
  rfl

theorem ingestEvents_mem {id : Uuid} {scope : ScopeId} {tag : String}
    {events : List ConnectorEvent} {ingests : Nat → Except String Uuid} {row : IngestedRow}
    (h : row ∈ (ingestEvents id scope tag events ingests).1) :
    row.instanceId = id ∧ row.scopeId = scope := by
  induction events generalizing ingests with
  | nil => simp [ingestEvents] at h
  | cons event rest ih =>
    simp only [ingestEvents] at h
    split at h
    · exact ih h
    · split at h
      · simp at h
      · obtain rfl | h := List.mem_cons.mp h
        · simp
        · exact ih h

theorem ingestEvents_bodiless {id : Uuid} {scope : ScopeId} {tag : String}
    {events : List ConnectorEvent} (ingests : Nat → Except String Uuid)
    (h : events.all fun event => (eventToEvidenceBody event).isNone) :
    (ingestEvents id scope tag events ingests).1 = [] := by
  induction events with
  | nil => rfl
  | cons event rest ih =>
    simp only [List.all_cons, Bool.and_eq_true, Option.isNone_iff_eq_none] at h
    simp only [ingestEvents, h.1]
    exact ih h.2

/-- Sync states and their rows may change, and rows may be ingested; nothing else does. -/
structure Tracks (s s' : Connectors K) (rows : List IngestedRow) : Prop where
  registered : ∀ id, s'.registered id = s.registered id
  rest : s' = { s with
    instances := s'.instances
    instanceRows := s'.instanceRows
    history := s.history ++ rows.map .ingested }

theorem Tracks.refl (s : Connectors K) : Tracks s s [] := by
  refine ⟨fun _ => rfl, ?_⟩
  simp

theorem Tracks.ingest (s : Connectors K) (rows : List IngestedRow) : Tracks s (s.ingest rows) rows :=
  ⟨fun _ => rfl, rfl⟩

theorem Tracks.trans {rows rows' : List IngestedRow} (h : Tracks s s' rows)
    (h' : Tracks s' s'' rows') : Tracks s s'' (rows ++ rows') := by
  refine ⟨fun id => (h'.registered id).trans (h.registered id), ?_⟩
  rw [h'.rest, h.rest]
  simp

theorem Tracks.setSyncState {id : Uuid} {inst : ConnectorInstance K} (state : SyncState)
    (h : s.instances.lookup id = some inst) : Tracks s (s.setSyncState id inst state) [] := by
  refine ⟨fun id' => ?_, by simp [Connectors.setSyncState]⟩
  simp only [Connectors.registered, Connectors.setSyncState, Table.lookup_insert_ite]
  split
  · rename_i hid
    subst hid
    simp [h]
  · rfl

theorem Tracks.saveInstance (s : Connectors K) (id : Uuid) : Tracks s (s.saveInstance id) [] := by
  unfold Connectors.saveInstance
  split
  · exact .refl s
  · exact ⟨fun _ => rfl, by simp⟩

theorem Tracks.failSync (s : Connectors K) (id : Uuid) (message : String) (saves : Answer) :
    Tracks s (s.failSync id message saves) [] := by
  unfold Connectors.failSync
  split
  · exact .refl s
  · rename_i inst hinst
    have hset := Tracks.setSyncState (inst.syncState.markFailed message) hinst
    cases saves with
    | error e => exact hset
    | ok => exact hset.trans (.saveInstance _ id)

/-- What a step can do, by the phase its call is in. -/
inductive Effect (s : Connectors K) (x : Reply) : ConnectorPhase K → Connectors K → Prop where
  | tracked {p : ConnectorPhase K} {s' : Connectors K} {rows : List IngestedRow}
    (hs : Tracks s s' rows) (hrows : ∀ row ∈ rows, s.registered row.instanceId = true ∧
      s.isScopeForgotten row.scopeId = false) : Effect s x p s'
  | granted {id : Uuid} {display : String} {token : OAuth2Token} (inst : ConnectorInstance K)
    (hinst : s.instances.lookup id = some inst) : Effect s x (.granting id display token)
      { s.putToken id inst.scopeId ⟨s.acknowledged.length, token, []⟩ with
        acknowledged := s.acknowledged ++ [(id, token)] }
  | refreshed {job : RefreshJob K} {answer : RefreshedToken}
    (hregistered : s.registered job.instanceId = true) (hsaves : x.saves.isOk = true) :
    Effect s x (.storing job answer)
      (s.putToken job.instanceId job.scope (job.current.refresh answer))
  | delivered {snap : WebhookSnapshot K} {events : List ConnectorEvent} {rows : List IngestedRow}
    (hforgotten : s.isScopeForgotten snap.scope = false)
    (hrows : ∀ row ∈ rows, row.instanceId = snap.instanceId ∧ row.scopeId = snap.scope)
    (hnone : (events.all fun event => (eventToEvidenceBody event).isNone) = true → rows = []) :
    Effect s x (.delivering snap events) (s.ingest rows)

theorem Effect.same {x : Reply} (p : ConnectorPhase K) : Effect s x p s :=
  .tracked (.refl s) (by simp)

theorem Effect.unlogged {x : Reply} {p : ConnectorPhase K} (h : Tracks s s' []) : Effect s x p s' :=
  .tracked h (by simp)

variable {host : Host K}

theorem storeGrant_effect (s : Connectors K) (id : Uuid) (display : String) (token : OAuth2Token)
    (x : Reply) : Effect s x (.granting id display token) (s.storeGrant id display token x).1 := by
  unfold storeGrant
  split
  · exact .same _
  · rename_i inst hinst
    split
    · exact .same _
    · split
      · exact .same _
      · exact .granted inst hinst

theorem storeRefreshed_effect (s : Connectors K) (job : RefreshJob K) (answer : RefreshedToken)
    (x : Reply) : Effect s x (.storing job answer) (s.storeRefreshed job answer x).1 := by
  unfold storeRefreshed
  split
  · exact .same _
  · rename_i hregistered
    split
    · exact .same _
    · split
      · exact .same _
      · rename_i hsaves
        exact .refreshed (by simpa using hregistered) (by rw [hsaves]; rfl)

theorem syncSnapshot_effect (s : Connectors K) (id : Uuid) (display : String) (startedAt : Int)
    (x : Reply) (p : ConnectorPhase K) :
    Effect s x p (s.syncSnapshot host id display startedAt x).1 := by
  unfold syncSnapshot
  split
  · exact .same _
  · rename_i inst hinst
    split
    · exact .same _
    split
    · exact .same _
    split
    · exact .same _
    split
    · exact .same _
    split
    · exact .same _
    · exact .unlogged (.setSyncState _ hinst)

theorem persistSync_effect (s : Connectors K) (snap : SyncSnapshot K) (run : SyncRunResult)
    (x : Reply) (p : ConnectorPhase K) : Effect s x p (s.persistSync host snap run x).1 := by
  unfold persistSync
  dsimp only
  split
  · exact .unlogged (.failSync _ _ _ _)
  · rename_i inst hinst
    split
    · exact .unlogged (.failSync _ _ _ _)
    · rename_i hforgotten
      have hrows : ∀ row ∈ (ingestEvents snap.instanceId snap.scope (host.sourceTag snap.sourceKind)
          run.events x.ingests).1, s.registered row.instanceId = true ∧
            s.isScopeForgotten row.scopeId = false := by
        intro row hrow
        obtain ⟨hid, hscope⟩ := ingestEvents_mem hrow
        rw [hid, hscope]
        exact ⟨registered_of_lookup hinst, by simpa using hforgotten⟩
      have hingest := Tracks.ingest s (ingestEvents snap.instanceId snap.scope
        (host.sourceTag snap.sourceKind) run.events x.ingests).1
      rw [← List.append_nil (ingestEvents _ _ _ _ _).1] at hrows
      split
      · exact .tracked (hingest.trans (.failSync _ _ _ _)) hrows
      · have hset := hingest.trans
          (.setSyncState (inst.syncState.markSucceeded run.nextCursor x.now) hinst)
        rw [← List.append_nil (_ ++ [])] at hrows
        split
        · exact .tracked (hset.trans (.failSync _ _ _ _)) hrows
        · exact .tracked (hset.trans (.saveInstance _ _)) hrows

theorem persistWebhook_effect (s : Connectors K) (snap : WebhookSnapshot K)
    (events : List ConnectorEvent) (x : Reply) :
    Effect s x (.delivering snap events) (s.persistWebhook host snap events x).1 := by
  unfold persistWebhook
  dsimp only
  split
  · exact .same _
  · rename_i hforgotten
    split
    · exact .same _
    · have heffect : Effect s x (.delivering snap events) (s.ingest (ingestEvents snap.instanceId
          snap.scope (host.sourceTag snap.kind) events x.ingests).1) :=
        .delivered (by simpa using hforgotten) (fun row hrow => ingestEvents_mem hrow)
          (ingestEvents_bodiless x.ingests)
      split <;> exact heffect

theorem step_effect (host : Host K) (s : Connectors K) (c : ConnectorCall) (p : ConnectorPhase K)
    (x : Reply) : Effect s x p (step host s c p x).1 := by
  cases p with
  | called id =>
    cases c with
    | sync display startedAt => exact syncSnapshot_effect s id display startedAt x _
    | _ => exact .same _
  | exchanging id display =>
    simp only [step]
    split <;> exact .same _
  | granting id display token => exact storeGrant_effect s id display token x
  | building job =>
    simp only [step]
    split <;> exact .same _
  | refreshing job =>
    simp only [step]
    split <;> exact .same _
  | storing job answer => exact storeRefreshed_effect s job answer x
  | dispatching snap =>
    simp only [step]
    split <;> exact .same _
  | failing snap message err => exact .unlogged (.failSync _ _ _ _)
  | persisting snap run => exact persistSync_effect s snap run x _
  | handling snap =>
    simp only [step]
    split <;> exact .same _
  | delivering snap events => exact persistWebhook_effect s snap events x
  | returned result => exact .same _
  | delivered result => exact .same _

end

end Connectors

def slackHost (parse : UuidParser) : Host Unit := ⟨parse, fun _ => "Slack", fun _ => "None"⟩

def Connectors.empty (K : Type) : Connectors K := ⟨∅, ∅, ∅, ∅, ∅, [], true, [], [], []⟩

def quietReply : Reply where
  now := 100
  exchange := .error (.auth "invalid_grant")
  refresh := .error (.tokenRefresh "invalid_grant")
  sync := .ok ⟨[], none⟩
  events := .ok []
  registers := .ok ()
  saves := .ok ()
  savesFailed := .ok ()
  ingests n := .ok (BitVec.ofNat 128 (n+1))

end Knowledge.Runtime
