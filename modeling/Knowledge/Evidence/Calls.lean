import Knowledge.Evidence.Bodies
import Knowledge.Evidence.Reads
import Knowledge.Lib.Transition

/-!
Runs of the evidence store: its calls, and beside the store a ledger of what callers were told
is written. Forgetting a scope is two calls, and anything may come between them.
-/

set_option autoImplicit false

namespace Knowledge.Evidence
open Knowledge.Cipher
open Knowledge.Sync (Uuid)
open Knowledge.Transition

abbrev AnyWrap := AnyRow (ScopeId × Ciphertext AeadKey)

inductive Op where
  | ingest (any : AnyWrap) (scope : ScopeId) (body : Bytes) (sourceRef : Option String)
      (importance : ImportanceClass) (languageTag : Option String) (now : Int)
  | ringBufferInsert (scope : ScopeId) (body : Bytes) (priority now : Int)
  | ringBufferReadWindow (scope : ScopeId) (now : Int)
  | readBody (id : EvidenceId)
  | saveMemoryBlob (scope : ScopeId) (kind : String) (plaintext : Bytes) (now : Int)
  | loadMemoryBlob (scope : ScopeId) (kind : String)
  | saveConnectorInstance (instanceId : Uuid) (scope : ScopeId) (kindTag : String)
      (plaintext : Bytes) (now : Int)
  | loadConnectorInstances
  | saveConnectorToken (instanceId : Uuid) (scope : ScopeId) (plaintext : Bytes) (now : Int)
  | loadConnectorTokens
  | saveApprovedDocumentPayload (any : AnyWrap) (scope : ScopeId) (documentId : Uuid)
      (plaintext : Bytes) (now : Int)
  | loadApprovedDocumentPayload (scope : ScopeId) (documentId : Uuid)
  | ensureScopeDek (scope : ScopeId) (now : Int)
  | deleteScopeDek (scope : ScopeId)
  | purgeBodyKeyWraps (scope : ScopeId)
  | reopen

structure Ledger where
  bodies : Table EvidenceId (ScopeId × Bytes)
  ring : Table Nat (ScopeId × Bytes)
  memory : Table (ScopeId × String) Bytes
  instances : Table Uuid (ScopeId × String × Bytes)
  tokens : Table Uuid (ScopeId × Bytes)
  approved : Table (ScopeId × Uuid) Bytes

def Ledger.empty : Ledger := ⟨∅, ∅, ∅, ∅, ∅, ∅⟩

/-- A store, its ledger, the scopes that have been forgotten, and those of them whose wraps are
still to be purged. -/
structure Books where
  store : EvidenceStore
  ledger : Ledger
  forgotten : List ScopeId
  half : List ScopeId

namespace Books

def live (b : Books) (scope : ScopeId) : Prop := scope ∉ b.forgotten

instance (b : Books) (scope : ScopeId) : Decidable (b.live scope) :=
  inferInstanceAs (Decidable (scope ∉ b.forgotten))

def after {α : Type} (b : Books) (reply : EvidenceStore × Except EvidenceError α)
    (ledger : Ledger) : Books :=
  { b with
    store := reply.1
    ledger := match reply.2 with | .ok _ => ledger | .error _ => b.ledger }

/-- Where an ingest is found again: in `evidence`, or in the ring under the newest id. -/
def ingested (b : Books) (scope : ScopeId) (body : Bytes)
    (reply : EvidenceStore × Except EvidenceError IngestResult) : Ledger :=
  match reply.2 with
  | .error _ => b.ledger
  | .ok result =>
    match result.storagePath with
    | .ringBuffer =>
      { b.ledger with ring := b.ledger.ring.insert reply.1.db.ringSequence (scope, body) }
    | _ => { b.ledger with bodies := b.ledger.bodies.insert result.evidenceId (scope, body) }

def next (b : Books) : Op → Books
  | .ingest any scope body sourceRef importance languageTag now =>
    let reply := b.store.ingestWithLanguage any scope body sourceRef importance languageTag now
    b.after reply (b.ingested scope body reply)
  | .ringBufferInsert scope body priority now =>
    let reply := b.store.ringBufferInsertWithPriority scope body priority now
    b.after reply
      { b.ledger with ring := b.ledger.ring.insert reply.1.db.ringSequence (scope, body) }
  | .ringBufferReadWindow scope now => { b with store := (b.store.ringBufferReadWindow scope now).1 }
  | .readBody id => { b with store := (b.store.readBody id).1 }
  | .saveMemoryBlob scope kind plaintext now =>
    b.after (b.store.saveMemoryBlob scope kind plaintext now)
      { b.ledger with memory := b.ledger.memory.insert (scope, kind) plaintext }
  | .loadMemoryBlob scope kind => { b with store := (b.store.loadMemoryBlob scope kind).1 }
  | .saveConnectorInstance instanceId scope kindTag plaintext now =>
    b.after (b.store.saveConnectorInstance instanceId scope kindTag plaintext now)
      { b.ledger with
        instances := b.ledger.instances.insert instanceId (scope, kindTag, plaintext) }
  | .loadConnectorInstances => { b with store := b.store.loadConnectorInstances.1 }
  | .saveConnectorToken instanceId scope plaintext now =>
    b.after (b.store.saveConnectorToken instanceId scope plaintext now)
      { b.ledger with tokens := b.ledger.tokens.insert instanceId (scope, plaintext) }
  | .loadConnectorTokens => { b with store := b.store.loadConnectorTokens.1 }
  | .saveApprovedDocumentPayload any scope documentId plaintext now =>
    b.after (b.store.saveApprovedDocumentPayload any scope documentId plaintext
        (contentHash plaintext) now)
      { b.ledger with approved := b.ledger.approved.insert (scope, documentId) plaintext }
  | .loadApprovedDocumentPayload scope documentId =>
    { b with store := (b.store.loadApprovedDocumentPayload scope documentId).1 }
  | .ensureScopeDek scope now => { b with store := (b.store.ensureScopeDek scope now).1 }
  | .deleteScopeDek scope =>
    { b with
      store := b.store.deleteScopeDek scope
      forgotten := scope :: b.forgotten
      half := scope :: b.half }
  | .purgeBodyKeyWraps scope =>
    { b with
      store := b.store.purgeBodyKeyWrapsForScope scope
      half := b.half.filter (· ≠ scope) }
  | .reopen => { b with store := b.store.reopen.1 }

def enabled (b : Books) : Op → Prop
  | .purgeBodyKeyWraps scope => scope ∈ b.forgotten
  | _ => True

def start (masterKey : MasterKey) (config : EvidenceStoreConfig) : Books :=
  ⟨⟨.empty, config, ∅, masterKey, 0⟩, .empty, [], []⟩

def system (masterKey : MasterKey) (config : EvidenceStoreConfig) : System Books Op :=
  .ofNext (· = start masterKey config) enabled next

end Books

def sampleConfig : EvidenceStoreConfig := ⟨4, 1024⟩

end Knowledge.Evidence
