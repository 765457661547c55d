import Knowledge.Replication.Lease
import Knowledge.Replication.Standby

/-!
Any number of `Auto` nodes over one lease store and one bus: the election loop of
`replication/failover.rs` cut at its await points, the role tasks it starts and stops,
the store underneath with its journal mode and WAL sidecar, and the writes the HTTP
layer lets through.
-/

set_option autoImplicit false

namespace Knowledge.Replication
open Knowledge.Splice Knowledge.Transition

inductive JournalMode where
  | delete
  | truncate
  | persist
  | memory
  | wal
  | off
  deriving DecidableEq

def JournalMode.name : JournalMode → String
  | delete => "delete"
  | truncate => "truncate"
  | persist => "persist"
  | memory => "memory"
  | wal => "wal"
  | off => "off"

/-- What a switch from one journal mode to another writes into the database file: SQLite
keeps the mode in the header on the first page. -/
abbrev HeaderStamp := JournalMode → JournalMode → Bytes → Bytes

structure Store where
  file : Bytes
  journal : JournalMode
  wal : Option (WalHeader × List WalFrame)

namespace Store

/-- `wal_checkpoint(TRUNCATE)`: the frames are folded into the main file in commit order,
as a standby splices them, and the sidecar is reset. -/
def checkpoint (store : Store) : Store :=
  match store.wal with
  | none => store
  | some (header, frames) =>
    { store with file := run 0 (spliceOps header.pageSize frames) store.file, wal := none }

/-- A committed transaction: appended to the sidecar in WAL mode, with a header of its own
when the sidecar is empty, and written to the main file otherwise. -/
def commit (store : Store) (header : WalHeader) (frames : List WalFrame) : Store :=
  if store.journal = .wal then
    match store.wal with
    | none => { store with wal := some (header, frames) }
    | some (h, fs) => { store with wal := some (h, fs ++ frames) }
  else { store with file := run 0 (spliceOps header.pageSize frames) store.file }

/-- `ffi::drain_wal`: the bytes of the sidecar, checkpointed under the same lock. -/
def drainWal (store : Store) : Bytes × Store :=
  match store.wal with
  | none => ([], store)
  | some (header, frames) => (walBytes header frames, store.checkpoint)

def enterMode (stamp : HeaderStamp) (store : Store) (mode : JournalMode) : Store :=
  { store with file := stamp store.journal mode store.file, journal := mode }

end Store

/-- What SQLite answers to the two pragmas of a journal switch: the one about checkpoints
may fail with a text, the one about the mode names the resulting mode. -/
structure Pragmas where
  checkpoint : Option String
  journal : Except String JournalMode

def ffiEvidence (message : String) : String := s!"evidence store failure: {message}"

def storeSetJournalWal (stamp : HeaderStamp) (store : Store) (p : Pragmas) :
    Except String JournalMode × Store :=
  match p.journal with
  | .error e => (.error (ffiEvidence s!"setting journal_mode=WAL: {e}"), store)
  | .ok mode =>
    match p.checkpoint with
    | some e =>
      (.error (ffiEvidence s!"disabling wal_autocheckpoint: {e}"), store.enterMode stamp mode)
    | none => (.ok mode, store.enterMode stamp mode)

def storeSetJournalRollback (stamp : HeaderStamp) (store : Store) (p : Pragmas) :
    Except String JournalMode × Store :=
  match p.checkpoint with
  | some e => (.error (ffiEvidence s!"checkpointing WAL: {e}"), store)
  | none =>
    match p.journal with
    | .error e => (.error (ffiEvidence s!"setting journal_mode=DELETE: {e}"), store.checkpoint)
    | .ok mode => (.ok mode, store.checkpoint.enterMode stamp mode)

def setStoreJournalFor (stamp : HeaderStamp) (store : Store) (role : Role) (p : Pragmas) :
    ReplResult Unit × Store :=
  match role with
  | .primary =>
    match storeSetJournalWal stamp store p with
    | (.error e, store) =>
      (.error (.misconfigured s!"switching store to journal_mode=WAL for primary role: {e}"), store)
    | (.ok mode, store) =>
      if mode ≠ .wal then
        (.error (.misconfigured (s!"PRAGMA journal_mode=WAL returned '{mode.name}' instead of " ++
          "'wal'; the primary cannot ship WAL frames without WAL mode")), store)
      else (.ok (), store)
  | .standby =>
    match storeSetJournalRollback stamp store p with
    | (.error e, store) =>
      (.error (.misconfigured s!"switching store to rollback journal for standby role: {e}"), store)
    | (.ok mode, store) =>
      if mode = .wal then
        (.error (.misconfigured (s!"PRAGMA journal_mode=DELETE returned '{mode.name}'; the " ++
          "standby cannot serve correct reads in WAL mode")), store)
      else (.ok (), store)
  | .disabled => (.ok (), store)

/-- The background task of a role, with the segment a primary has drained and not
published yet, or the place of a standby's subscription in the bus. -/
inductive RoleTask where
  | primary (shipper : WalShipper) (inflight : Option WalSegment)
  | standby (cursor : StandbyCursor) (next : Nat)
  deriving DecidableEq

def spawnRole : Role → Option RoleTask
  | .primary => some (.primary .new none)
  | .standby => some (.standby (.new true) 0)
  | .disabled => none

inductive Phase where
  | idle
  | elected (want : Role)
  | stopped (want : Role)
  | switched (effective : Role)
  | leaving (wasPrimary : Bool)
  | exited
  deriving DecidableEq

/-- A node: the process, its coordinator, the store and, for the record, the segments its
last standby task applied, those it published, the frames committed here in the role of
the primary, and the frames that left the sidecar without reaching the bus. -/
structure Node where
  up : Bool
  shared : ReplicationShared
  phase : Phase
  currentRole : Role
  task : Option RoleTask
  store : Store
  requests : Nat
  applied : List WalSegment
  published : List WalSegment
  committed : List WalFrame
  lost : List WalFrame

def Node.boot (file : Bytes) (journal : JournalMode) : Node :=
  ⟨true, .start .standby, .idle, .standby, spawnRole .standby, ⟨file, journal, none⟩, 0, [], [],
    [], []⟩

structure Effect (ι : Type) where
  lease : InMemoryLeaseStore ι
  bus : WalBus
  node : Node

/-- `spawn` refuses a store whose page size is not the expected one. -/
structure Config (ι : Type) where
  pageSize : UInt32
  pageSizeOk : PageSizeOk pageSize
  leaseTtlMs : ι → Nat
  stamp : HeaderStamp

inductive Event where
  | elect (answer : ReplResult Unit)
  | stop
  | switchJournal (first second : Pragmas)
  | setRole
  | shutdown
  | release (answer : ReplResult Unit)
  | exit
  | crash
  | request
  | write (header : WalHeader) (frames : List WalFrame)
  | drain
  | publish (answer : ReplResult Unit)
  | poll (io : ApplyIo)
  | lagTick

/-- A transaction SQLite can commit: pages of the store's size, numbered from one, with a
commit frame last. -/
def CommitOk (pageSize : UInt32) (header : WalHeader) (frames : List WalFrame) : Prop :=
  header.pageSize = pageSize ∧ frames ≠ [] ∧ committedFrames frames = frames ∧
    ∀ frame ∈ frames, frame.pageNumber ≠ 0 ∧ frame.pageData.length = pageSize.toNat

instance (pageSize : UInt32) (header : WalHeader) (frames : List WalFrame) :
    Decidable (CommitOk pageSize header frames) := inferInstanceAs (Decidable (_ ∧ _ ∧ _ ∧ _))

def Store.walFrames (store : Store) : List WalFrame := store.wal.elim [] Prod.snd

namespace Node

/-- `elect_once`: acquire or renew, and the role that follows. -/
def electOnce {ι : Type} [DecidableEq ι] (cfg : Config ι) (i : ι) (now : Int)
    (lease : InMemoryLeaseStore ι) (n : Node) (answer : ReplResult Unit) :
    ReplResult Role × InMemoryLeaseStore ι × ReplicationShared :=
  match answer with
  | .error e => (.error e, lease, n.shared)
  | .ok () =>
    let (l, store) := lease.acquire now i (cfg.leaseTtlMs i)
    (.ok (if l.holder = i then .primary else .standby), store, n.shared.setEpoch l.epoch)

def elect {ι : Type} [DecidableEq ι] (cfg : Config ι) (i : ι) (now : Int)
    (lease : InMemoryLeaseStore ι) (n : Node) (answer : ReplResult Unit) :
    InMemoryLeaseStore ι × Node :=
  if n.phase = .idle then
    match n.electOnce cfg i now lease answer with
    | (.error _, lease, shared) => (lease, { n with shared })
    | (.ok want, lease, shared) =>
      if want ≠ n.currentRole then (lease, { n with shared, phase := .elected want })
      else (lease, { n with shared })
  else (lease, n)

def busy (n : Node) : Bool :=
  match n.task with
  | some (.primary _ (some _)) => true
  | _ => false

def stop (n : Node) : Node :=
  match n.phase with
  | .elected want => if n.busy then n else { n with task := none, phase := .stopped want }
  | _ => n

def switchJournal (stamp : HeaderStamp) (n : Node) (first second : Pragmas) : Node :=
  match n.phase with
  | .stopped want =>
    let (effective, store) := match setStoreJournalFor stamp n.store want first with
      | (.ok (), store) => (want, store)
      | (.error _, store) => (Role.standby, (setStoreJournalFor stamp store .standby second).2)
    { n with
      store
      phase := .switched effective
      lost := n.lost ++ (if store.wal.isNone then n.store.walFrames else []) }
  | _ => n

def setRole (n : Node) : Node :=
  match n.phase with
  | .switched effective =>
    { n with
      shared := n.shared.setRole effective
      phase := .idle
      currentRole := effective
      task := spawnRole effective
      applied := if effective = .standby then [] else n.applied }
  | _ => n

def shutdown (n : Node) : Node :=
  if n.phase = .idle ∧ n.busy = false then
    match n.task with
    | some (.primary _ _) => { n with task := none, phase := .leaving true }
    | some (.standby _ _) => { n with task := none, phase := .leaving false }
    | none => { n with phase := .exited }
  else n

def release {ι : Type} [DecidableEq ι] (i : ι) (lease : InMemoryLeaseStore ι) (n : Node)
    (answer : ReplResult Unit) : InMemoryLeaseStore ι × Node :=
  match n.phase with
  | .leaving wasPrimary =>
    (if wasPrimary ∧ answer = .ok () then lease.release i else lease, { n with phase := .exited })
  | _ => (lease, n)

def exit (n : Node) : Node := if n.phase = .exited then { n with up := false } else n

/-- `guard_writable` admits a request; the write it asks for runs later. -/
def request (n : Node) : Node :=
  if ensureWritable n.shared = .ok () then { n with requests := n.requests+1 } else n

def write (pageSize : UInt32) (n : Node) (header : WalHeader) (frames : List WalFrame) : Node :=
  if 0 < n.requests ∧ CommitOk pageSize header frames then
    { n with
      store := n.store.commit header frames
      requests := n.requests-1
      committed := n.committed ++ (if n.shared.role = .primary then frames else [])
      lost := n.lost ++ (if n.store.journal = .wal then [] else frames) }
  else n

/-- A tick of the primary's loop up to `publish`: drain the sidecar and cut the segment. -/
def drain (n : Node) : Node :=
  match n.task with
  | some (.primary shipper none) =>
    match n.store.drainWal with
    | ([], _) => n
    | (bytes, store) =>
      match shipper.nextSegment bytes with
      | (.ok (some segment), shipper) => { n with task := some (.primary shipper (some segment)), store }
      | (_, shipper) =>
        { n with
          task := some (.primary shipper none)
          store
          lost := n.lost ++ n.store.walFrames }
  | _ => n

def publish (bus : WalBus) (n : Node) (answer : ReplResult Unit) : WalBus × Node :=
  match n.task with
  | some (.primary shipper (some segment)) =>
    match bus.publish segment answer with
    | (.ok (), bus) =>
      (bus, { n with
        shared := n.shared.setPublishedFramesTotal shipper.cumulativeFrames
        task := some (.primary shipper none)
        published := n.published ++ [segment] })
    | (.error _, bus) =>
      (bus, { n with
        task := some (.primary shipper none)
        lost := n.lost ++ segment.frames })
  | _ => (bus, n)

def replicator (n : Node) (cursor : StandbyCursor) : StandbyReplicator :=
  ⟨cursor, n.shared, n.store.file⟩

/-- A standby's loop takes the next segment off its subscription. An error is logged and
the segment is not seen again. -/
def poll (now : Int) (bus : WalBus) (n : Node) (io : ApplyIo) : Node :=
  match n.task with
  | some (.standby cursor next) =>
    match bus.log[next]? with
    | none => n
    | some segment =>
      let (result, standby) := (n.replicator cursor).applySegment now io segment
      { n with
        task := some (.standby standby.toStandbyCursor (next+1))
        shared := (standby.refreshLag bus.latestWatermark).shared
        store := { n.store with file := standby.file }
        applied := match result with
          | .ok (_+1) => n.applied ++ [segment]
          | _ => n.applied }
  | _ => n

def lagTick (bus : WalBus) (n : Node) : Node :=
  match n.task with
  | some (.standby cursor _) =>
    { n with shared := ((n.replicator cursor).refreshLag bus.latestWatermark).shared }
  | _ => n

def step {ι : Type} [DecidableEq ι] (cfg : Config ι) (i : ι) (now : Int)
    (lease : InMemoryLeaseStore ι) (bus : WalBus) (n : Node) : Event → Effect ι
  | .elect answer => ⟨(n.elect cfg i now lease answer).1, bus, (n.elect cfg i now lease answer).2⟩
  | .stop => ⟨lease, bus, n.stop⟩
  | .switchJournal first second => ⟨lease, bus, n.switchJournal cfg.stamp first second⟩
  | .setRole => ⟨lease, bus, n.setRole⟩
  | .shutdown => ⟨lease, bus, n.shutdown⟩
  | .release answer => ⟨(n.release i lease answer).1, bus, (n.release i lease answer).2⟩
  | .exit => ⟨lease, bus, n.exit⟩
  | .crash => ⟨lease, bus, { n with up := false }⟩
  | .request => ⟨lease, bus, n.request⟩
  | .write header frames => ⟨lease, bus, n.write cfg.pageSize header frames⟩
  | .drain => ⟨lease, bus, n.drain⟩
  | .publish answer => ⟨lease, (n.publish bus answer).1, (n.publish bus answer).2⟩
  | .poll io => ⟨lease, bus, n.poll now bus io⟩
  | .lagTick => ⟨lease, bus, n.lagTick bus⟩

end Node

structure Cluster (ι : Type) where
  now : Int
  lease : InMemoryLeaseStore ι
  bus : WalBus
  node : ι → Node

inductive ClusterAct (ι : Type) where
  | advance (ms : Nat)
  | node (i : ι) (event : Event)

namespace Cluster

def next {ι : Type} [DecidableEq ι] (cfg : Config ι) (s : Cluster ι) : ClusterAct ι → Cluster ι
  | .advance ms => { s with now := s.now+ms }
  | .node i event =>
    if (s.node i).up then
      let effect := (s.node i).step cfg i s.now s.lease s.bus event
      ⟨s.now, effect.lease, effect.bus, Function.update s.node i effect.node⟩
    else s

def boot {ι : Type} (now : Int) (file : ι → Bytes) (journal : ι → JournalMode) : Cluster ι :=
  ⟨now, .new, .new, fun i => .boot (file i) (journal i)⟩

def init {ι : Type} (file : ι → Bytes) (s : Cluster ι) : Prop :=
  ∃ now journal, (∀ i, journal i ≠ .wal) ∧ s = boot now file journal

def system {ι : Type} [DecidableEq ι] (cfg : Config ι) (file : ι → Bytes) :
    System (Cluster ι) (ClusterAct ι) :=
  .ofNext (init file) (fun _ _ => True) (next cfg)

end Cluster

end Knowledge.Replication
