import Knowledge.Runtime.Connectors

/-!
`crates/ffi/src/sync_scheduler.rs`: one worker wakes, reads which instances are due, syncs them one
by one and writes down when each is due again. It holds no lock between these steps. Instants are
nanoseconds; the log is kept for the statements.
-/

set_option autoImplicit false

namespace Knowledge.Runtime.SyncScheduler
open Knowledge.Sync (Uuid)
open Knowledge.Transition

abbrev ConnectorInstanceId := Uuid

abbrev Instant := Int

inductive PlatformHint where
  | desktop | mobile

structure SchedulePolicy where
  syncInterval : UInt64
  maxBackoff : UInt64
  autoSynthesize : Bool
  positive : 1 ≤ syncInterval.toNat
  capped : syncInterval.toNat ≤ maxBackoff.toNat

structure SchedulerConfig where
  defaultInterval : UInt64
  defaultMaxBackoff : UInt64
  tickInterval : UInt64
  platformHint : PlatformHint
  positive : 1 ≤ defaultInterval.toNat
  capped : defaultInterval.toNat ≤ defaultMaxBackoff.toNat
  ticks : 1 ≤ tickInterval.toNat

structure InstanceAccounting where
  consecutiveFailures : Nat
  nextAttemptAt : Option Instant
  deriving DecidableEq

def InstanceAccounting.default : InstanceAccounting := ⟨0, none⟩

def intervalMessage (name : String) : String :=
  name ++ " must be >= 1 (a zero interval would dispatch every tick regardless of upstream "
    ++ "pressure)"

def tickMessage (name : String) : String :=
  name ++ " must be >= 1 (a faster tick burns CPU without useful resolution improvement)"

def schedulerConfig (interval maxBackoff tick : UInt64) (platformHint : PlatformHint) :
    Except FfiError SchedulerConfig :=
  if hpositive : 1 ≤ interval.toNat then
    if hticks : 1 ≤ tick.toNat then
      if hcapped : interval.toNat ≤ maxBackoff.toNat then
        .ok ⟨interval, maxBackoff, tick, platformHint, hpositive, hcapped, hticks⟩
      else .error (.invalidId (s!"start_sync_scheduler: default_max_backoff_secs ({maxBackoff}) "
        ++ s!"must be >= default_interval_secs ({interval}) so the backoff cap actually engages "
        ++ "above the base interval"))
    else .error (.invalidId (tickMessage "tick_interval_secs"))
  else .error (.invalidId (intervalMessage "default_interval_secs"))

def schedulePolicy (interval maxBackoff : UInt64) (autoSynthesize : Bool) :
    Except FfiError SchedulePolicy :=
  if hpositive : 1 ≤ interval.toNat then
    if hcapped : interval.toNat ≤ maxBackoff.toNat then
      .ok ⟨interval, maxBackoff, autoSynthesize, hpositive, hcapped⟩
    else .error (.invalidId (s!"configure_sync_schedule: max_backoff_secs ({maxBackoff}) "
      ++ s!"must be >= sync_interval_secs ({interval})"))
  else .error (.invalidId (intervalMessage "sync_interval_secs"))

namespace SchedulePolicy

def fromDefaults (cfg : SchedulerConfig) : SchedulePolicy :=
  ⟨cfg.defaultInterval, cfg.defaultMaxBackoff, false, cfg.positive, cfg.capped⟩

def nextAttemptDelay (policy : SchedulePolicy) (consecutiveFailures : Nat) : Nat :=
  if consecutiveFailures = 0 then policy.syncInterval.toNat
  else
    let exp := min consecutiveFailures 30
    let candidate := min (policy.syncInterval.toNat * 2^exp) 18446744073709551615
    if candidate > policy.maxBackoff.toNat then policy.maxBackoff.toNat else candidate

theorem nextAttemptDelay_eq (policy : SchedulePolicy) (k : Nat) :
    policy.nextAttemptDelay k
      = min (policy.syncInterval.toNat * 2^(min k 30)) policy.maxBackoff.toNat := by
  have hcapped := policy.capped
  have hmax : policy.maxBackoff.toNat ≤ 18446744073709551615 := by
    have := policy.maxBackoff.toNat_lt
    omega
  unfold nextAttemptDelay
  split
  · rename_i hk
    subst hk
    simpa using hcapped
  · dsimp only
    split <;> omega

end SchedulePolicy

def nanosPerSec : Int := 1000000000

def fromStd (delay : Nat) : Option Int :=
  if delay ≤ 9223372036854775 then some (delay * nanosPerSec) else none

def maxUtc : Instant := 8210266876799 * nanosPerSec + 999999999

/-- An instant and a delay, zero in place of one that does not convert; `none` for the panic of an
addition that leaves the calendar. -/
def plusDelay (instant : Instant) (delay : Nat) : Option Instant :=
  let sum := instant + (fromStd delay).getD 0
  if sum ≤ maxUtc then some sum else none

theorem plusDelay_ge {instant next : Instant} {delay : Nat}
    (h : plusDelay instant delay = some next) (hfits : delay ≤ 9223372036854775) : instant + delay * nanosPerSec ≤ next := by
  simp only [plusDelay, fromStd, if_pos hfits, Option.getD_some] at h
  split at h
  · exact (Option.some.inj h).le
  · cases h

def nextAttemptAnchor (platformHint : PlatformHint) (batchAnchor freshNow : Instant) : Instant :=
  match platformHint with
  | .desktop => freshNow
  | .mobile => batchAnchor

structure InstanceRow where
  status : SyncStatus
  lastSyncedAt : Option Instant
  deriving DecidableEq

structure SchedulerState where
  policies : Table ConnectorInstanceId SchedulePolicy
  accounting : Table ConnectorInstanceId InstanceAccounting
  lastTickAt : Option Instant

open SchedulerState

namespace SchedulerState

def policyOf (state : SchedulerState) (config : SchedulerConfig) (id : ConnectorInstanceId) :
    SchedulePolicy := (state.policies.lookup id).getD (.fromDefaults config)

def accountingOf (state : SchedulerState) (id : ConnectorInstanceId) : InstanceAccounting :=
  (state.accounting.lookup id).getD .default

def isDue (state : SchedulerState) (config : SchedulerConfig) (now : Instant)
    (id : ConnectorInstanceId) (row : InstanceRow) : Option Bool :=
  if row.status = .inProgress then some false
  else
    let policy := state.policyOf config id
    let nextAttemptAt :=
      match (state.accountingOf id).nextAttemptAt, row.lastSyncedAt with
      | some at₀, _ => some at₀
      | none, none => some now
      | none, some at₀ => plusDelay at₀ policy.syncInterval.toNat
    nextAttemptAt.map fun next => decide (next ≤ now)

def dueInstances (state : SchedulerState) (config : SchedulerConfig) (now : Instant) :
    List (ConnectorInstanceId × InstanceRow) → Option (List ConnectorInstanceId)
  | [] => some []
  | (id, row) :: rest => do
    let due ← state.isDue config now id row
    let ids ← state.dueInstances config now rest
    return if due then id :: ids else ids

end SchedulerState

/-- Where the worker is in its pass: it waits for the next tick, has read the instances, has some
that are due before it, or waits for a sync. A panic ends it. -/
inductive Worker where
  | idle
  | scanning (now : Instant) (rows : List (ConnectorInstanceId × InstanceRow))
  | batch (anchor : Instant) (due : List ConnectorInstanceId)
  | running (anchor : Instant) (id : ConnectorInstanceId) (due : List ConnectorInstanceId)
  | dead

open Worker

def Worker.remaining (anchor : Instant) : List ConnectorInstanceId → Worker
  | [] => .idle
  | due => .batch anchor due

inductive Entry where
  | registered (id : ConnectorInstanceId)
  | pruned (id : ConnectorInstanceId)
  | configured (id : ConnectorInstanceId)
  | cleared (id : ConnectorInstanceId)
  | dispatched (id : ConnectorInstanceId) (anchor at₀ : Instant)
  | completed (id : ConnectorInstanceId) (policy : SchedulePolicy) (ok : Bool)

structure Scheduler where
  config : SchedulerConfig
  instances : Table ConnectorInstanceId InstanceRow
  state : SchedulerState
  worker : Worker
  clock : Instant
  log : List Entry

inductive Event where
  | register (id : ConnectorInstanceId) (row : InstanceRow)
  | sync (id : ConnectorInstanceId) (row : InstanceRow)
  | prune (id : ConnectorInstanceId)
  | configure (id : ConnectorInstanceId) (interval maxBackoff : UInt64)
  | autoSynthesize (id : ConnectorInstanceId) (enabled : Bool)
  | clear (id : ConnectorInstanceId)
  | tick (now : Instant) (rows : List (ConnectorInstanceId × InstanceRow))
  | scan (anchor : Instant)
  | dispatch (now : Instant)
  | complete (now : Instant) (ok : Bool)

namespace Scheduler

section

variable (s : Scheduler) (id : ConnectorInstanceId)

def register (row : InstanceRow) : Scheduler :=
  { s with instances := s.instances.insert id row, log := .registered id :: s.log }

def pruneInstance : Scheduler :=
  { s with
    instances := s.instances.erase id
    state := { s.state with
      policies := s.state.policies.erase id
      accounting := s.state.accounting.erase id }
    log := .pruned id :: s.log }

def priorAutoSynth : Bool :=
  ((s.state.policies.lookup id).map SchedulePolicy.autoSynthesize).getD false

def configureSyncSchedule (interval maxBackoff : UInt64) : Scheduler × Except FfiError Unit :=
  match schedulePolicy interval maxBackoff (s.priorAutoSynth id) with
  | .error err => (s, .error err)
  | .ok policy =>
    ({ s with
      state := { s.state with
        policies := s.state.policies.insert id policy
        accounting := s.state.accounting.insert id .default }
      log := .configured id :: s.log }, .ok ())

def configureSyncAutoSynthesize (enabled : Bool) :
    Scheduler :=
  let policy := { s.state.policyOf s.config id with autoSynthesize := enabled }
  { s with state := { s.state with policies := s.state.policies.insert id policy } }

def clearSyncSchedule : Scheduler :=
  let policies := s.state.policies.erase id
  let defaults := { SchedulePolicy.fromDefaults s.config with autoSynthesize := true }
  { s with
    state := { s.state with
      policies := if s.priorAutoSynth id then policies.insert id defaults else policies
      accounting := s.state.accounting.erase id }
    log := .cleared id :: s.log }

end

def scan (s : Scheduler) (now : Instant) (rows : List (ConnectorInstanceId × InstanceRow))
    (anchor : Instant) : Scheduler :=
  let s := { s with state := { s.state with lastTickAt := some now }, clock := anchor }
  match s.state.dueInstances s.config now rows with
  | none => { s with worker := .dead }
  | some due => { s with worker := .remaining anchor due }

/-- The third step of a pass: the result of a sync goes into the accounting of its instance, which
is made anew where there is none. -/
def record (s : Scheduler) (anchor : Instant) (id : ConnectorInstanceId)
    (due : List ConnectorInstanceId) (now : Instant) (ok : Bool) : Scheduler :=
  let dispatchCompletedAt := nextAttemptAnchor s.config.platformHint anchor now
  let policy := s.state.policyOf s.config id
  let entry := s.state.accountingOf id
  let failures := if ok then 0 else min (entry.consecutiveFailures+1) 4294967295
  match plusDelay dispatchCompletedAt (policy.nextAttemptDelay failures) with
  | none =>
    let accounting := s.state.accounting.insert id ⟨failures, entry.nextAttemptAt⟩
    { s with state := { s.state with accounting }, worker := .dead, clock := now }
  | some next =>
    let accounting := s.state.accounting.insert id ⟨failures, some next⟩
    { s with
      state := { s.state with accounting }
      worker := .remaining anchor due
      clock := now
      log := .completed id policy ok :: s.log }

def next (s : Scheduler) : Event → Scheduler
  | .register id row => s.register id row
  | .sync id row => { s with instances := s.instances.insert id row }
  | .prune id => s.pruneInstance id
  | .configure id interval maxBackoff => (s.configureSyncSchedule id interval maxBackoff).1
  | .autoSynthesize id enabled => s.configureSyncAutoSynthesize id enabled
  | .clear id => s.clearSyncSchedule id
  | .tick now rows => { s with worker := .scanning now rows, clock := now }
  | .scan anchor =>
    match s.worker with
    | .scanning now rows => s.scan now rows anchor
    | _ => s
  | .dispatch now =>
    match s.worker with
    | .batch anchor (id :: due) =>
      { s with worker := .running anchor id due, clock := now,
               log := .dispatched id anchor now :: s.log }
    | _ => s
  | .complete now ok =>
    match s.worker with
    | .running anchor id due => s.record anchor id due now ok
    | _ => s

/-- Time does not go back, and the worker takes its steps in their order. -/
def Guard (s : Scheduler) : Event → Prop
  | .register id _ => s.instances.lookup id = none
  | .sync id _ => s.instances.lookup id ≠ none
  | .tick now rows => s.clock ≤ now ∧ (s.worker matches .idle) ∧ rows.Perm s.instances.rows
  | .scan anchor => s.clock ≤ anchor ∧ (s.worker matches .scanning _ _)
  | .dispatch now => s.clock ≤ now ∧ (s.worker matches .batch _ (_ :: _))
  | .complete now _ => s.clock ≤ now ∧ (s.worker matches .running _ _ _)
  | _ => True

instance decidableGuard (s : Scheduler) : (a : Event) → Decidable (s.Guard a)
  | .register id _ => inferInstanceAs (Decidable (s.instances.lookup id = none))
  | .sync id _ => inferInstanceAs (Decidable (s.instances.lookup id ≠ none))
  | .tick now rows =>
    inferInstanceAs (Decidable (s.clock ≤ now ∧ (s.worker matches .idle) ∧
      rows.Perm s.instances.rows))
  | .scan anchor =>
    inferInstanceAs (Decidable (s.clock ≤ anchor ∧ (s.worker matches .scanning _ _)))
  | .dispatch now =>
    inferInstanceAs (Decidable (s.clock ≤ now ∧ (s.worker matches .batch _ (_ :: _))))
  | .complete now _ =>
    inferInstanceAs (Decidable (s.clock ≤ now ∧ (s.worker matches .running _ _ _)))
  | .prune _ | .configure _ _ _ | .autoSynthesize _ _ | .clear _ => isTrue trivial

def start (config : SchedulerConfig) (s : Scheduler) : Prop :=
  s.config = config ∧ s.state = ⟨∅, ∅, none⟩ ∧ (s.worker matches .idle) ∧ s.log = []

def system (config : SchedulerConfig) : System Scheduler Event := .ofNext (start config) Guard next

end Scheduler

/-- The latest dispatch of an instance that its accounting still stands for, and the policy that
held when it completed. -/
structure Last where
  anchor : Instant
  at₀ : Instant
  policy : Option SchedulePolicy

def last (id : ConnectorInstanceId) : List Entry → Option Last
  | [] => none
  | .pruned i :: older | .configured i :: older | .cleared i :: older =>
    if i = id then none else last id older
  | .dispatched i anchor at₀ :: older =>
    if i = id then some ⟨anchor, at₀, none⟩ else last id older
  | .completed i policy _ :: older =>
    if i = id then (last id older).map fun l => { l with policy := some policy } else last id older
  | .registered _ :: older => last id older

def failures (id : ConnectorInstanceId) : List Entry → Nat
  | [] => 0
  | .pruned i :: older | .configured i :: older | .cleared i :: older =>
    if i = id then 0 else failures id older
  | .completed i _ ok :: older =>
    if i = id then (if ok then 0 else failures id older+1) else failures id older
  | .registered _ :: older | .dispatched _ _ _ :: older => failures id older

def gone (id : ConnectorInstanceId) : List Entry → Bool
  | [] => false
  | .pruned i :: older => i == id || gone id older
  | .registered i :: older | .configured i :: older => i != id && gone id older
  | _ :: older => gone id older

/-- Where the wait of a dispatch begins: on a desktop with the dispatch itself, on a mobile with the
pass it was part of. -/
def Last.start (l : Last) : PlatformHint → Instant
  | .desktop => l.at₀
  | .mobile => l.anchor

def backoff (policy : SchedulePolicy) (k : Nat) : Nat :=
  min (policy.syncInterval.toNat * 2^(min k 30)) policy.maxBackoff.toNat

def longestDelay : Nat := 9223372036854775

def Waited (hint : PlatformHint) (l : Last) (k : Nat) (at₀ : Instant) : Prop :=
  ∃ policy, l.policy = some policy ∧ (policy.maxBackoff.toNat ≤ longestDelay →
    l.start hint + backoff policy k * nanosPerSec ≤ at₀)

/-- Each dispatch of the log, newest first, comes after the wait of the one before. -/
def Spaced (hint : PlatformHint) : List Entry → Prop
  | [] => True
  | .dispatched id _ at₀ :: older =>
    (∀ l, last id older = some l → Waited hint l (failures id older) at₀) ∧ Spaced hint older
  | _ :: older => Spaced hint older

namespace Worker

def due : Worker → List ConnectorInstanceId
  | .batch _ due | .running _ _ due => due
  | _ => []

def pass : Worker → List ConnectorInstanceId
  | .scanning _ rows => rows.map Prod.fst
  | .batch _ due => due
  | .running _ id due => id :: due
  | _ => []

section

variable (anchor : Instant) (due : List ConnectorInstanceId)

@[simp] theorem remaining_due :
    (remaining anchor due).due = due := by cases due <;> rfl

@[simp] theorem remaining_pass :
    (remaining anchor due).pass = due := by cases due <;> rfl

theorem remaining_not_running (a : Instant)
    (id : ConnectorInstanceId) (rest : List ConnectorInstanceId) :
    remaining anchor due ≠ .running a id rest := by cases due <;> simp [remaining]

end

end Worker

/-- What the accounting knows of the log while the worker lives. -/
structure Accounted (s : Scheduler) : Prop where
  counted : ∀ id, (s.state.accountingOf id).consecutiveFailures
    = min (failures id s.log) 4294967295
  running : ∀ id l, last id s.log = some l → l.policy = none →
    ∃ due, s.worker = .running l.anchor id due
  pending : ∀ anchor id due, s.worker = .running anchor id due → ∀ l, last id s.log = some l →
    l.policy = none
  started : ∀ id l, last id s.log = some l → l.at₀ ≤ s.clock
  waiting : ∀ id l policy, last id s.log = some l → l.policy = some policy →
    ∃ next, (s.state.accountingOf id).nextAttemptAt = some next ∧
      (policy.maxBackoff.toNat ≤ longestDelay →
        l.start s.config.platformHint + backoff policy (failures id s.log) * nanosPerSec ≤ next)
  due : ∀ id ∈ s.worker.due, ∀ next, (s.state.accountingOf id).nextAttemptAt = some next →
    next ≤ s.clock
  nodup : s.worker.pass.Nodup
  scanned : ∀ now rows, s.worker = .scanning now rows → now ≤ s.clock

namespace SchedulerState

theorem accountingOf_insert (state : SchedulerState)
    (policies : Table ConnectorInstanceId SchedulePolicy) (id i : ConnectorInstanceId)
    (entry : InstanceAccounting) :
    { state with policies, accounting := state.accounting.insert id entry }.accountingOf i
      = if i = id then entry else state.accountingOf i := by
  simp only [accountingOf, Table.lookup_insert_ite]
  split <;> rfl

theorem accountingOf_erase (state : SchedulerState)
    (policies : Table ConnectorInstanceId SchedulePolicy) (id i : ConnectorInstanceId) :
    { state with policies, accounting := state.accounting.erase id }.accountingOf i
      = if i = id then .default else state.accountingOf i := by
  simp only [accountingOf, Table.lookup_erase_ite]
  split <;> rfl

theorem dueInstances_sublist {state : SchedulerState} {config : SchedulerConfig} {now : Instant}
    {rows : List (ConnectorInstanceId × InstanceRow)} {due : List ConnectorInstanceId}
    (h : state.dueInstances config now rows = some due) : due.Sublist (rows.map Prod.fst) := by
  induction rows generalizing due with
  | nil =>
    obtain rfl := Option.some.inj h
    exact .refl []
  | cons e rest ih =>
    obtain ⟨id, row⟩ := e
    simp only [dueInstances, Option.bind_eq_bind, Option.bind_eq_some_iff] at h
    obtain ⟨ready, -, ids, hids, hdue⟩ := h
    obtain rfl := Option.some.inj hdue
    rw [List.map_cons]
    cases ready with
    | true => exact (ih hids).cons_cons id
    | false => exact (ih hids).cons id

theorem dueInstances_due {state : SchedulerState} {config : SchedulerConfig} {now : Instant}
    {rows : List (ConnectorInstanceId × InstanceRow)} {due : List ConnectorInstanceId}
    (h : state.dueInstances config now rows = some due) {id : ConnectorInstanceId} (hid : id ∈ due)
    {next : Instant} (hnext : (state.accountingOf id).nextAttemptAt = some next) : next ≤ now := by
  induction rows generalizing due with
  | nil =>
    obtain rfl := Option.some.inj h
    cases hid
  | cons e rest ih =>
    obtain ⟨head, row⟩ := e
    simp only [dueInstances, Option.bind_eq_bind, Option.bind_eq_some_iff] at h
    obtain ⟨ready, hready, ids, hids, hdue⟩ := h
    obtain rfl := Option.some.inj hdue
    cases ready with
    | false => exact ih hids hid
    | true =>
      obtain rfl | hin := List.mem_cons.mp hid
      · simp only [isDue, hnext] at hready
        split at hready
        · cases hready
        · simpa using hready
      · exact ih hids hin

end SchedulerState

section Steps

variable {s t : Scheduler}

theorem Accounted.same (h : Accounted s) (hconfig : t.config = s.config)
    (hworker : t.worker = s.worker) (hclock : t.clock = s.clock)
    (haccounting : ∀ id, t.state.accountingOf id = s.state.accountingOf id)
    (hlast : ∀ id, last id t.log = last id s.log)
    (hfailures : ∀ id, failures id t.log = failures id s.log) : Accounted t := by
  constructor <;> simp only [hconfig, hworker, hclock, haccounting, hlast, hfailures]
  exacts [h.counted, h.running, h.pending, h.started, h.waiting, h.due, h.nodup, h.scanned]

theorem Accounted.reset (h : Accounted s) (id : ConnectorInstanceId)
    (hconfig : t.config = s.config) (hworker : t.worker = s.worker) (hclock : t.clock = s.clock)
    (haccounting : ∀ i, t.state.accountingOf i
      = if i = id then .default else s.state.accountingOf i)
    (hlast : ∀ i, last i t.log = if id = i then none else last i s.log)
    (hfailures : ∀ i, failures i t.log = if id = i then 0 else failures i s.log) :
    Accounted t := by
  have hdefault : InstanceAccounting.default.nextAttemptAt = none := rfl
  constructor <;>
    simp only [hconfig, hworker, hclock, haccounting, hlast, hfailures]
  · intro i
    by_cases hi : i = id
    · simp [hi, InstanceAccounting.default]
    · rw [if_neg hi, if_neg (Ne.symm hi)]
      exact h.counted i
  · intro i l hl
    split at hl
    · cases hl
    · exact h.running i l hl
  · intro anchor i due hrunning l hl
    split at hl
    · cases hl
    · exact h.pending anchor i due hrunning l hl
  · intro i l hl
    split at hl
    · cases hl
    · exact h.started i l hl
  · intro i l policy hl
    split at hl
    · cases hl
    · rename_i hi
      rw [if_neg (Ne.symm hi), if_neg hi]
      exact h.waiting i l policy hl
  · intro i hi next hnext
    split at hnext
    · cases hnext
    · exact h.due i hi next hnext
  · exact h.nodup
  · exact h.scanned

theorem Accounted.tick (h : Accounted s) {now : Instant}
    {rows : List (ConnectorInstanceId × InstanceRow)} (hnow : s.clock ≤ now)
    (hidle : s.worker = .idle) (hrows : rows.Perm s.instances.rows) :
    Accounted { s with worker := .scanning now rows, clock := now } where
  counted := h.counted
  running id l hl hpolicy := by
    obtain ⟨due, hrunning⟩ := h.running id l hl hpolicy
    rw [hidle] at hrunning
    cases hrunning
  pending _ _ _ hrunning := nomatch hrunning
  started id l hl := (h.started id l hl).trans hnow
  waiting := h.waiting
  due _ hid := nomatch hid
  nodup := (hrows.map Prod.fst).nodup_iff.mpr (Table.keys_nodup_rows s.instances)
  scanned _ _ hscanning := by
    cases hscanning
    exact le_refl now

theorem Accounted.scan (h : Accounted s) {now anchor : Instant}
    {rows : List (ConnectorInstanceId × InstanceRow)} (hanchor : s.clock ≤ anchor)
    (hscanning : s.worker = .scanning now rows) {due : List ConnectorInstanceId}
    (hdue : { s.state with lastTickAt := some now }.dueInstances s.config now rows = some due) :
    Accounted { s with state := { s.state with lastTickAt := some now }, clock := anchor,
                       worker := .remaining anchor due } where
  counted := h.counted
  running id l hl hpolicy := by
    obtain ⟨due, hrunning⟩ := h.running id l hl hpolicy
    rw [hscanning] at hrunning
    cases hrunning
  pending a id rest hrunning := (remaining_not_running _ _ _ _ _ hrunning).elim
  started id l hl := (h.started id l hl).trans hanchor
  waiting := h.waiting
  due id hid next hnext := by
    rw [remaining_due] at hid
    have hnext := dueInstances_due hdue hid hnext
    exact (hnext.trans (h.scanned now rows hscanning)).trans hanchor
  nodup := by
    have hrows := h.nodup
    rw [hscanning] at hrows
    dsimp only
    rw [remaining_pass]
    exact (dueInstances_sublist hdue).nodup hrows
  scanned now' rows' hscan := by
    dsimp only at hscan
    cases due <;> simp [remaining] at hscan

theorem Accounted.dispatch (h : Accounted s) {anchor now : Instant} {id : ConnectorInstanceId}
    {due : List ConnectorInstanceId} (hnow : s.clock ≤ now)
    (hbatch : s.worker = .batch anchor (id :: due)) :
    Accounted { s with worker := .running anchor id due, clock := now,
                       log := .dispatched id anchor now :: s.log } where
  counted := h.counted
  running i l hl hpolicy := by
    simp only [last] at hl
    split at hl
    · rename_i hi
      obtain rfl := Option.some.inj hl
      exact ⟨due, by rw [hi]⟩
    · obtain ⟨rest, hrunning⟩ := h.running i l hl hpolicy
      rw [hbatch] at hrunning
      cases hrunning
  pending a i rest hrunning l hl := by
    obtain ⟨-, rfl, -⟩ := running.inj hrunning
    rw [last, if_pos rfl] at hl
    obtain rfl := Option.some.inj hl
    rfl
  started i l hl := by
    simp only [last] at hl
    split at hl
    · obtain rfl := Option.some.inj hl
      exact le_refl now
    · exact (h.started i l hl).trans hnow
  waiting i l policy hl hpolicy := by
    simp only [last] at hl
    split at hl
    · obtain rfl := Option.some.inj hl
      cases hpolicy
    · exact h.waiting i l policy hl hpolicy
  due i hi next hnext := by
    refine (h.due i ?_ next hnext).trans hnow
    rw [hbatch]
    exact List.mem_cons_of_mem id hi
  nodup := by
    have hpass := h.nodup
    rw [hbatch] at hpass
    exact hpass
  scanned _ _ hscanning := nomatch hscanning

theorem Accounted.waited (h : Accounted s) {anchor now : Instant} {id : ConnectorInstanceId}
    {due : List ConnectorInstanceId} (hnow : s.clock ≤ now)
    (hbatch : s.worker = .batch anchor (id :: due)) {l : Last} (hl : last id s.log = some l) :
    Waited s.config.platformHint l (failures id s.log) now := by
  cases hpolicy : l.policy with
  | none =>
    obtain ⟨rest, hrunning⟩ := h.running id l hl hpolicy
    rw [hbatch] at hrunning
    cases hrunning
  | some policy =>
    obtain ⟨next, hnext, hwait⟩ := h.waiting id l policy hl hpolicy
    have hdue : next ≤ s.clock := by
      refine h.due id ?_ next hnext
      rw [hbatch]
      exact List.mem_cons_self
    exact ⟨policy, hpolicy, fun hfits => (hwait hfits).trans (hdue.trans hnow)⟩

theorem backoff_min (policy : SchedulePolicy) (k : Nat) :
    backoff policy (min k 4294967295) = backoff policy k := by
  rw [backoff, backoff, min_assoc, min_eq_right (by decide : 30 ≤ 4294967295)]

theorem Accounted.failures_record (h : Accounted s) (id : ConnectorInstanceId)
    (policy : SchedulePolicy) (ok : Bool) :
    (if ok then 0 else min ((s.state.accountingOf id).consecutiveFailures+1) 4294967295)
      = min (failures id (.completed id policy ok :: s.log)) 4294967295 := by
  have hcounted := h.counted id
  rw [failures, if_pos rfl]
  cases ok <;> simp only [Bool.false_eq_true, if_false, if_true] <;> omega

theorem Accounted.record (h : Accounted s) {anchor now : Instant} {id : ConnectorInstanceId}
    {due : List ConnectorInstanceId} (hnow : s.clock ≤ now)
    (hrunning : s.worker = .running anchor id due) (ok : Bool) {k : Nat} {next : Instant}
    (hk : k = min (failures id (.completed id (s.state.policyOf s.config id) ok :: s.log))
      4294967295)
    (hnext : plusDelay (nextAttemptAnchor s.config.platformHint anchor now)
      ((s.state.policyOf s.config id).nextAttemptDelay k) = some next) :
    Accounted { s with
      state := { s.state with accounting := s.state.accounting.insert id ⟨k, some next⟩ }
      worker := .remaining anchor due
      clock := now
      log := .completed id (s.state.policyOf s.config id) ok :: s.log } := by
  have haccounting := accountingOf_insert s.state s.state.policies id
  constructor <;> simp only [haccounting]
  · intro i
    by_cases hi : i = id
    · rw [if_pos hi, hi, hk]
    · rw [if_neg hi, failures, if_neg (Ne.symm hi)]
      exact h.counted i
  · intro i l hl hpolicy
    simp only [last] at hl
    split at hl
    · obtain ⟨l', -, rfl⟩ := Option.map_eq_some_iff.mp hl
      cases hpolicy
    · rename_i hi
      obtain ⟨rest, hother⟩ := h.running i l hl hpolicy
      rw [hrunning] at hother
      exact absurd (running.inj hother).2.1 hi
  · intro a i rest hother
    exact (remaining_not_running _ _ _ _ _ hother).elim
  · intro i l hl
    simp only [last] at hl
    split at hl
    · rename_i hi
      obtain ⟨l', hl', rfl⟩ := Option.map_eq_some_iff.mp hl
      exact (h.started i l' hl').trans hnow
    · exact (h.started i l hl).trans hnow
  · intro i l policy hl hpolicy
    by_cases hi : i = id
    · subst hi
      rw [last, if_pos rfl] at hl
      obtain ⟨l', hl', rfl⟩ := Option.map_eq_some_iff.mp hl
      obtain rfl := Option.some.inj hpolicy
      refine ⟨next, by rw [if_pos rfl], fun hfits => ?_⟩
      -- the dispatch that completes is the one that the worker waits for
      obtain ⟨rest, hsame⟩ := h.running i l' hl' (h.pending anchor i due hrunning l' hl')
      rw [hrunning] at hsame
      obtain ⟨rfl, -, -⟩ := running.inj hsame
      have hstarted := h.started i l' hl'
      have hdelay : (s.state.policyOf s.config i).nextAttemptDelay k = backoff
          (s.state.policyOf s.config i)
          (failures i (.completed i (s.state.policyOf s.config i) ok :: s.log)) := by
        rw [SchedulePolicy.nextAttemptDelay_eq, hk]
        exact backoff_min _ _
      rw [hdelay] at hnext
      have hge := plusDelay_ge hnext ((min_le_right _ _).trans hfits)
      refine le_trans ?_ hge
      have hstart : l'.start s.config.platformHint
          ≤ nextAttemptAnchor s.config.platformHint l'.anchor now := by
        cases s.config.platformHint
        · exact hstarted.trans hnow
        · exact le_refl _
      exact Int.add_le_add_right hstart _
    · rw [last, if_neg (Ne.symm hi)] at hl
      rw [if_neg hi, failures, if_neg (Ne.symm hi)]
      exact h.waiting i l policy hl hpolicy
  · intro i hi next' hnext'
    rw [remaining_due] at hi
    have hpass := h.nodup
    rw [hrunning, Worker.pass, List.nodup_cons] at hpass
    rw [if_neg fun heq : i = id => hpass.1 (heq ▸ hi)] at hnext'
    refine (h.due i ?_ next' hnext').trans hnow
    rw [hrunning]
    exact hi
  · have hpass := h.nodup
    rw [hrunning, Worker.pass, List.nodup_cons] at hpass
    rw [remaining_pass]
    exact hpass.2
  · intro now' rows hscan
    cases due <;> simp [remaining] at hscan

end Steps

open Scheduler

structure Sound (config : SchedulerConfig) (s : Scheduler) : Prop where
  configured : s.config = config
  spaced : Spaced config.platformHint s.log
  accounted : s.worker ≠ .dead → Accounted s

section

variable {config : SchedulerConfig} {s : Scheduler}

theorem accounted_start (h : start config s) :
    Accounted s := by
  obtain ⟨-, hstate, hidle, hlog⟩ := h
  have hworker : s.worker.pass = [] ∧ s.worker.due = [] ∧
      ∀ now rows, s.worker ≠ .scanning now rows := by
    cases hw : s.worker <;> simp_all [Worker.pass, due]
  constructor <;> simp [hstate, hlog, hworker, last, failures, accountingOf,
    InstanceAccounting.default]

theorem Sound.complete (h : Sound config s)
    {anchor now : Instant} {id : ConnectorInstanceId} {due : List ConnectorInstanceId}
    (hnow : s.clock ≤ now) (hrunning : s.worker = .running anchor id due) (ok : Bool) :
    Sound config (s.record anchor id due now ok) := by
  have haccounted := h.accounted (by simp [hrunning])
  have hk := haccounted.failures_record id (s.state.policyOf s.config id) ok
  unfold record
  dsimp only
  split
  · exact ⟨h.configured, h.spaced, fun hdead => (hdead rfl).elim⟩
  · rename_i next hnext
    exact ⟨h.configured, h.spaced, fun _ => haccounted.record hnow hrunning ok hk hnext⟩

theorem sound_of_reachable (h : (system config).Reachable s) : Sound config s := by
  refine h.invariant (Sound config) (fun s hs => ?_) fun s a t _ hs ht => ?_
  · refine ⟨hs.1, ?_, fun _ => accounted_start hs⟩
    rw [hs.2.2.2]
    trivial
  obtain ⟨hconfig, hspaced, haccounted⟩ := hs
  obtain ⟨hguard, rfl⟩ := ht
  cases a with
  | register id row =>
    exact ⟨hconfig, hspaced, fun hw =>
      (haccounted hw).same rfl rfl rfl (fun _ => rfl) (fun _ => rfl) fun _ => rfl⟩
  | sync id row =>
    exact ⟨hconfig, hspaced, fun hw =>
      (haccounted hw).same rfl rfl rfl (fun _ => rfl) (fun _ => rfl) fun _ => rfl⟩
  | prune id =>
    exact ⟨hconfig, hspaced, fun hw => (haccounted hw).reset id rfl rfl rfl
      (s.state.accountingOf_erase _ id) (fun _ => rfl) fun _ => rfl⟩
  | configure id interval maxBackoff =>
    simp only [next, configureSyncSchedule]
    split
    · exact ⟨hconfig, hspaced, haccounted⟩
    · exact ⟨hconfig, hspaced, fun hw => (haccounted hw).reset id rfl rfl rfl
        (fun i => s.state.accountingOf_insert _ id i _) (fun _ => rfl) fun _ => rfl⟩
  | autoSynthesize id enabled =>
    exact ⟨hconfig, hspaced, fun hw =>
      (haccounted hw).same rfl rfl rfl (fun _ => rfl) (fun _ => rfl) fun _ => rfl⟩
  | clear id =>
    exact ⟨hconfig, hspaced, fun hw => (haccounted hw).reset id rfl rfl rfl
      (s.state.accountingOf_erase _ id) (fun _ => rfl) fun _ => rfl⟩
  | tick now rows =>
    obtain ⟨hnow, hidle, hrows⟩ := hguard
    cases hw : s.worker with
    | idle => exact ⟨hconfig, hspaced, fun _ => (haccounted (by simp [hw])).tick hnow hw hrows⟩
    | _ => simp [hw] at hidle
  | scan anchor =>
    obtain ⟨hanchor, hscanning⟩ := hguard
    cases hw : s.worker with
    | scanning now rows =>
      simp only [next, hw, scan]
      split
      · exact ⟨hconfig, hspaced, fun hdead => (hdead rfl).elim⟩
      · rename_i due hdue
        exact ⟨hconfig, hspaced, fun _ => (haccounted (by simp [hw])).scan hanchor hw hdue⟩
    | _ => simp [hw] at hscanning
  | dispatch now =>
    obtain ⟨hnow, hbatch⟩ := hguard
    cases hw : s.worker with
    | batch anchor due =>
      cases due with
      | nil => simp [hw] at hbatch
      | cons id due =>
        have hlive := haccounted (by simp [hw])
        simp only [next, hw]
        refine ⟨hconfig, ⟨fun l hl => ?_, hspaced⟩, fun _ => hlive.dispatch hnow hw⟩
        rw [← hconfig]
        exact hlive.waited hnow hw hl
    | _ => simp [hw] at hbatch
  | complete now ok =>
    obtain ⟨hnow, hrunning⟩ := hguard
    cases hw : s.worker with
    | running anchor id due =>
      simp only [next, hw]
      exact Sound.complete ⟨hconfig, hspaced, haccounted⟩ hnow hw ok
    | _ => simp [hw] at hrunning

end

/-- No pass under way has read the instance. -/
def PrunedOutsidePass (s : Scheduler) : Event → Prop
  | .prune id => id ∉ s.worker.pass
  | _ => True

instance (s : Scheduler) : (a : Event) → Decidable (PrunedOutsidePass s a)
  | .prune id => inferInstanceAs (Decidable (id ∉ s.worker.pass))
  | .register _ _ | .sync _ _ | .configure _ _ _ | .autoSynthesize _ _ | .clear _ | .tick _ _
  | .scan _ | .dispatch _ | .complete _ _ => isTrue trivial

structure Swept (s : Scheduler) : Prop where
  accounting : ∀ id, gone id s.log = true → s.state.accounting.lookup id = none
  instances : ∀ id, gone id s.log = true → s.instances.lookup id = none
  pass : ∀ id, gone id s.log = true → id ∉ s.worker.pass

theorem Swept.complete {s : Scheduler} (h : Swept s) {anchor now : Instant}
    {id : ConnectorInstanceId} {due : List ConnectorInstanceId}
    (hrunning : s.worker = .running anchor id due) (ok : Bool) :
    Swept (s.record anchor id due now ok) := by
  have hpass := h.pass
  rw [hrunning] at hpass
  have hlookup : ∀ (entry : InstanceAccounting) i, gone i s.log = true →
      (s.state.accounting.insert id entry).lookup i = none := by
    intro entry i hi
    rw [Table.lookup_insert_ite, if_neg fun heq : i = id => hpass i hi (heq ▸ List.mem_cons_self)]
    exact h.accounting i hi
  unfold record
  dsimp only
  split
  · exact ⟨hlookup _, h.instances, fun i _ => List.not_mem_nil⟩
  · refine ⟨hlookup _, h.instances, fun i hi hin => ?_⟩
    rw [remaining_pass] at hin
    exact hpass i hi (List.mem_cons_of_mem id hin)

theorem swept_of_reachable {config : SchedulerConfig} {s : Scheduler}
    (h : ((system config).restrict PrunedOutsidePass).Reachable s) : Swept s := by
  refine h.invariant Swept (fun s hs => ?_) fun s a t _ hs ht => ?_
  · obtain ⟨-, -, -, hlog⟩ := hs
    constructor <;> simp [hlog, gone]
  obtain ⟨⟨hguard, rfl⟩, hcond⟩ := ht
  obtain ⟨haccounting, hinstances, hpass⟩ := hs
  cases a with
  | register id row =>
    simp only [next, register]
    constructor <;> intro i hi <;> simp only [gone, Bool.and_eq_true, bne_iff_ne] at hi
    · exact haccounting i hi.2
    · rw [AList.lookup_insert_ne hi.1.symm]
      exact hinstances i hi.2
    · exact hpass i hi.2
  | sync id row =>
    refine ⟨haccounting, fun i hi => ?_, hpass⟩
    have hne : i ≠ id := by
      rintro rfl
      exact hguard (hinstances i hi)
    exact (AList.lookup_insert_ne hne).trans (hinstances i hi)
  | prune id =>
    simp only [next, pruneInstance]
    constructor <;> intro i hi <;> simp only [gone, Bool.or_eq_true, beq_iff_eq] at hi
    · rw [Table.lookup_erase_ite]
      obtain rfl | hi := hi
      · exact if_pos rfl
      · rw [haccounting i hi, ite_self]
    · rw [Table.lookup_erase_ite]
      obtain rfl | hi := hi
      · exact if_pos rfl
      · rw [hinstances i hi, ite_self]
    · obtain rfl | hi := hi
      · exact hcond
      · exact hpass i hi
  | configure id interval maxBackoff =>
    simp only [next, configureSyncSchedule]
    split
    · exact ⟨haccounting, hinstances, hpass⟩
    · constructor <;> intro i hi <;> simp only [gone, Bool.and_eq_true, bne_iff_ne] at hi
      · rw [AList.lookup_insert_ne hi.1.symm]
        exact haccounting i hi.2
      · exact hinstances i hi.2
      · exact hpass i hi.2
  | autoSynthesize id enabled => exact ⟨haccounting, hinstances, hpass⟩
  | clear id =>
    refine ⟨fun i hi => ?_, hinstances, hpass⟩
    simp only [next, clearSyncSchedule, Table.lookup_erase_ite]
    rw [haccounting i hi, ite_self]
  | tick now rows =>
    obtain ⟨-, -, hrows⟩ := hguard
    refine ⟨haccounting, hinstances, fun i hi hin => ?_⟩
    obtain ⟨e, he, rfl⟩ := List.mem_map.mp hin
    have hrow := Table.mem_rows_iff.mp (hrows.mem_iff.mp he)
    rw [hinstances e.1 hi] at hrow
    cases hrow
  | scan anchor =>
    cases hw : s.worker with
    | scanning now rows =>
      simp only [next, hw, scan]
      split
      · exact ⟨haccounting, hinstances, fun i _ => List.not_mem_nil⟩
      · rename_i due hdue
        refine ⟨haccounting, hinstances, fun i hi hin => ?_⟩
        rw [remaining_pass] at hin
        rw [hw] at hpass
        exact hpass i hi ((dueInstances_sublist hdue).subset hin)
    | _ => simpa only [next, hw] using ⟨haccounting, hinstances, hpass⟩
  | dispatch now =>
    cases hw : s.worker with
    | batch anchor due =>
      cases due with
      | nil => simpa only [next, hw] using ⟨haccounting, hinstances, hpass⟩
      | cons id due =>
        simp only [next, hw]
        rw [hw] at hpass
        exact ⟨haccounting, hinstances, hpass⟩
    | _ => simpa only [next, hw] using ⟨haccounting, hinstances, hpass⟩
  | complete now ok =>
    cases hw : s.worker with
    | running anchor id due =>
      simp only [next, hw]
      exact Swept.complete ⟨haccounting, hinstances, hpass⟩ hw ok
    | _ => simpa only [next, hw] using ⟨haccounting, hinstances, hpass⟩

def emptyScheduler (config : SchedulerConfig) : Scheduler :=
  ⟨config, ∅, ⟨∅, ∅, none⟩, .idle, 0, []⟩

def dispatches (id : ConnectorInstanceId) (log : List Entry) : List Instant :=
  log.filterMap fun e =>
    match e with
    | .dispatched i _ at₀ => if i = id then some at₀ else none
    | _ => none

def minuteConfig (hint : PlatformHint) : SchedulerConfig :=
  ⟨60, 3600, 30, hint, by decide, by decide, by decide⟩

def freshRow : InstanceRow := ⟨.neverRun, none⟩

def seconds (n : Int) : Instant := n * nanosPerSec

def onePass (id : ConnectorInstanceId) (at₀ : Int) (ok : Bool) : List Event :=
  [.tick (seconds at₀) [(id, freshRow)], .scan (seconds at₀), .dispatch (seconds at₀),
    .complete (seconds at₀) ok]

/-- The second instance waits fifty seconds for the first one, and is dispatched again ten seconds
after its dispatch. -/
def mobileRun : List Event :=
  [.register 1 freshRow, .register 2 freshRow,
    .tick 0 [(1, freshRow), (2, freshRow)], .scan 0, .dispatch 0,
    .complete (seconds 50) true, .dispatch (seconds 50), .complete (seconds 55) true,
    .tick (seconds 60) [(2, freshRow), (1, freshRow)], .scan (seconds 60), .dispatch (seconds 60)]

def doublingConfig : SchedulerConfig :=
  ⟨1, 1000000000000, 1, .desktop, by decide, by decide, by decide⟩

def failingRun : List Event :=
  .register 1 freshRow :: (List.range 32).flatMap fun k =>
    onePass 1 (if k ≤ 30 then ((1 <<< (k+1) : Nat) : Int)-2 else 3221225470) false

def endlessConfig (interval : UInt64) (hpositive : 1 ≤ interval.toNat) : SchedulerConfig :=
  ⟨interval, 18446744073709551615, 1, .desktop, hpositive,
    Nat.le_of_lt_succ interval.toNat_lt, by decide⟩

def repeatedRun : List Event := .register 1 freshRow :: (onePass 1 0 true ++ onePass 1 2 true)

def prunedRun : List Event :=
  [.register 1 freshRow, .tick 0 [(1, freshRow)], .scan 0, .dispatch 0, .prune 1, .complete 0 false]

def renewedRun : List Event :=
  .register 1 freshRow :: onePass 1 0 true ++ [.prune 1, .register 1 freshRow] ++ onePass 1 30 true

def sampleEvents : List Event :=
  .register 1 freshRow :: onePass 1 0 false ++ onePass 1 120 true ++ [.prune 1]

end Knowledge.Runtime.SyncScheduler
