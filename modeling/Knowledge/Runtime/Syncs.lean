import Knowledge.Runtime.Ingestion

/-!
`sync_connector` over a source whose events only grow in number. A run ingests its events one by
one, moves the cursor in memory, and then writes it; a run that fails leaves the cursor where it
was, and whatever it has ingested by then.
-/

set_option autoImplicit false

namespace Knowledge.Runtime
open Knowledge.Sync (Uuid)
open Knowledge.Memory (ScopeId)
open Knowledge.Concurrent
open Knowledge.Transition
open Connectors

structure Cursors where
  render : Nat → String
  read : String → Nat
  read_render : ∀ n, read (render n) = n

def Cursors.position (cursors : Cursors) : Option String → Nat
  | none => 0
  | some cursor => cursors.read cursor

structure Feed (K : Type) where
  runtime : Connectors K
  source : List ConnectorEvent

inductive FeedAct where
  | arrive (event : ConnectorEvent)
  | reopen (answers : OpenAnswers)

def Mark.body (id : Uuid) : Mark → Option EvidenceBody
  | .ingested row => if row.instanceId = id then some row.body else none
  | _ => none

def Connectors.bodiesOf {K : Type} (s : Connectors K) (id : Uuid) : List EvidenceBody :=
  s.history.filterMap (Mark.body id)

def bodies (events : List ConnectorEvent) : List EvidenceBody := events.filterMap eventToEvidenceBody

def SyncSnapshot.position {K : Type} (snap : SyncSnapshot K) (cursors : Cursors) : Nat :=
  if snap.mode = .incremental then cursors.position snap.syncState.cursor else 0

section

variable {K : Type} [DecidableEq K]

def feedCode (host : Host K) :
    Code (Feed K) ConnectorCall (ConnectorPhase K) Reply FeedAct where
  first := first host
  step s c p x := ({ s with runtime := (step host s.runtime c p x).1 },
    (step host s.runtime c p x).2)
  act s a :=
    match a with
    | .arrive event => { s with source := s.source ++ [event] }
    | .reopen answers => { s with runtime := s.runtime.rehydrate answers }

/-- The provider answers a sync with the events after its position and a cursor that covers all. -/
def Answers (cursors : Cursors) (s : Feed K) (_c : ConnectorCall) (p : ConnectorPhase K)
    (x : Reply) : Prop :=
  match p with
  | .dispatching snap => x.sync.toOption.all (fun run =>
      run = ⟨s.source.drop (snap.position cursors), some (cursors.render s.source.length)⟩) = true
  | _ => True

instance (cursors : Cursors) (s : Feed K) (c : ConnectorCall) (p : ConnectorPhase K) (x : Reply) :
    Decidable (Answers cursors s c p x) :=
  match p with
  | .dispatching _ => inferInstanceAs (Decidable (_ = true))
  | .called _ | .exchanging _ _ | .granting _ _ _ | .building _ | .refreshing _ | .storing _ _
  | .failing _ _ _ | .persisting _ _ | .handling _ | .delivering _ _ | .returned _
  | .delivered _ => isTrue trivial

/-- Every call is a sync of the instance, and the store is not closed under one. -/
def SyncsOnly (host : Host K) (cursors : Cursors) (id : Uuid)
    (t : Pool (Feed K) ConnectorCall (ConnectorPhase K)) :
    Event ConnectorCall Reply FeedAct → Prop
  | .call (.sync display _) => host.parseInstanceId display = .ok id
  | .call _ => False
  | .act (.reopen _) => t.calls.all (fun e => e.2.finished) = true
  | event => Code.Each (Answers cursors) t event

instance (host : Host K) (cursors : Cursors) (id : Uuid)
    (t : Pool (Feed K) ConnectorCall (ConnectorPhase K))
    (event : Event ConnectorCall Reply FeedAct) : Decidable (SyncsOnly host cursors id t event) := by
  unfold SyncsOnly
  split <;> infer_instance

def feedSystem (host : Host K) (cursors : Cursors) (id : Uuid) :
    System (Pool (Feed K) ConnectorCall (ConnectorPhase K)) (Event ConnectorCall Reply FeedAct) :=
  (feedCode host).system (fun s => s.runtime.bodiesOf id = [] ∧
    (∀ inst, s.runtime.instances.lookup id = some inst → inst.syncState = .new) ∧
    ∀ inst, s.runtime.instanceRows.lookup id = some inst → inst.syncState = .new)
    (SyncsOnly host cursors id)

/-- No ingest of the run fails once another one has gone through. -/
def FailsFirst (x : Reply) (events : List ConnectorEvent) : Prop :=
  (x.ingests 0).isOk = false ∨ ∀ n < (bodies events).length, (x.ingests n).isOk = true

instance (x : Reply) (events : List ConnectorEvent) : Decidable (FailsFirst x events) :=
  inferInstanceAs (Decidable (_ ∨ ∀ n < _, _))

/-- The cursor on disk covers every event with a body that the one in memory covers. -/
def CursorSaved (cursors : Cursors) (id : Uuid) (s : Feed K) : Prop :=
  match s.runtime.instances.lookup id, s.runtime.instanceRows.lookup id with
  | some inst, some row => bodies (s.source.take (cursors.position row.syncState.cursor)) =
      bodies (s.source.take (cursors.position inst.syncState.cursor))
  | _, _ => True

instance (cursors : Cursors) (id : Uuid) (s : Feed K) : Decidable (CursorSaved cursors id s) := by
  unfold CursorSaved
  split <;> infer_instance

/-- A run that writes does not fail after it has ingested some of its events. -/
def FailsEarly (_s : Feed K) (_c : ConnectorCall) (p : ConnectorPhase K) (x : Reply) : Prop :=
  match p with
  | .persisting _ run => FailsFirst x run.events
  | _ => True

instance (s : Feed K) (c : ConnectorCall) (p : ConnectorPhase K) (x : Reply) :
    Decidable (FailsEarly s c p x) :=
  match p with
  | .persisting _ run => inferInstanceAs (Decidable (FailsFirst x run.events))
  | .called _ | .exchanging _ _ | .granting _ _ _ | .building _ | .refreshing _ | .storing _ _
  | .dispatching _ | .failing _ _ _ | .handling _ | .delivering _ _ | .returned _
  | .delivered _ => isTrue trivial

/-- The same of every run, and the store is not opened again on a cursor that was not written. -/
def Careful (cursors : Cursors) (id : Uuid) (t : Pool (Feed K) ConnectorCall (ConnectorPhase K)) :
    Event ConnectorCall Reply FeedAct → Prop
  | .act (.reopen _) => CursorSaved cursors id t.shared
  | event => Code.Each FailsEarly t event

instance (cursors : Cursors) (id : Uuid) (t : Pool (Feed K) ConnectorCall (ConnectorPhase K))
    (event : Event ConnectorCall Reply FeedAct) : Decidable (Careful cursors id t event) := by
  unfold Careful
  split <;> infer_instance

end

def ConnectorPhase.snapshot {K : Type} : ConnectorPhase K → Option (SyncSnapshot K)
  | .building job | .refreshing job | .storing job _ => job.sync
  | .dispatching snap | .failing snap _ _ | .persisting snap _ => some snap
  | _ => none

open ConnectorPhase

def ConnectorPhase.OfSync {K : Type} (id : Uuid) (c : ConnectorCall) : ConnectorPhase K → Prop
  | .called id' => id' = id ∧ ∃ display startedAt, c = .sync display startedAt
  | .building job | .refreshing job | .storing job _ =>
    ∃ snap, job.sync = some snap ∧ snap.instanceId = id
  | .dispatching snap | .failing snap _ _ | .persisting snap _ => snap.instanceId = id
  | .returned _ => True
  | _ => False

def SyncState.Resumes (state : SyncState) : Prop :=
  state.cursor.isSome = true → state.mode = .incremental

/-- The first `k` events of the source have been ingested, and no other one. -/
structure Feed.FedTo {K : Type} (cursors : Cursors) (id : Uuid) (s : Feed K) (k : Nat) : Prop where
  bound : k ≤ s.source.length
  ingested : s.runtime.bodiesOf id = bodies (s.source.take k)
  live : ∀ inst, s.runtime.instances.lookup id = some inst →
    inst.syncState.Resumes ∧ cursors.position inst.syncState.cursor = k
  stored : ∀ row, s.runtime.instanceRows.lookup id = some row →
    row.syncState.Resumes ∧ cursors.position row.syncState.cursor ≤ k ∧
      (s.runtime.instances.lookup id = none →
        bodies (s.source.take (cursors.position row.syncState.cursor)) = bodies (s.source.take k))

def Feed.Locked {K : Type} (id : Uuid) (s : Feed K) : Prop :=
  ∃ inst, s.runtime.instances.lookup id = some inst ∧ inst.syncState.status = .inProgress

/-- What a sync has read is still so, and what it is about to write are the events from there to
some later place. -/
def Feed.Reads {K : Type} (cursors : Cursors) (id : Uuid) (s : Feed K) (p : ConnectorPhase K) :
    Prop :=
  ∀ snap inst, p.snapshot = some snap → s.runtime.instances.lookup id = some inst →
    snap.position cursors = cursors.position inst.syncState.cursor ∧
    ∀ run, p = .persisting snap run → ∃ n, n ≤ s.source.length ∧
      snap.position cursors ≤ n ∧ run.events = (s.source.take n).drop (snap.position cursors) ∧
      run.nextCursor = some (cursors.render n)

namespace Connectors

section

variable {K : Type} {s : Connectors K} {cursors : Cursors} {id : Uuid}

theorem bodies_append (xs ys : List ConnectorEvent) : bodies (xs ++ ys) = bodies xs ++ bodies ys :=
  List.filterMap_append

theorem ingestEvents_ok {scope : ScopeId} {tag : String} {events : List ConnectorEvent}
    {ingests : Nat → Except String Uuid} {ids : List Uuid}
    (h : (ingestEvents id scope tag events ingests).2 = .ok ids) :
    (ingestEvents id scope tag events ingests).1.map IngestedRow.body = bodies events := by
  induction events generalizing ingests ids with
  | nil => rfl
  | cons event rest ih =>
    simp only [ingestEvents, bodies, List.filterMap_cons] at h ⊢
    split at h
    · rename_i hbody
      simp only [hbody]
      exact ih h
    · rename_i body hbody
      simp only [hbody]
      split at h
      · cases h
      · rename_i evidenceId hfirst
        cases hrest : (ingestEvents id scope tag rest fun n => ingests (n+1)).2 with
        | error e => simp [hrest, Except.map] at h
        | ok ids' => simpa [hfirst, bodies] using ih hrest

theorem ingestEvents_all (id : Uuid) (scope : ScopeId) (tag : String) {events : List ConnectorEvent}
    {ingests : Nat → Except String Uuid}
    (h : ∀ n < (bodies events).length, (ingests n).isOk = true) :
    ∃ ids, (ingestEvents id scope tag events ingests).2 = .ok ids := by
  induction events generalizing ingests with
  | nil => exact ⟨[], rfl⟩
  | cons event rest ih =>
    simp only [ingestEvents]
    cases hbody : eventToEvidenceBody event with
    | none =>
      refine ih fun n hn => h n ?_
      simpa [bodies, hbody] using hn
    | some body =>
      have hlength : (bodies (event :: rest)).length = (bodies rest).length+1 := by
        simp [bodies, hbody]
      cases hfirst : ingests 0 with
      | error e =>
        have := h 0 (by omega)
        simp [hfirst, Except.isOk, Except.toBool] at this
      | ok evidenceId =>
        have hrest : ∀ n < (bodies rest).length, (ingests (n+1)).isOk = true :=
          fun n hn => h (n+1) (by omega)
        obtain ⟨ids, hids⟩ := ih hrest
        exact ⟨evidenceId :: ids, by simp [hids, Except.map]⟩

theorem ingestEvents_none {scope : ScopeId} {tag : String} {events : List ConnectorEvent}
    {ingests : Nat → Except String Uuid} (h : (ingests 0).isOk = false) :
    (ingestEvents id scope tag events ingests).1 = [] := by
  induction events with
  | nil => rfl
  | cons event rest ih =>
    simp only [ingestEvents]
    split
    · exact ih
    · split
      · rfl
      · rename_i hfirst
        simp [hfirst, Except.isOk, Except.toBool] at h

theorem bodiesOf_ingest {rows : List IngestedRow} (h : ∀ row ∈ rows, row.instanceId = id) :
    (s.ingest rows).bodiesOf id = s.bodiesOf id ++ rows.map IngestedRow.body := by
  simp only [bodiesOf, ingest, List.filterMap_append, List.filterMap_map]
  congr 1
  induction rows with
  | nil => rfl
  | cons row rest ih =>
    rw [List.forall_mem_cons] at h
    simp only [List.filterMap_cons, Function.comp_apply, Mark.body, h.1, if_true, List.map_cons,
      ih h.2]


end

end Connectors

namespace Feed

section

variable {K : Type} {s s' : Feed K} {cursors : Cursors} {id : Uuid} {k : Nat}

theorem FedTo.congr (h : FedTo cursors id s k) (hsource : s'.source = s.source)
    (hinstances : s'.runtime.instances = s.runtime.instances)
    (hrows : s'.runtime.instanceRows = s.runtime.instanceRows)
    (hhistory : s'.runtime.history = s.runtime.history) : FedTo cursors id s' k := by
  obtain ⟨hbound, hingested, hlive, hstored⟩ := h
  refine ⟨by rwa [hsource], ?_, by rwa [hinstances], by rwa [hrows, hinstances, hsource]⟩
  rw [bodiesOf, hhistory, hsource]
  exact hingested

theorem Reads.congr {p p' : ConnectorPhase K} (h : Reads cursors id s p)
    (hinstances : s'.runtime.instances = s.runtime.instances)
    (hsnap : ∀ snap, p'.snapshot = some snap → ∃ snap', p.snapshot = some snap' ∧
      snap.mode = snap'.mode ∧ snap.syncState = snap'.syncState)
    (hrun : ∀ snap run, p' ≠ .persisting snap run) : Reads cursors id s' p' := by
  intro snap inst hp hinst
  rw [hinstances] at hinst
  obtain ⟨snap', hp', hmode, hstate⟩ := hsnap snap hp
  refine ⟨?_, fun run hrun' => absurd hrun' (hrun snap run)⟩
  rw [SyncSnapshot.position, hmode, hstate]
  exact (h snap' inst hp' hinst).1

theorem FedTo.setSyncState (h : FedTo cursors id s k) {inst : ConnectorInstance K}
    (hinst : s.runtime.instances.lookup id = some inst) (state : SyncState)
    (hmode : state.mode = inst.syncState.mode) (hcursor : state.cursor = inst.syncState.cursor) :
    FedTo cursors id { s with runtime := s.runtime.setSyncState id inst state } k := by
  obtain ⟨hresumes, hposition⟩ := h.live inst hinst
  refine ⟨h.bound, h.ingested, fun inst' hinst' => ?_, fun row hrow => ?_⟩
  · simp only [Connectors.setSyncState, AList.lookup_insert, Option.some.injEq] at hinst'
    subst hinst'
    simp only [SyncState.Resumes, hmode, hcursor]
    exact ⟨hresumes, hposition⟩
  · obtain ⟨hrow', hle, -⟩ := h.stored row hrow
    refine ⟨hrow', hle, fun hnone => ?_⟩
    simp [Connectors.setSyncState] at hnone

theorem FedTo.saveInstance (h : FedTo cursors id s k) :
    FedTo cursors id { s with runtime := s.runtime.saveInstance id } k := by
  cases hinst : s.runtime.instances.lookup id with
  | none =>
    have hsame : s.runtime.saveInstance id = s.runtime := by
      simp only [Connectors.saveInstance, hinst]
    rwa [hsame]
  | some inst =>
    obtain ⟨hresumes, hposition⟩ := h.live inst hinst
    simp only [Connectors.saveInstance, hinst]
    refine ⟨h.bound, h.ingested, h.live, fun row hrow => ?_⟩
    simp only [AList.lookup_insert, Option.some.injEq] at hrow
    subst hrow
    exact ⟨hresumes, by omega, fun hnone => by simp [hinst] at hnone⟩

theorem FedTo.failSync (h : FedTo cursors id s k) (message : String) (saves : Answer) :
    FedTo cursors id { s with runtime := s.runtime.failSync id message saves } k := by
  cases hinst : s.runtime.instances.lookup id with
  | none =>
    have hsame : s.runtime.failSync id message saves = s.runtime := by
      simp only [Connectors.failSync, hinst]
    rwa [hsame]
  | some inst =>
    have hset := h.setSyncState hinst (inst.syncState.markFailed message) rfl rfl
    simp only [Connectors.failSync, hinst]
    cases saves with
    | error e => exact hset
    | ok => exact hset.saveInstance

theorem FedTo.advance (h : FedTo cursors id s k) (inst : ConnectorInstance K) {n : Nat} (hkn : k ≤ n)
    (hn : n ≤ s.source.length) {rows : List IngestedRow} (hrows : ∀ row ∈ rows, row.instanceId = id)
    (hbodies : rows.map IngestedRow.body = bodies ((s.source.take n).drop k)) (time : Int) :
    FedTo cursors id { s with
      runtime := (s.runtime.ingest rows).setSyncState id inst
        (inst.syncState.markSucceeded (some (cursors.render n)) time) } n := by
  refine ⟨hn, ?_, fun inst' hinst' => ?_, fun row hrow => ?_⟩
  · have hsplit : (s.source.take k) ++ (s.source.take n).drop k = s.source.take n := by
      have htake := List.take_append_drop k (s.source.take n)
      rwa [List.take_take, Nat.min_eq_left hkn] at htake
    rw [← hsplit, bodies_append, ← h.ingested, ← hbodies, ← bodiesOf_ingest hrows]
    rfl
  · simp only [Connectors.setSyncState, AList.lookup_insert, Option.some.injEq] at hinst'
    subst hinst'
    exact ⟨fun _ => rfl, cursors.read_render n⟩
  · obtain ⟨hrow', hle, -⟩ := h.stored row hrow
    refine ⟨hrow', by omega, fun hnone => ?_⟩
    simp [Connectors.setSyncState] at hnone

theorem FedTo.nothingIngested (h : FedTo cursors id s k) :
    FedTo cursors id { s with runtime := s.runtime.ingest [] } k :=
  h.congr rfl rfl rfl (List.append_nil _)

/-- The last locked part of a sync, when nothing fails after an ingest. -/
theorem FedTo.persistSync {host : Host K} (h : FedTo cursors id s k) {snap : SyncSnapshot K}
    (hid : snap.instanceId = id) {run : SyncRunResult} (hreads : Reads cursors id s (.persisting snap run))
    (x : Reply) (hfails : FailsFirst x run.events) :
    ∃ k', FedTo cursors id { s with runtime := (s.runtime.persistSync host snap run x).1 } k' := by
  subst hid
  unfold Connectors.persistSync
  dsimp only
  split
  · exact ⟨k, h.failSync _ _⟩
  · rename_i inst hinst
    split
    · exact ⟨k, h.failSync _ _⟩
    · obtain ⟨hposition, hrun⟩ := hreads snap inst rfl hinst
      obtain ⟨n, hn, hle, hevents, hcursor⟩ := hrun run rfl
      rw [hposition, (h.live inst hinst).2] at hle hevents
      split
      · rename_i e he
        have hnone : (ingestEvents snap.instanceId snap.scope (host.sourceTag snap.sourceKind)
            run.events x.ingests).1 = [] := by
          obtain hfirst | hall := hfails
          · exact ingestEvents_none hfirst
          · obtain ⟨ids, hids⟩ := ingestEvents_all snap.instanceId snap.scope
              (host.sourceTag snap.sourceKind) hall
            rw [hids] at he
            cases he
        rw [hnone]
        exact ⟨k, h.nothingIngested.failSync _ _⟩
      · rename_i ids hids
        have hbodies := ingestEvents_ok hids
        rw [hevents] at hbodies
        have hadvance := h.advance inst hle hn
          (fun row hrow => (ingestEvents_mem hrow).1) hbodies x.now
        rw [← hevents, ← hcursor] at hadvance
        split
        · exact ⟨n, hadvance.failSync _ _⟩
        · exact ⟨n, hadvance.saveInstance⟩

theorem syncSnapshot_cases (host : Host K) (s : Connectors K) (id : Uuid) (display : String)
    (startedAt : Int) (x : Reply) :
    (∃ r, s.syncSnapshot host id display startedAt x = (s, .returned r)) ∨
    ∃ inst snap, s.instances.lookup id = some inst ∧ inst.syncState.status ≠ .inProgress ∧
      s.syncSnapshot host id display startedAt x =
        (s.setSyncState id inst inst.syncState.markInProgress, startSync snap x.now) ∧
      snap.instanceId = id ∧ snap.syncState = inst.syncState ∧
      snap.mode = if inst.syncState.canRunIncremental then .incremental else .full := by
  unfold Connectors.syncSnapshot
  split
  · exact .inl ⟨_, rfl⟩
  · rename_i inst hinst
    split
    · exact .inl ⟨_, rfl⟩
    · rename_i hstatus
      split
      · exact .inl ⟨_, rfl⟩
      split
      · exact .inl ⟨_, rfl⟩
      split
      · exact .inl ⟨_, rfl⟩
      split
      · exact .inl ⟨_, rfl⟩
      · exact .inr ⟨inst, _, hinst, hstatus, rfl, rfl, rfl, rfl⟩

theorem position_snapshot {snap : SyncSnapshot K} {state : SyncState} (hresumes : state.Resumes)
    (hstate : snap.syncState = state)
    (hmode : snap.mode = if state.canRunIncremental then .incremental else .full) :
    snap.position cursors = cursors.position state.cursor := by
  rw [SyncSnapshot.position, hmode, hstate]
  cases hcursor : state.cursor with
  | none => simp [SyncState.canRunIncremental, hcursor, Cursors.position]
  | some cursor =>
    have hinc := hresumes (by simp [hcursor])
    simp [SyncState.canRunIncremental, hcursor, hinc]

theorem snapshot_refreshFails (job : RefreshJob K) (err : FfiError) {snap : SyncSnapshot K}
    (h : job.sync = some snap) :
    ∃ message, refreshFails job err = .failing snap message err := by
  exact ⟨_, by simp only [refreshFails, h]; rfl⟩

theorem startSync_cases (snap : SyncSnapshot K) (now : Int) :
    (startSync snap now = .dispatching snap) ∨
    (∃ message err, startSync snap now = .failing snap message err) ∨
    ∃ job, startSync snap now = .building job ∧ job.sync = some snap := by
  unfold startSync
  split
  · unfold startRefresh
    split
    · obtain ⟨message, hmessage⟩ := snapshot_refreshFails ⟨snap.instanceId, snap.display,
        snap.scope, snap.token, some snap⟩ (noRefreshToken snap.display) rfl
      exact .inr (.inl ⟨message, _, hmessage⟩)
    · exact .inr (.inr ⟨_, rfl, rfl⟩)
  · exact .inl rfl

theorem FedTo.reopen (h : FedTo cursors id s k) (hsaved : CursorSaved cursors id s)
    (a : OpenAnswers) :
    ∃ k', FedTo cursors id { s with runtime := s.runtime.rehydrate a } k' := by
  have hhistory : (s.runtime.rehydrate a).history = s.runtime.history := by
    unfold Connectors.rehydrate
    split
    · rfl
    · dsimp only
      split <;> rfl
  have hinstances : ∀ inst, (s.runtime.rehydrate a).instances.lookup id = some inst →
      s.runtime.instanceRows.lookup id = some inst := by
    intro inst hinst
    unfold Connectors.rehydrate at hinst
    split at hinst
    · cases hinst
    · dsimp only at hinst
      split at hinst
      all_goals exact (Table.lookup_filter_eq_some.mp hinst).1
  have hrows : ∀ row, (s.runtime.rehydrate a).instanceRows.lookup id = some row →
      s.runtime.instanceRows.lookup id = some row := by
    intro row hrow
    unfold Connectors.rehydrate at hrow
    split at hrow
    · exact hrow
    · dsimp only at hrow
      split at hrow
      all_goals exact (Table.lookup_filter_eq_some.mp hrow).1
  have hcovers : ∀ row, s.runtime.instanceRows.lookup id = some row →
      bodies (s.source.take (cursors.position row.syncState.cursor)) =
        bodies (s.source.take k) := by
    intro row hrow
    cases hinst : s.runtime.instances.lookup id with
    | none => exact (h.stored row hrow).2.2 hinst
    | some inst =>
      simp only [CursorSaved, hinst, hrow] at hsaved
      rw [hsaved, (h.live inst hinst).2]
  have hingested : (s.runtime.rehydrate a).bodiesOf id = bodies (s.source.take k) := by
    rw [bodiesOf, hhistory]
    exact h.ingested
  cases hinst : (s.runtime.rehydrate a).instances.lookup id with
  | none =>
    refine ⟨k, h.bound, hingested, fun inst hinst' => ?_, fun row hrow => ?_⟩
    · simp only [hinst] at hinst'
      cases hinst'
    · obtain ⟨hresumes, hle, -⟩ := h.stored row (hrows row hrow)
      exact ⟨hresumes, hle, fun _ => hcovers row (hrows row hrow)⟩
  | some inst =>
    have hdisk := hinstances inst hinst
    obtain ⟨hresumes, hle, -⟩ := h.stored inst hdisk
    refine ⟨cursors.position inst.syncState.cursor, Nat.le_trans hle h.bound,
      hingested.trans (hcovers inst hdisk).symm, fun inst' hinst' => ?_, fun row hrow => ?_⟩
    · simp only [hinst, Option.some.injEq] at hinst'
      subst hinst'
      exact ⟨hresumes, rfl⟩
    · have hsame := (hrows row hrow).symm.trans hdisk
      obtain rfl := Option.some.inj hsame
      exact ⟨hresumes, Nat.le_refl _, fun _ => rfl⟩

theorem FedTo.arrive (h : FedTo cursors id s k) (event : ConnectorEvent) :
    FedTo cursors id { s with source := s.source ++ [event] } k := by
  have htake : ∀ j, j ≤ k → (s.source ++ [event]).take j = s.source.take j := by
    intro j hj
    exact List.take_append_of_le_length (Nat.le_trans hj h.bound)
  refine ⟨by simpa using Nat.le_succ_of_le h.bound, ?_, h.live, fun row hrow => ?_⟩
  · rw [htake k (Nat.le_refl k)]
    exact h.ingested
  · obtain ⟨hresumes, hle, hnone⟩ := h.stored row hrow
    refine ⟨hresumes, hle, ?_⟩
    rw [htake k (Nat.le_refl k), htake _ hle]
    exact hnone

theorem Reads.arrive {p : ConnectorPhase K} (h : Reads cursors id s p) (event : ConnectorEvent) :
    Reads cursors id { s with source := s.source ++ [event] } p := by
  intro snap inst hp hinst
  obtain ⟨hposition, hrun⟩ := h snap inst hp hinst
  refine ⟨hposition, fun run hpersisting => ?_⟩
  obtain ⟨n, hn, hle, hevents, hcursor⟩ := hrun run hpersisting
  refine ⟨n, by simpa using Nat.le_succ_of_le hn, hle, ?_, hcursor⟩
  rwa [List.take_append_of_le_length hn]

variable {host : Host K}

theorem ofSync_step {c : ConnectorCall} {p : ConnectorPhase K} (h : p.OfSync id c)
    (s : Connectors K) (x : Reply) : (step host s c p x).2.OfSync id c := by
  have hfails : ∀ (job : RefreshJob K) err, (∃ snap, job.sync = some snap ∧ snap.instanceId = id) →
      (refreshFails job err).OfSync id c := by
    rintro job err ⟨snap, hsync, hid⟩
    obtain ⟨message, hmessage⟩ := snapshot_refreshFails job err hsync
    rw [hmessage]
    exact hid
  cases p with
  | called id' =>
    obtain ⟨rfl, display, startedAt, rfl⟩ := h
    simp only [step]
    obtain ⟨r, hr⟩ | ⟨inst, snap, -, -, hr, hid, -, -⟩ :=
      syncSnapshot_cases host s id' display startedAt x
    · rw [hr]
      trivial
    · rw [hr]
      obtain hstart | ⟨message, err, hstart⟩ | ⟨job, hstart, hjob⟩ := startSync_cases snap x.now
      · rw [hstart]
        exact hid
      · rw [hstart]
        exact hid
      · rw [hstart]
        exact ⟨snap, hjob, hid⟩
  | building job =>
    simp only [step]
    split
    · exact h
    · exact hfails job _ h
  | refreshing job =>
    simp only [step]
    split
    · exact hfails job _ h
    · exact h
  | storing job answer =>
    simp only [step, storeRefreshed]
    split
    · exact hfails job _ h
    split
    · exact hfails job _ h
    split
    · exact hfails job _ h
    · obtain ⟨snap, hsync, hid⟩ := h
      simp only [refreshStored, hsync]
      exact hid
  | dispatching snap =>
    simp only [step]
    split <;> exact h
  | failing snap message err => trivial
  | persisting snap run =>
    simp only [step, persistSync]
    split
    · trivial
    split
    · trivial
    split
    · trivial
    split <;> trivial
  | returned result => trivial
  | exchanging | granting | handling | delivering | delivered => exact h.elim

theorem outside_step (host : Host K) {c : ConnectorCall} {p : ConnectorPhase K} (hk : FedTo cursors id s k)
    (h : p.OfSync id c) (hout : p.snapshot.isSome = false) (x : Reply) :
    FedTo cursors id { s with runtime := (step host s.runtime c p x).1 } k ∧
    ((step host s.runtime c p x).2.snapshot.isSome = false ∧
        { s with runtime := (step host s.runtime c p x).1 } = s ∨
      ¬Locked id s ∧
        Locked id { s with runtime := (step host s.runtime c p x).1 } ∧
        Reads cursors id { s with runtime := (step host s.runtime c p x).1 }
          (step host s.runtime c p x).2) := by
  cases p with
  | called id' =>
    obtain ⟨rfl, display, startedAt, rfl⟩ := h
    simp only [step]
    obtain ⟨r, hr⟩ | ⟨inst, snap, hinst, hstatus, hr, -, hstate, hmode⟩ :=
      syncSnapshot_cases host s.runtime id' display startedAt x
    · rw [hr]
      exact ⟨hk, .inl ⟨rfl, rfl⟩⟩
    · rw [hr]
      have hposition : snap.position cursors = cursors.position inst.syncState.cursor :=
        position_snapshot (hk.live inst hinst).1 hstate hmode
      have hsnap : (startSync snap x.now).snapshot = some snap ∧
          ∀ run, startSync snap x.now ≠ .persisting snap run := by
        obtain hstart | ⟨message, err, hstart⟩ | ⟨job, hstart, hjob⟩ := startSync_cases snap x.now
        all_goals simp_all [snapshot]
      refine ⟨hk.setSyncState hinst _ rfl rfl, .inr ⟨?_, ⟨_, AList.lookup_insert _, rfl⟩, ?_⟩⟩
      · rintro ⟨inst', hinst', hin⟩
        rw [hinst] at hinst'
        obtain rfl := Option.some.inj hinst'
        exact hstatus hin
      · intro snap' inst' hsnap' hinst'
        rw [hsnap.1] at hsnap'
        obtain rfl := Option.some.inj hsnap'
        simp only [Connectors.setSyncState, AList.lookup_insert, Option.some.injEq] at hinst'
        subst hinst'
        exact ⟨hposition, fun run hrun => absurd hrun (hsnap.2 run)⟩
  | building job | refreshing job | storing job =>
    obtain ⟨snap, hsync, -⟩ := h
    simp [snapshot, hsync] at hout
  | dispatching | failing | persisting => simp [snapshot] at hout
  | returned result => exact ⟨hk, .inl ⟨rfl, rfl⟩⟩
  | exchanging | granting | handling | delivering | delivered => exact h.elim

theorem inside_step {c : ConnectorCall} {p : ConnectorPhase K} (hk : FedTo cursors id s k)
    (h : p.OfSync id c) (hin : p.snapshot.isSome = true) (hlocked : Locked id s)
    (hreads : Reads cursors id s p) (x : Reply) (hanswers : Answers cursors s c p x)
    (hfails : FailsEarly s c p x) :
    (∃ k', FedTo cursors id { s with runtime := (step host s.runtime c p x).1 } k') ∧
    ((step host s.runtime c p x).2.snapshot.isSome = true →
      Locked id { s with runtime := (step host s.runtime c p x).1 } ∧
      Reads cursors id { s with runtime := (step host s.runtime c p x).1 }
        (step host s.runtime c p x).2) := by
  have hfail : ∀ (job : RefreshJob K) err, p.snapshot = job.sync → job.sync.isSome = true →
      Reads cursors id s (refreshFails job err) := by
    intro job err hjob hsome
    obtain ⟨snap, hsync⟩ := Option.isSome_iff_exists.mp hsome
    obtain ⟨message, hmessage⟩ := snapshot_refreshFails job err hsync
    rw [hmessage]
    exact hreads.congr rfl (fun snap' hsnap' => ⟨snap', by rw [hjob, hsync]; exact hsnap',
      rfl, rfl⟩) (by simp)
  cases p with
  | building job =>
    refine ⟨⟨k, ?_⟩, fun _ => ?_⟩
    · simp only [step]
      split <;> exact hk
    · simp only [step]
      split
      · exact ⟨hlocked, hreads.congr rfl (fun snap hsnap => ⟨snap, hsnap, rfl, rfl⟩) (by simp)⟩
      · exact ⟨hlocked, hfail job _ rfl hin⟩
  | refreshing job =>
    refine ⟨⟨k, ?_⟩, fun _ => ?_⟩
    · simp only [step]
      split <;> exact hk
    · simp only [step]
      split
      · exact ⟨hlocked, hfail job _ rfl hin⟩
      · exact ⟨hlocked, hreads.congr rfl (fun snap hsnap => ⟨snap, hsnap, rfl, rfl⟩) (by simp)⟩
  | storing job answer =>
    obtain ⟨snap, hsync, -⟩ := h
    simp only [step, storeRefreshed]
    split
    · exact ⟨⟨k, hk⟩, fun _ => ⟨hlocked, hfail job _ rfl hin⟩⟩
    split
    · exact ⟨⟨k, hk⟩, fun _ => ⟨hlocked, hfail job _ rfl hin⟩⟩
    split
    · exact ⟨⟨k, hk⟩, fun _ => ⟨hlocked, hfail job _ rfl hin⟩⟩
    · refine ⟨⟨k, hk.congr rfl rfl rfl rfl⟩, fun _ => ⟨hlocked, ?_⟩⟩
      simp only [refreshStored, hsync]
      refine hreads.congr rfl (fun snap' hsnap' => ⟨snap, hsync, ?_⟩) (by simp)
      obtain rfl := Option.some.inj hsnap'
      exact ⟨rfl, rfl⟩
  | dispatching snap =>
    simp only [step]
    split
    · exact ⟨⟨k, hk⟩, fun _ => ⟨hlocked, hreads.congr rfl
        (fun snap' hsnap' => ⟨snap', hsnap', rfl, rfl⟩) (by simp)⟩⟩
    · rename_i run hrun
      refine ⟨⟨k, hk⟩, fun _ => ⟨hlocked, ?_⟩⟩
      intro snap' inst hsnap' hinst
      obtain rfl := Option.some.inj hsnap'
      obtain ⟨hposition, -⟩ := hreads snap inst rfl hinst
      refine ⟨hposition, fun run' hrun' => ?_⟩
      obtain ⟨-, rfl⟩ := persisting.inj hrun'
      have hanswer : run = ⟨s.source.drop (snap.position cursors),
          some (cursors.render s.source.length)⟩ := by
        simpa [Answers, hrun, Except.toOption] using hanswers
      refine ⟨s.source.length, Nat.le_refl _, ?_, ?_, by rw [hanswer]⟩
      · rw [hposition, (hk.live inst hinst).2]
        exact hk.bound
      · rw [hanswer, List.take_length]
  | failing snap message err =>
    obtain rfl : snap.instanceId = id := h
    exact ⟨⟨k, hk.failSync _ _⟩, fun hout => by cases hout⟩
  | persisting snap run =>
    refine ⟨hk.persistSync h hreads x hfails, fun hout => ?_⟩
    simp only [step, persistSync] at hout
    split at hout
    · cases hout
    split at hout
    · cases hout
    split at hout
    · cases hout
    split at hout <;> cases hout
  | called | exchanging | granting | handling | delivering | returned | delivered => cases hin

end

end Feed

/-- In a run in which no sync fails after it has ingested some of its events, and the store is
opened again only on the cursor that was in memory, the events that have been ingested are those
before some place in the source, each one once, and no cursor is past it. -/
theorem synced_exactly_once {K : Type} [DecidableEq K] (host : Host K) (cursors : Cursors)
    (id : Uuid) {t : Pool (Feed K) ConnectorCall (ConnectorPhase K)}
    (h : ((feedSystem host cursors id).restrict (Careful cursors id)).Reachable t) :
    ∃ k ≤ t.shared.source.length,
      t.shared.runtime.bodiesOf id = bodies (t.shared.source.take k) ∧
      (∀ inst, t.shared.runtime.instances.lookup id = some inst →
        cursors.position inst.syncState.cursor ≤ k) ∧
      ∀ row, t.shared.runtime.instanceRows.lookup id = some row →
        cursors.position row.syncState.cursor ≤ k := by
  have hfed : ∃ k, Feed.FedTo cursors id t.shared k := by
    refine Code.exclusive (fun p => p.snapshot.isSome)
      (fun s => ∃ k, Feed.FedTo cursors id s k) (Feed.Locked id) (Feed.Reads cursors id)
      (fun c p => p.OfSync id c) ?_ ?_ ?_ ?_ ?_ ?_ (Code.guard_and h)
    · intro s ⟨hnone, hlive, hstored⟩
      refine ⟨0, by simp, by simp [hnone, bodies], fun inst hinst => ?_, fun row hrow => ?_⟩
      · rw [hlive inst hinst]
        exact ⟨fun hcursor => (by cases hcursor), rfl⟩
      · rw [hstored row hrow]
        exact ⟨fun hcursor => (by cases hcursor), Nat.le_refl _, fun _ => rfl⟩
    · intro t c ⟨hsync, _⟩
      cases c with
      | sync display startedAt =>
        have hid : host.parseInstanceId display = .ok id := hsync
        simp only [feedCode, first, hid]
        exact ⟨rfl, rfl, display, startedAt, rfl⟩
      | _ => exact hsync.elim
    · intro s c p x hp
      exact Feed.ofSync_step hp s.runtime x
    · intro s c p x ⟨k, hk⟩ hp hout
      obtain ⟨hk', hrest⟩ := Feed.outside_step host hk hp hout x
      exact ⟨⟨k, hk'⟩, hrest⟩
    · intro t i c p x ⟨hguard, hcareful⟩ hi ⟨k, hk⟩ hp hin hlocked hreads
      exact Feed.inside_step hk hp hin hlocked hreads x (hguard c p hi) (hcareful c p hi)
    · intro t e ⟨hguard, hcareful⟩ ⟨k, hk⟩
      cases e with
      | arrive event =>
        refine ⟨⟨k, hk.arrive event⟩, fun c p _ _ hlocked hreads => ?_⟩
        exact ⟨hlocked, hreads.arrive event⟩
      | reopen answers =>
        refine ⟨hk.reopen hcareful answers, fun c p hmem hin _ _ => ?_⟩
        have hfinished := List.all_eq_true.mp hguard (c, p) hmem
        cases p <;> simp_all [finished, snapshot]
  obtain ⟨k, hk⟩ := hfed
  exact ⟨k, hk.bound, hk.ingested, fun inst hinst => (hk.live inst hinst).2.le,
    fun row hrow => (hk.stored row hrow).2.1⟩

def tallyMarks : Cursors where
  render n := String.ofList (List.replicate n '|')
  read := String.length
  read_render n := by simp

def slackConnected : Connectors Unit :=
  let id : Uuid := 0x4000800000000000000b
  let token : Lineage := ⟨0, ⟨"xoxb-1", none, 100000, "read", "Bearer"⟩, []⟩
  { empty Unit with
    instances := (∅ : Table Uuid (ConnectorInstance Unit)).insert id ⟨(), homeScope, .new⟩
    connectors := (∅ : Table Uuid Unit).insert id ()
    tokenVault := (∅ : Table Uuid Lineage).insert id token
    instanceRows := (∅ : Table Uuid (ConnectorInstance Unit)).insert id ⟨(), homeScope, .new⟩
    tokenRows := (∅ : Table Uuid (ScopeId × Lineage)).insert id (homeScope, token)
    known := [id] }

def slackEvents : List ConnectorEvent := [.documentCreated "D1" 10, .documentUpdated "D2" 20]

def afterSyncs (events : List (Event ConnectorCall Reply FeedAct)) :
    Pool (Feed Unit) ConnectorCall (ConnectorPhase Unit) :=
  events.foldl (feedCode (slackHost sampleParser)).next ⟨⟨slackConnected, slackEvents⟩, []⟩

def syncs (i : Nat) (run : SyncRunResult) (x : Reply) : List (Event ConnectorCall Reply FeedAct) :=
  [.call (.sync "00000000-0000-4000-8000-00000000000b" 50), .advance i quietReply,
    .advance i { quietReply with sync := .ok run }, .advance i x]

theorem slack_feed_init :
    (feedSystem (slackHost sampleParser) tallyMarks 0x4000800000000000000b).init
      ⟨⟨slackConnected, slackEvents⟩, []⟩ := by
  refine ⟨⟨rfl, fun inst hinst => ?_, fun row hrow => ?_⟩, rfl⟩
  · simp only [slackConnected, AList.lookup_insert, Option.some.injEq] at hinst
    rw [← hinst]
  · simp only [slackConnected, AList.lookup_insert, Option.some.injEq] at hrow
    rw [← hrow]

/-- Two events are synced while the cursor cannot be written, and a third one after that. -/
def syncedTwice : List (Event ConnectorCall Reply FeedAct) :=
  syncs 0 ⟨slackEvents, some "||"⟩ { quietReply with saves := .error "disk I/O error" } ++
    .act (.arrive (.documentCreated "D3" 30)) ::
    syncs 1 ⟨[.documentCreated "D3" 30], some "|||"⟩ quietReply

theorem synced_exactly_once_twice :
    (afterSyncs syncedTwice).shared.runtime.bodiesOf 0x4000800000000000000b =
      bodies (slackEvents ++ [.documentCreated "D3" 30]) ∧
    ∃ k ≤ (afterSyncs syncedTwice).shared.source.length,
      (afterSyncs syncedTwice).shared.runtime.bodiesOf 0x4000800000000000000b =
        bodies ((afterSyncs syncedTwice).shared.source.take k) := by
  have hrun : ((feedSystem (slackHost sampleParser) tallyMarks 0x4000800000000000000b).restrict
      (Careful tallyMarks 0x4000800000000000000b)).Reachable (afterSyncs syncedTwice) := by
    refine Legal.reachable_restrict ?_ (.init slack_feed_init)
    change Legal (fun t event => SyncsOnly (slackHost sampleParser) tallyMarks
      0x4000800000000000000b t event ∧ Careful tallyMarks 0x4000800000000000000b t event) _ _ _
    decide +kernel
  obtain ⟨k, hk, hbodies, -⟩ := synced_exactly_once _ _ _ hrun
  exact ⟨by decide +kernel, k, hk, hbodies⟩

def syncedAgain : List (Event ConnectorCall Reply FeedAct) :=
  syncs 0 ⟨slackEvents, some "||"⟩ { quietReply with
      ingests := fun n => if n = 1 then .error "disk I/O error" else .ok 1 } ++
    syncs 1 ⟨slackEvents, some "||"⟩ quietReply

/-- The first event is ingested twice. -/
theorem sync_ingests_twice :
    ¬ ∀ t, (feedSystem (slackHost sampleParser) tallyMarks 0x4000800000000000000b).Reachable t →
      ∃ k ≤ t.shared.source.length, t.shared.runtime.bodiesOf 0x4000800000000000000b =
        bodies (t.shared.source.take k) := by
  intro hall
  have hreached : (feedSystem (slackHost sampleParser) tallyMarks
      0x4000800000000000000b).Reachable (afterSyncs syncedAgain) := by
    refine Legal.reachable ?_ (.init slack_feed_init)
    decide +kernel
  obtain ⟨k, hk, hbodies⟩ := hall _ hreached
  have htwice : (afterSyncs syncedAgain).shared.runtime.bodiesOf 0x4000800000000000000b =
      [⟨"document_created", "D1", 10⟩, ⟨"document_created", "D1", 10⟩,
        ⟨"document_updated", "D2", 20⟩] := by decide +kernel
  have hsource : (afterSyncs syncedAgain).shared.source = slackEvents := by decide +kernel
  have hlength := congrArg List.length hbodies
  have hle : (bodies (slackEvents.take k)).length ≤ 2 :=
    (List.length_filterMap_le _ _).trans (by simp [slackEvents])
  rw [htwice, hsource] at hlength
  simp only [List.length_cons, List.length_nil] at hlength
  omega

end Knowledge.Runtime
