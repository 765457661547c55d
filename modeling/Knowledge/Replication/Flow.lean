import Knowledge.Replication.Leadership

/-!
What flows from the sidecars of the primaries to the bus: every segment is whole, ends on
a commit and carries pages of the right size, and where WAL generations have salts of
their own, no two segments share theirs.
-/

set_option autoImplicit false

namespace Knowledge.Replication
open Knowledge.Splice Knowledge.Transition

namespace Node

theorem stop_cases (n : Node) : n.stop = n ∨ ∃ want, n.phase = .elected want ∧
    n.busy = false ∧ n.stop = { n with task := none, phase := .stopped want } := by
  unfold stop
  split
  · rename_i want hp
    by_cases hb : n.busy = true
    · exact .inl (if_pos hb)
    · exact .inr ⟨want, hp, Bool.eq_false_iff.mpr hb, if_neg hb⟩
  · exact .inl rfl

theorem setRole_cases (n : Node) : n.setRole = n ∨ ∃ effective, n.phase = .switched effective ∧
    n.setRole = { n with
      shared := n.shared.setRole effective
      phase := .idle
      currentRole := effective
      task := spawnRole effective
      applied := if effective = .standby then [] else n.applied } := by
  unfold setRole
  split
  · rename_i effective hp
    exact .inr ⟨effective, hp, rfl⟩
  · exact .inl rfl

theorem shutdown_cases (n : Node) : n.shutdown = n ∨ n.phase = .idle ∧ n.busy = false ∧
    ∃ phase, phase.runs = false ∧ phase.goal = none ∧
      n.shutdown = { n with task := none, phase } := by
  unfold shutdown
  split
  · rename_i hp
    refine .inr ⟨hp.1, hp.2, ?_⟩
    split
    · exact ⟨_, rfl, rfl, rfl⟩
    · exact ⟨_, rfl, rfl, rfl⟩
    · rename_i ht
      exact ⟨.exited, rfl, rfl, by rw [← ht]⟩
  · exact .inl rfl

theorem release_cases {ι : Type} [DecidableEq ι] (i : ι) (lease : InMemoryLeaseStore ι)
    (n : Node) (answer : ReplResult Unit) : n.release i lease answer = (lease, n) ∨
    ∃ wasPrimary, n.phase = .leaving wasPrimary ∧
      (n.release i lease answer).2 = { n with phase := .exited } ∧
      ((n.release i lease answer).1 = lease ∨
        wasPrimary = true ∧ (n.release i lease answer).1 = lease.release i) := by
  unfold release
  split
  · rename_i wasPrimary hp
    refine .inr ⟨wasPrimary, hp, rfl, ?_⟩
    by_cases ha : wasPrimary = true ∧ answer = .ok ()
    · exact .inr ⟨ha.1, if_pos ha⟩
    · exact .inl (if_neg ha)
  · exact .inl rfl

theorem exit_cases (n : Node) : n.exit = n ∨ n.exit = { n with up := false } := by
  unfold exit
  split
  · exact .inr rfl
  · exact .inl rfl

theorem request_cases (n : Node) : n.request = n ∨
    n.request = { n with requests := n.requests+1 } := by
  unfold request
  split
  · exact .inr rfl
  · exact .inl rfl

theorem write_cases (pageSize : UInt32) (n : Node) (header : WalHeader) (frames : List WalFrame) :
    n.write pageSize header frames = n ∨ CommitOk pageSize header frames ∧
      n.write pageSize header frames = { n with
        store := n.store.commit header frames
        requests := n.requests-1
        committed := n.committed ++ (if n.shared.role = .primary then frames else [])
        lost := n.lost ++ (if n.store.journal = .wal then [] else frames) } := by
  unfold write
  split
  · rename_i h
    exact .inr ⟨h.2, rfl⟩
  · exact .inl rfl

theorem publish_cases (bus : WalBus) (n : Node) (answer : ReplResult Unit) :
    n.publish bus answer = (bus, n) ∨ ∃ shipper segment,
      n.task = some (.primary shipper (some segment)) ∧
      ((answer = .ok () ∧ n.publish bus answer = (⟨bus.log ++ [segment]⟩, { n with
        shared := n.shared.setPublishedFramesTotal shipper.cumulativeFrames
        task := some (.primary shipper none)
        published := n.published ++ [segment] })) ∨
      (answer ≠ .ok () ∧ n.publish bus answer = (bus, { n with
        task := some (.primary shipper none)
        lost := n.lost ++ segment.frames }))) := by
  unfold publish
  split
  · rename_i shipper segment htask
    refine .inr ⟨shipper, segment, htask, ?_⟩
    cases answer with
    | ok u => exact .inl ⟨rfl, rfl⟩
    | error e => exact .inr ⟨by simp, rfl⟩
  · exact .inl rfl

theorem poll_cases (now : Int) (bus : WalBus) (n : Node) (io : ApplyIo) :
    n.poll now bus io = n ∨ ∃ cursor next segment, n.task = some (.standby cursor next) ∧
      bus.log[next]? = some segment ∧
      n.poll now bus io =
        let applied := (n.replicator cursor).applySegment now io segment
        { n with
          task := some (.standby applied.2.toStandbyCursor (next+1))
          shared := (applied.2.refreshLag bus.latestWatermark).shared
          store := { n.store with file := applied.2.file }
          applied := match applied.1 with
            | .ok (_+1) => n.applied ++ [segment]
            | _ => n.applied } := by
  unfold poll
  split
  · rename_i cursor next htask
    split
    · exact .inl rfl
    · rename_i segment hseg
      exact .inr ⟨cursor, next, segment, htask, hseg, rfl⟩
  · exact .inl rfl

end Node

open Node

def Event.isQuiet : Event → Bool
  | .elect _ => true
  | .release _ => true
  | .exit => true
  | .crash => true
  | .request => true
  | .lagTick => true
  | _ => false

namespace Node

/-- Nothing that is stored, shipped or recorded differs; the election loop may have gone
on to a transition or have come to its end. -/
structure Quiet (n m : Node) : Prop where
  up : m.up = true → n.up = true
  role : m.shared.role = n.shared.role
  currentRole : m.currentRole = n.currentRole
  phase : m.phase = n.phase ∨ (n.phase = .idle ∧ ∃ want, m.phase = .elected want) ∨
    (n.phase.runs = false ∧ m.phase = .exited)
  task : m.task = n.task
  store : m.store = n.store
  applied : m.applied = n.applied
  published : m.published = n.published
  committed : m.committed = n.committed
  lost : m.lost = n.lost

theorem Quiet.refl (n : Node) : n.Quiet n :=
  ⟨id, rfl, rfl, .inl rfl, rfl, rfl, rfl, rfl, rfl, rfl⟩

theorem elect_quiet {ι : Type} [DecidableEq ι] (cfg : Config ι) (i : ι) (now : Int)
    (lease : InMemoryLeaseStore ι) (n : Node) (answer : ReplResult Unit) :
    n.Quiet (n.elect cfg i now lease answer).2 := by
  obtain heq | ⟨hp, -, heq⟩ := elect_cases cfg i now lease n answer
  · rw [heq]
    exact .refl n
  · rw [heq]
    refine ⟨id, rfl, rfl, ?_, rfl, rfl, rfl, rfl, rfl, rfl⟩
    split
    · exact .inl hp.symm
    · exact .inr (.inl ⟨hp, _, rfl⟩)

theorem release_quiet {ι : Type} [DecidableEq ι] (i : ι) (lease : InMemoryLeaseStore ι)
    (n : Node) (answer : ReplResult Unit) : n.Quiet (n.release i lease answer).2 := by
  obtain heq | ⟨_, hp, heq, -⟩ := release_cases i lease n answer
  · rw [heq]
    exact .refl n
  · rw [heq]
    exact ⟨id, rfl, rfl, .inr (.inr ⟨by rw [hp]; rfl, rfl⟩), rfl, rfl, rfl, rfl, rfl, rfl⟩

theorem down_quiet (n : Node) : n.Quiet { n with up := false } :=
  ⟨fun h => by simp at h, rfl, rfl, .inl rfl, rfl, rfl, rfl, rfl, rfl, rfl⟩

theorem exit_quiet (n : Node) : n.Quiet n.exit := by
  obtain heq | heq := n.exit_cases
  · rw [heq]
    exact .refl n
  · rw [heq]
    exact n.down_quiet

theorem request_quiet (n : Node) : n.Quiet n.request := by
  obtain heq | heq := n.request_cases
  · rw [heq]
    exact .refl n
  · rw [heq]
    exact ⟨id, rfl, rfl, .inl rfl, rfl, rfl, rfl, rfl, rfl, rfl⟩

theorem lagTick_quiet (bus : WalBus) (n : Node) : n.Quiet (n.lagTick bus) := by
  unfold lagTick
  split
  · exact ⟨id, rfl, rfl, .inl rfl, rfl, rfl, rfl, rfl, rfl, rfl⟩
  · exact .refl n

theorem step_quiet {ι : Type} [DecidableEq ι] (cfg : Config ι) (i : ι) (now : Int)
    (lease : InMemoryLeaseStore ι) (bus : WalBus) (n : Node) {event : Event}
    (h : event.isQuiet = true) : n.Quiet (n.step cfg i now lease bus event).node ∧
      (n.step cfg i now lease bus event).bus = bus := by
  cases event with
  | elect answer => exact ⟨elect_quiet cfg i now lease n answer, rfl⟩
  | release answer => exact ⟨release_quiet i lease n answer, rfl⟩
  | exit => exact ⟨n.exit_quiet, rfl⟩
  | crash => exact ⟨n.down_quiet, rfl⟩
  | request => exact ⟨n.request_quiet, rfl⟩
  | lagTick => exact ⟨n.lagTick_quiet bus, rfl⟩
  | _ => cases h

end Node

/-- What journal switches do to a store: checkpoints and changes of the mode. -/
inductive Store.Moves (stamp : HeaderStamp) (store : Store) : Store → Prop where
  | refl : Store.Moves stamp store store
  | checkpoint {store' : Store} : Store.Moves stamp store store' →
    Store.Moves stamp store store'.checkpoint
  | enterMode {store' : Store} (mode : JournalMode) : Store.Moves stamp store store' →
    Store.Moves stamp store (store'.enterMode stamp mode)

open Store

theorem Store.Moves.setStoreJournalFor {stamp : HeaderStamp} {store store' : Store}
    (h : store.Moves stamp store') (role : Role) (p : Pragmas) :
    store.Moves stamp (setStoreJournalFor stamp store' role p).2 := by
  cases role with
  | disabled => exact h
  | primary =>
    cases hj : p.journal with
    | error e => simpa [Replication.setStoreJournalFor, storeSetJournalWal, hj] using h
    | ok mode =>
      have := h.enterMode mode
      cases hc : p.checkpoint with
      | some e => simpa [Replication.setStoreJournalFor, storeSetJournalWal, hj, hc] using this
      | none =>
        simp only [Replication.setStoreJournalFor, storeSetJournalWal, hj, hc]
        split <;> exact this
  | standby =>
    cases hc : p.checkpoint with
    | some e => simpa [Replication.setStoreJournalFor, storeSetJournalRollback, hc] using h
    | none =>
      have := h.checkpoint
      cases hj : p.journal with
      | error e =>
        simpa [Replication.setStoreJournalFor, storeSetJournalRollback, hj, hc] using this
      | ok mode =>
        have := this.enterMode mode
        simp only [Replication.setStoreJournalFor, storeSetJournalRollback, hj, hc]
        split <;> exact this

theorem Store.checkpoint_wal (store : Store) : store.checkpoint.wal = none := by
  unfold checkpoint
  split
  · assumption
  · rfl

theorem Store.Moves.wal {stamp : HeaderStamp} {store store' : Store} (h : store.Moves stamp store') :
    store'.wal = store.wal ∨ store'.wal = none := by
  induction h with
  | refl => exact .inl rfl
  | checkpoint _ _ => exact .inr (checkpoint_wal _)
  | enterMode mode _ ih => exact ih

theorem Node.switchJournal_cases (stamp : HeaderStamp) (n : Node) (first second : Pragmas) :
    n.switchJournal stamp first second = n ∨ ∃ want effective store lost,
      n.phase = .stopped want ∧ n.store.Moves stamp store ∧
      (effective = .standby ∨ effective = want) ∧
      (effective = .primary → want = .primary ∧ store = n.store.enterMode stamp .wal) ∧
      (n.store.wal = none → lost = n.lost) ∧
      n.switchJournal stamp first second = { n with store, phase := .switched effective, lost } := by
  unfold switchJournal
  split
  · rename_i want hp
    refine .inr ⟨want, ?_⟩
    have hlost : ∀ b : Bool, n.store.wal = none →
        n.lost ++ (if b = true then n.store.walFrames else []) = n.lost := by
      intro b hw
      cases b <;> simp [walFrames, hw]
    have hmoves : n.store.Moves stamp _ := Store.Moves.setStoreJournalFor .refl want first
    cases hs : setStoreJournalFor stamp n.store want first with
    | mk result store =>
      rw [hs] at hmoves
      cases result with
      | error e =>
        exact ⟨.standby, _, _, hp, hmoves.setStoreJournalFor .standby second, .inl rfl,
          by simp, hlost _, rfl⟩
      | ok u =>
        refine ⟨want, store, _, hp, hmoves, .inr rfl, ?_, hlost _, rfl⟩
        intro hw
        rw [hw] at hs
        exact ⟨hw, setStoreJournalFor_primary hs⟩
  · exact .inl rfl

structure WalSegment.WellFormed (pageSize : UInt32) (segment : WalSegment) : Prop where
  size : segment.pageSize = pageSize
  seq : 0 < segment.seq
  nonempty : segment.frames ≠ []
  committed : committedFrames segment.frames = segment.frames
  pages : ∀ frame ∈ segment.frames,
    frame.pageNumber ≠ 0 ∧ frame.pageData.length = pageSize.toNat

structure Node.Sound (pageSize : UInt32) (n : Node) : Prop where
  wal : ∀ header frames, n.store.wal = some (header, frames) → CommitOk pageSize header frames
  shipper : ∀ shipper inflight, n.task = some (.primary shipper inflight) → 0 < shipper.nextSeq
  inflight : ∀ shipper segment, n.task = some (.primary shipper (some segment)) →
    segment.WellFormed pageSize

theorem CommitOk.append {pageSize : UInt32} {header header' : WalHeader}
    {frames frames' : List WalFrame} (h : CommitOk pageSize header frames)
    (h' : CommitOk pageSize header' frames') : CommitOk pageSize header (frames ++ frames') := by
  refine ⟨h.1, by simp [h.2.1], ?_, ?_⟩
  · rw [committedFrames_append h.2.2.1, h'.2.2.1]
  · intro frame hf
    obtain hf | hf := List.mem_append.mp hf
    · exact h.2.2.2 frame hf
    · exact h'.2.2.2 frame hf

theorem CommitOk.segmentOf {pageSize : UInt32} {header : WalHeader} {frames : List WalFrame}
    (h : CommitOk pageSize header frames) {shipper : WalShipper} (hseq : 0 < shipper.nextSeq)
    (hf : shipper.fresh (recovered header frames) ≠ []) :
    (shipper.segmentOf (recovered header frames)).WellFormed pageSize := by
  refine ⟨h.1, hseq, hf, committedFrames_idem _, ?_⟩
  intro frame hmem
  have hsub : frame ∈ (recovered header frames).frames.drop _ :=
    (committedFrames_initial _).subset hmem
  exact h.2.2.2 frame (List.mem_of_mem_drop hsub)

theorem CommitOk.parse {pageSize : UInt32} (hs : PageSizeOk pageSize) {header : WalHeader}
    {frames : List WalFrame} (h : CommitOk pageSize header frames) :
    parseWal (walBytes header frames) = .ok (recovered header frames) := by
  refine parseWal_walBytes (h.1 ▸ hs) (fun frame hf => ?_)
  rw [h.1]
  exact (h.2.2.2 frame hf).2

namespace Node

/-- Everything `drain` can do: nothing, with an empty sidecar; or cut the sidecar's new
frames out as a segment and fold the sidecar into the file. -/
theorem drain_cases {pageSize : UInt32} (hs : PageSizeOk pageSize) {n : Node}
    (h : n.Sound pageSize) : n.drain = n ∨
    ∃ shipper header frames, n.task = some (.primary shipper none) ∧
      n.store.wal = some (header, frames) ∧ CommitOk pageSize header frames ∧
      ((shipper.fresh (recovered header frames) = [] ∧ n.drain = { n with
        task := some (.primary (shipper.enter header.salts) none)
        store := n.store.checkpoint
        lost := n.lost ++ frames }) ∨
      (shipper.fresh (recovered header frames) ≠ [] ∧ n.drain = { n with
        task := some (.primary (shipper.advance (recovered header frames))
          (some (shipper.segmentOf (recovered header frames))))
        store := n.store.checkpoint })) := by
  unfold drain
  split
  · rename_i shipper htask
    cases hw : n.store.wal with
    | none => exact .inl (by simp [drainWal, hw])
    | some wal =>
      obtain ⟨header, frames⟩ := wal
      have hok := h.wal header frames hw
      have hparse := hok.parse hs
      refine .inr ⟨shipper, header, frames, htask, rfl, hok, ?_⟩
      cases hb : walBytes header frames with
      | nil =>
        rw [hb] at hparse
        cases hparse
      | cons b bytes =>
        rw [hb] at hparse
        simp only [drainWal, hw, hb, WalShipper.nextSegment, hparse, WalShipper.cut_eq]
        by_cases hf : shipper.fresh (recovered header frames) = []
        · refine .inl ⟨hf, ?_⟩
          simp only [if_pos hf, walFrames, hw, Option.elim]
          rfl
        · refine .inr ⟨hf, ?_⟩
          simp only [if_neg hf]
  · exact .inl rfl

structure SameCargo (n m : Node) : Prop where
  wal : m.store.wal = n.store.wal
  task : ∀ shipper inflight, m.task = some (.primary shipper inflight) →
    n.task = some (.primary shipper inflight)

theorem SameCargo.refl (n : Node) : n.SameCargo n := ⟨rfl, fun _ _ h => h⟩

theorem Sound.same {pageSize : UInt32} {n m : Node} (h : n.Sound pageSize) (k : n.SameCargo m) :
    m.Sound pageSize := by
  refine ⟨fun header frames hw => h.wal header frames (k.wal ▸ hw), ?_, ?_⟩
  · exact fun shipper inflight ht => h.shipper shipper inflight (k.task _ _ ht)
  · exact fun shipper segment ht => h.inflight shipper segment (k.task _ _ ht)

theorem spawnRole_primary {role : Role} {shipper : WalShipper} {inflight : Option WalSegment}
    (h : spawnRole role = some (.primary shipper inflight)) :
    shipper = .new ∧ inflight = none := by
  cases role <;> simp_all [spawnRole]

theorem Sound.setRole {pageSize : UInt32} {n : Node} (h : n.Sound pageSize) :
    n.setRole.Sound pageSize := by
  obtain heq | ⟨effective, -, heq⟩ := n.setRole_cases
  · rw [heq]
    exact h
  · rw [heq]
    refine ⟨h.wal, fun shipper inflight ht => ?_, fun shipper segment ht => ?_⟩
    · rw [(spawnRole_primary ht).1]
      exact Nat.one_pos
    · cases (spawnRole_primary ht).2

theorem Sound.switchJournal {pageSize : UInt32} {n : Node} (h : n.Sound pageSize)
    (stamp : HeaderStamp) (first second : Pragmas) :
    (n.switchJournal stamp first second).Sound pageSize := by
  obtain heq | ⟨_, _, store, _, -, hm, -, -, -, heq⟩ := n.switchJournal_cases stamp first second
  · rw [heq]
    exact h
  · rw [heq]
    refine ⟨fun header frames hw => ?_, h.shipper, h.inflight⟩
    obtain hs | hs := hm.wal
    · exact h.wal header frames (hs ▸ hw)
    · have hw : store.wal = some (header, frames) := hw
      rw [hs] at hw
      cases hw

theorem Sound.write {pageSize : UInt32} {n : Node} (h : n.Sound pageSize) (header : WalHeader)
    (frames : List WalFrame) : (n.write pageSize header frames).Sound pageSize := by
  obtain heq | ⟨hok, heq⟩ := n.write_cases pageSize header frames
  · rw [heq]
    exact h
  · rw [heq]
    refine ⟨fun header' frames' hw => ?_, h.shipper, h.inflight⟩
    simp only [commit] at hw
    split at hw
    · split at hw
      · obtain ⟨rfl, rfl⟩ := Prod.mk.inj (Option.some.inj hw)
        exact hok
      · rename_i header₀ frames₀ hw₀
        obtain ⟨rfl, rfl⟩ := Prod.mk.inj (Option.some.inj hw)
        exact (h.wal header₀ frames₀ hw₀).append hok
    · exact h.wal header' frames' hw

theorem Sound.drain {pageSize : UInt32} (hs : PageSizeOk pageSize) {n : Node}
    (h : n.Sound pageSize) : n.drain.Sound pageSize := by
  have hwal : ∀ header frames, n.store.checkpoint.wal ≠ some (header, frames) := by
    intro header frames hw
    rw [checkpoint_wal] at hw
    cases hw
  obtain heq | ⟨shipper, header, frames, htask, -, hok, ⟨-, heq⟩ | ⟨hf, heq⟩⟩ := drain_cases hs h
  · rw [heq]
    exact h
  · rw [heq]
    refine ⟨fun _ _ hw => absurd hw (hwal _ _), fun _ _ ht => ?_, fun _ _ ht => ?_⟩
    · simp only [Option.some.injEq, RoleTask.primary.injEq] at ht
      rw [← ht.1, WalShipper.enter_nextSeq]
      exact h.shipper shipper none htask
    · simp at ht
  · rw [heq]
    refine ⟨fun _ _ hw => absurd hw (hwal _ _), fun _ _ ht => ?_, fun _ _ ht => ?_⟩
    · simp only [Option.some.injEq, RoleTask.primary.injEq] at ht
      rw [← ht.1]
      exact Nat.succ_pos _
    · simp only [Option.some.injEq, RoleTask.primary.injEq] at ht
      rw [← ht.2]
      exact hok.segmentOf (h.shipper shipper none htask) hf

theorem sameCargo_poll (now : Int) (bus : WalBus) (n : Node) (io : ApplyIo) :
    n.SameCargo (n.poll now bus io) := by
  obtain heq | ⟨cursor, next, segment, -, -, heq⟩ := n.poll_cases now bus io
  · rw [heq]
    exact .refl n
  · rw [heq]
    exact ⟨rfl, fun _ _ ht => by simp at ht⟩

theorem sameCargo_stop (n : Node) : n.SameCargo n.stop := by
  obtain heq | ⟨_, -, -, heq⟩ := n.stop_cases
  · rw [heq]
    exact .refl n
  · rw [heq]
    exact ⟨rfl, fun _ _ ht => by simp at ht⟩

theorem sameCargo_shutdown (n : Node) : n.SameCargo n.shutdown := by
  obtain heq | ⟨-, -, _, -, -, heq⟩ := n.shutdown_cases
  · rw [heq]
    exact .refl n
  · rw [heq]
    exact ⟨rfl, fun _ _ ht => by simp at ht⟩

theorem Sound.publish {pageSize : UInt32} {n : Node} (h : n.Sound pageSize) (bus : WalBus)
    (answer : ReplResult Unit) : (n.publish bus answer).2.Sound pageSize ∧
      ∀ segment ∈ (n.publish bus answer).1.log, segment ∈ bus.log ∨
        segment.WellFormed pageSize := by
  obtain heq | ⟨shipper, segment, htask, hcase⟩ := n.publish_cases bus answer
  · rw [heq]
    exact ⟨h, fun _ hs => .inl hs⟩
  · have hship : ∀ shipper' inflight, some (RoleTask.primary shipper none) =
        some (.primary shipper' inflight) → 0 < shipper'.nextSeq := by
      rintro _ _ ⟨⟩
      exact h.shipper _ _ htask
    have hnone : ∀ shipper' segment', some (RoleTask.primary shipper none) =
        some (.primary shipper' (some segment')) → segment'.WellFormed pageSize := by
      rintro _ _ ⟨⟩
    obtain ⟨-, heq⟩ | ⟨-, heq⟩ := hcase
    · rw [heq]
      refine ⟨⟨h.wal, hship, hnone⟩, fun seg hs => ?_⟩
      obtain hs | hs := List.mem_append.mp hs
      · exact .inl hs
      · rw [List.mem_singleton.mp hs]
        exact .inr (h.inflight shipper segment htask)
    · rw [heq]
      exact ⟨⟨h.wal, hship, hnone⟩, fun _ hs => .inl hs⟩

theorem Quiet.sameCargo {n m : Node} (h : n.Quiet m) : n.SameCargo m :=
  ⟨congrArg wal h.store, fun _ _ ht => h.task ▸ ht⟩

theorem Sound.step {ι : Type} [DecidableEq ι] {cfg : Config ι} {n : Node}
    (h : n.Sound cfg.pageSize) (i : ι) (now : Int) (lease : InMemoryLeaseStore ι) (bus : WalBus)
    (event : Event) : (n.step cfg i now lease bus event).node.Sound cfg.pageSize ∧
      ∀ segment ∈ (n.step cfg i now lease bus event).bus.log, segment ∈ bus.log ∨
        segment.WellFormed cfg.pageSize := by
  cases event with
  | stop => exact ⟨h.same n.sameCargo_stop, fun _ hs => .inl hs⟩
  | switchJournal first second =>
    exact ⟨h.switchJournal cfg.stamp first second, fun _ hs => .inl hs⟩
  | setRole => exact ⟨h.setRole, fun _ hs => .inl hs⟩
  | shutdown => exact ⟨h.same n.sameCargo_shutdown, fun _ hs => .inl hs⟩
  | write header frames => exact ⟨h.write header frames, fun _ hs => .inl hs⟩
  | drain => exact ⟨h.drain cfg.pageSizeOk, fun _ hs => .inl hs⟩
  | publish answer => exact h.publish bus answer
  | poll io => exact ⟨h.same (n.sameCargo_poll now bus io), fun _ hs => .inl hs⟩
  | _ =>
    exact ⟨h.same (step_quiet cfg i now lease bus n rfl).1.sameCargo, fun _ hs => .inl hs⟩

end Node

namespace Cluster

structure Sound {ι : Type} (cfg : Config ι) (s : Cluster ι) : Prop where
  node : ∀ i, (s.node i).Sound cfg.pageSize
  bus : ∀ segment ∈ s.bus.log, segment.WellFormed cfg.pageSize

theorem sound_of_reachable {ι : Type} [DecidableEq ι] {cfg : Config ι} {file : ι → Bytes}
    {s : Cluster ι} (h : (system cfg file).Reachable s) : s.Sound cfg := by
  refine h.invariant (Sound cfg) ?_ ?_
  · rintro _ ⟨now, journal, -, rfl⟩
    refine ⟨fun i => ⟨?_, ?_, ?_⟩, ?_⟩ <;> simp [boot, Node.boot, spawnRole, WalBus.new]
  · rintro s act _ - hs ⟨-, rfl⟩
    cases act with
    | advance ms => exact ⟨hs.node, hs.bus⟩
    | node i event =>
      by_cases hup : (s.node i).up = true
      · have hstep := (hs.node i).step i s.now s.lease s.bus event
        refine ⟨fun j => ?_, fun segment hseg => ?_⟩
        · rw [next_node cfg s i event hup]
          split
          · exact hstep.1
          · exact hs.node j
        · simp only [next, hup, if_true] at hseg
          obtain hseg | hseg := hstep.2 segment hseg
          · exact hs.bus segment hseg
          · exact hseg
      · rw [next, if_neg hup]
        exact hs

end Cluster

namespace Node

def inflight (n : Node) : Option WalSegment :=
  match n.task with
  | some (.primary _ inflight) => inflight
  | _ => none

def pendingSalts (n : Node) : List Salts :=
  (n.inflight.map WalSegment.salts).toList ++
    (n.store.wal.map (fun wal => wal.1.salts)).toList

theorem pendingSalts_sublist {n m : Node} (hi : m.inflight = n.inflight ∨ m.inflight = none)
    (hw : m.store.wal = n.store.wal ∨ m.store.wal = none) :
    m.pendingSalts.Sublist n.pendingSalts := by
  unfold pendingSalts
  refine List.Sublist.append ?_ ?_
  · obtain h | h := hi
    · rw [h]
    · rw [h]
      exact List.nil_sublist _
  · obtain h | h := hw
    · rw [h]
    · rw [h]
      exact List.nil_sublist _

theorem drain_pendingSalts {pageSize : UInt32} (hs : PageSizeOk pageSize) {n : Node}
    (h : n.Sound pageSize) : n.drain.pendingSalts.Sublist n.pendingSalts := by
  obtain heq | ⟨shipper, header, frames, htask, hw, -, ⟨-, heq⟩ | ⟨-, heq⟩⟩ := drain_cases hs h
  · rw [heq]
  · rw [heq]
    refine pendingSalts_sublist (.inr rfl) (.inr (checkpoint_wal _))
  · rw [heq]
    simp only [pendingSalts, inflight, htask, hw, checkpoint_wal, Option.map_some,
      Option.map_none, Option.toList_some, Option.toList_none, List.nil_append, List.append_nil]
    exact List.Sublist.refl _

theorem Quiet.pendingSalts {n m : Node} (h : n.Quiet m) :
    m.pendingSalts.Sublist n.pendingSalts := by
  unfold Node.pendingSalts inflight
  rw [h.task, h.store]

theorem step_pendingSalts {ι : Type} [DecidableEq ι] {cfg : Config ι} {n : Node}
    (h : n.Sound cfg.pageSize) (i : ι) (now : Int) (lease : InMemoryLeaseStore ι) (bus : WalBus)
    {event : Event} (hw : ∀ header frames, event ≠ .write header frames) :
    (n.step cfg i now lease bus event).node.pendingSalts.Sublist n.pendingSalts := by
  cases event with
  | stop =>
    simp only [step]
    obtain heq | ⟨_, -, -, heq⟩ := n.stop_cases
    · rw [heq]
    · rw [heq]
      exact pendingSalts_sublist (.inr rfl) (.inl rfl)
  | switchJournal first second =>
    simp only [step]
    obtain heq | ⟨_, _, store, _, -, hm, -, -, -, heq⟩ :=
      n.switchJournal_cases cfg.stamp first second
    · rw [heq]
    · rw [heq]
      exact pendingSalts_sublist (.inl rfl) hm.wal
  | setRole =>
    simp only [step]
    obtain heq | ⟨effective, -, heq⟩ := n.setRole_cases
    · rw [heq]
    · rw [heq]
      exact pendingSalts_sublist (.inr (by cases effective <;> rfl)) (.inl rfl)
  | shutdown =>
    simp only [step]
    obtain heq | ⟨-, -, _, -, -, heq⟩ := n.shutdown_cases
    · rw [heq]
    · rw [heq]
      exact pendingSalts_sublist (.inr rfl) (.inl rfl)
  | write header frames => exact absurd rfl (hw header frames)
  | drain => exact drain_pendingSalts cfg.pageSizeOk h
  | publish answer =>
    simp only [step]
    obtain heq | ⟨_, _, -, ⟨-, heq⟩ | ⟨-, heq⟩⟩ := n.publish_cases bus answer
    · rw [heq]
    · rw [heq]
      exact pendingSalts_sublist (.inr rfl) (.inl rfl)
    · rw [heq]
      exact pendingSalts_sublist (.inr rfl) (.inl rfl)
  | poll io =>
    simp only [step]
    obtain heq | ⟨_, _, _, -, -, heq⟩ := n.poll_cases now bus io
    · rw [heq]
    · rw [heq]
      exact pendingSalts_sublist (.inr rfl) (.inl rfl)
  | _ => exact (step_quiet cfg i now lease bus n rfl).1.pendingSalts

/-- Only `set_role` starts a standby task, and only `poll` moves it on. -/
theorem step_standby {ι : Type} [DecidableEq ι] {cfg : Config ι} {n : Node}
    (h : n.Sound cfg.pageSize) (i : ι) (now : Int) (lease : InMemoryLeaseStore ι) (bus : WalBus)
    {event : Event} (hrole : event ≠ .setRole) (hpoll : ∀ io, event ≠ .poll io)
    {cursor : StandbyCursor} {next : Nat}
    (ht : (n.step cfg i now lease bus event).node.task = some (.standby cursor next)) :
    n.task = some (.standby cursor next) ∧
      (n.step cfg i now lease bus event).node.applied = n.applied ∧
      ((n.step cfg i now lease bus event).node.store.file = n.store.file ∨
        n.phase.runs = false ∨ ∃ header frames, event = .write header frames) := by
  by_cases hq : event.isQuiet = true
  · have hquiet := (step_quiet cfg i now lease bus n hq).1
    exact ⟨hquiet.task ▸ ht, hquiet.applied, .inl (congrArg file hquiet.store)⟩
  cases event with
  | setRole => exact absurd rfl hrole
  | poll io => exact absurd rfl (hpoll io)
  | stop =>
    simp only [step] at ht ⊢
    obtain heq | ⟨_, -, -, heq⟩ := n.stop_cases
    · rw [heq] at ht ⊢
      exact ⟨ht, rfl, .inl rfl⟩
    · simp [heq] at ht
  | switchJournal first second =>
    simp only [step] at ht ⊢
    obtain heq | ⟨_, _, _, _, hp, -, -, -, -, heq⟩ := n.switchJournal_cases cfg.stamp first second
    · rw [heq] at ht ⊢
      exact ⟨ht, rfl, .inl rfl⟩
    · rw [heq] at ht ⊢
      exact ⟨ht, rfl, .inr (.inl (by rw [hp]; rfl))⟩
  | shutdown =>
    simp only [step] at ht ⊢
    obtain heq | ⟨-, -, _, -, -, heq⟩ := n.shutdown_cases
    · rw [heq] at ht ⊢
      exact ⟨ht, rfl, .inl rfl⟩
    · simp [heq] at ht
  | write header frames =>
    simp only [step] at ht ⊢
    obtain heq | ⟨-, heq⟩ := n.write_cases cfg.pageSize header frames
    · rw [heq] at ht ⊢
      exact ⟨ht, rfl, .inl rfl⟩
    · rw [heq] at ht ⊢
      exact ⟨ht, rfl, .inr (.inr ⟨_, _, rfl⟩)⟩
  | drain =>
    simp only [step] at ht ⊢
    obtain heq | ⟨_, _, _, -, -, -, ⟨-, heq⟩ | ⟨-, heq⟩⟩ := drain_cases cfg.pageSizeOk h
    · rw [heq] at ht ⊢
      exact ⟨ht, rfl, .inl rfl⟩
    · simp [heq] at ht
    · simp [heq] at ht
  | publish answer =>
    simp only [step] at ht ⊢
    obtain heq | ⟨_, _, -, ⟨-, heq⟩ | ⟨-, heq⟩⟩ := n.publish_cases bus answer
    · rw [heq] at ht ⊢
      exact ⟨ht, rfl, .inl rfl⟩
    · simp [heq] at ht
    · simp [heq] at ht
  | _ => exact absurd rfl hq

end Node

namespace Cluster

def FreshSalts {ι : Type} (s : Cluster ι) (salts : Salts) : Prop :=
  (∀ segment ∈ s.bus.log, segment.salts ≠ salts) ∧ ∀ i, salts ∉ (s.node i).pendingSalts

/-- No two generations share their salts. -/
structure Distinct {ι : Type} (s : Cluster ι) : Prop where
  bus : (s.bus.log.map WalSegment.salts).Nodup
  pending : ∀ i, (s.node i).pendingSalts.Nodup
  shipped : ∀ i salts, salts ∈ (s.node i).pendingSalts → ∀ segment ∈ s.bus.log,
    segment.salts ≠ salts
  apart : ∀ i j salts, i ≠ j → salts ∈ (s.node i).pendingSalts →
    salts ∉ (s.node j).pendingSalts

section

variable {ι : Type} [DecidableEq ι]

theorem run_invariant {cfg : Config ι} {file : ι → Bytes}
    {cond : Cluster ι → ClusterAct ι → Prop} (I : Cluster ι → Prop)
    (hinit : ∀ s, init file s → I s) (htime : ∀ s now, I s → I { s with now })
    (hstep : ∀ (s : Cluster ι) i event, ((system cfg file).restrict cond).Reachable s → I s →
      (s.node i).up = true → cond s (.node i event) → I (s.next cfg (.node i event)))
    {s : Cluster ι} (h : ((system cfg file).restrict cond).Reachable s) : I s := by
  refine h.invariant I hinit ?_
  rintro s act _ hr hs ⟨⟨-, rfl⟩, hc⟩
  cases act with
  | advance ms => exact htime s _ hs
  | node i event =>
    by_cases hup : (s.node i).up = true
    · exact hstep s i event hr hs hup hc
    · rw [next, if_neg hup]
      exact hs

section

variable (cfg : Config ι) (s : Cluster ι) {i : ι} (event : Event)

theorem next_bus (hup : (s.node i).up = true) : (s.next cfg (.node i event)).bus =
      ((s.node i).step cfg i s.now s.lease s.bus event).bus := by
  simp only [next, hup, if_true]

theorem next_lease (hup : (s.node i).up = true) : (s.next cfg (.node i event)).lease =
      ((s.node i).step cfg i s.now s.lease s.bus event).lease := by
  simp only [next, hup, if_true]

theorem next_self (hup : (s.node i).up = true) : (s.next cfg (.node i event)).node i =
      ((s.node i).step cfg i s.now s.lease s.bus event).node := by
  rw [next_node cfg s i event hup, if_pos rfl]

end

theorem next_other (cfg : Config ι) (s : Cluster ι) {i j : ι}
    (event : Event) (hup : (s.node i).up = true) (h : j ≠ i) :
    (s.next cfg (.node i event)).node j = s.node j := by
  rw [next_node cfg s i event hup, if_neg h]

theorem step_bus (cfg : Config ι) (i : ι) (now : Int)
    (lease : InMemoryLeaseStore ι) (bus : WalBus) (n : Node) (event : Event) :
    (n.step cfg i now lease bus event).bus = bus ∨
    ∃ shipper segment, event = .publish (.ok ()) ∧
      n.task = some (.primary shipper (some segment)) ∧
      n.step cfg i now lease bus event = ⟨lease, ⟨bus.log ++ [segment]⟩, { n with
        shared := n.shared.setPublishedFramesTotal shipper.cumulativeFrames
        task := some (.primary shipper none)
        published := n.published ++ [segment] }⟩ := by
  cases event with
  | publish answer =>
    obtain heq | ⟨shipper, segment, htask, ⟨ha, heq⟩ | ⟨-, heq⟩⟩ := n.publish_cases bus answer
    · exact .inl (congrArg Prod.fst heq)
    · refine .inr ⟨shipper, segment, congrArg Event.publish ha, htask, ?_⟩
      simp only [step, heq]
    · exact .inl (congrArg Prod.fst heq)
  | _ => exact .inl rfl

end

theorem Distinct.shrink {ι : Type} {s t : Cluster ι} (h : s.Distinct)
    (hbus : t.bus = s.bus) (hp : ∀ i, (t.node i).pendingSalts.Sublist (s.node i).pendingSalts) :
    t.Distinct := by
  refine ⟨hbus ▸ h.bus, fun i => (h.pending i).sublist (hp i), ?_, ?_⟩
  · intro i salts hs
    rw [hbus]
    exact h.shipped i salts ((hp i).subset hs)
  · intro i j salts hij hs hj
    exact h.apart i j salts hij ((hp i).subset hs) ((hp j).subset hj)

theorem Distinct.grow {ι : Type} {s t : Cluster ι} (h : s.Distinct) {i : ι} {salts : Salts}
    (hf : s.FreshSalts salts) (hbus : t.bus = s.bus)
    (hi : (t.node i).pendingSalts = (s.node i).pendingSalts ++ [salts])
    (hj : ∀ j, j ≠ i → t.node j = s.node j) : t.Distinct := by
  have hmem : ∀ j σ, σ ∈ (t.node j).pendingSalts → σ ∈ (s.node j).pendingSalts ∨
      j = i ∧ σ = salts := by
    intro j σ hσ
    by_cases hji : j = i
    · subst hji
      rw [hi] at hσ
      obtain hσ | hσ := List.mem_append.mp hσ
      · exact .inl hσ
      · exact .inr ⟨rfl, List.mem_singleton.mp hσ⟩
    · rw [hj j hji] at hσ
      exact .inl hσ
  refine ⟨hbus ▸ h.bus, fun j => ?_, fun j σ hσ segment hs => ?_, fun j k σ hjk hσ hσ' => ?_⟩
  · by_cases hji : j = i
    · subst hji
      rw [hi]
      refine List.nodup_append.mpr ⟨h.pending j, by simp, ?_⟩
      intro a ha b hb hab
      rw [hab, List.mem_singleton.mp hb] at ha
      exact hf.2 j ha
    · rw [hj j hji]
      exact h.pending j
  · rw [hbus] at hs
    obtain hσ | ⟨-, rfl⟩ := hmem j σ hσ
    · exact h.shipped j σ hσ segment hs
    · exact hf.1 segment hs
  · obtain hσ | ⟨rfl, rfl⟩ := hmem j σ hσ
    · obtain hσ' | ⟨rfl, rfl⟩ := hmem k σ hσ'
      · exact h.apart j k σ hjk hσ hσ'
      · exact hf.2 j hσ
    · obtain hσ' | ⟨rfl, -⟩ := hmem k σ hσ'
      · exact hf.2 k hσ'
      · exact hjk rfl

theorem Distinct.ship {ι : Type} {s t : Cluster ι} (h : s.Distinct) {i : ι}
    {segment : WalSegment} (hs : (s.node i).inflight = some segment)
    (hbus : t.bus = ⟨s.bus.log ++ [segment]⟩) (hi : (t.node i).inflight = none)
    (hw : (t.node i).store.wal = (s.node i).store.wal)
    (hj : ∀ j, j ≠ i → t.node j = s.node j) : t.Distinct := by
  have hold : (s.node i).pendingSalts = segment.salts :: (t.node i).pendingSalts := by
    simp only [pendingSalts, hs, hi, hw, Option.map_some, Option.map_none,
      Option.toList_some, Option.toList_none, List.nil_append, List.cons_append]
  have hnew : segment.salts ∉ (t.node i).pendingSalts := (List.nodup_cons.mp (hold ▸ h.pending i)).1
  have hmem : ∀ j σ, σ ∈ (t.node j).pendingSalts → σ ∈ (s.node j).pendingSalts := by
    intro j σ hσ
    by_cases hji : j = i
    · subst hji
      rw [hold]
      exact List.mem_cons_of_mem _ hσ
    · rwa [hj j hji] at hσ
  have hseg : segment.salts ∈ (s.node i).pendingSalts := by
    rw [hold]
    exact List.mem_cons_self
  refine ⟨?_, fun j => ?_, fun j σ hσ seg hmem' => ?_, fun j k σ hjk hσ hσ' => ?_⟩
  · rw [hbus]
    simp only [List.map_append, List.map_cons, List.map_nil]
    refine List.nodup_append.mpr ⟨h.bus, by simp, ?_⟩
    intro a ha b hb hab
    obtain ⟨seg, hseg', rfl⟩ := List.mem_map.mp ha
    exact h.shipped i segment.salts hseg seg hseg' (hab.trans (List.mem_singleton.mp hb))
  · by_cases hji : j = i
    · subst hji
      exact (List.nodup_cons.mp (hold ▸ h.pending j)).2
    · rw [hj j hji]
      exact h.pending j
  · rw [hbus] at hmem'
    obtain hmem' | hmem' := List.mem_append.mp hmem'
    · exact h.shipped j σ (hmem j σ hσ) seg hmem'
    · rw [List.mem_singleton.mp hmem']
      rintro rfl
      by_cases hji : j = i
      · subst hji
        exact hnew hσ
      · exact h.apart j i segment.salts hji (hmem j _ hσ) hseg
  · exact h.apart j k σ hjk (hmem j σ hσ) (hmem k σ hσ')

theorem Distinct.next {ι : Type} [DecidableEq ι] {cfg : Config ι} {s : Cluster ι}
    (h : s.Distinct) (hsound : s.Sound cfg) {i : ι} {event : Event} (hup : (s.node i).up = true)
    (hfresh : ∀ header frames, event = .write header frames → (s.node i).store.wal = none →
      s.FreshSalts header.salts) :
    (s.next cfg (.node i event)).Distinct := by
  have hother : ∀ j, j ≠ i → (s.next cfg (.node i event)).node j = s.node j :=
    fun j hj => next_other cfg s event hup hj
  by_cases hw : ∃ header frames, event = .write header frames
  · obtain ⟨header, frames, rfl⟩ := hw
    have hself := next_self cfg s (.write header frames) hup
    have hbus := next_bus cfg s (.write header frames) hup
    simp only [step] at hself hbus
    have hshrink : ((s.node i).write cfg.pageSize header frames).pendingSalts =
        (s.node i).pendingSalts → (s.next cfg (.node i (.write header frames))).Distinct := by
      intro heq
      refine h.shrink hbus (fun j => ?_)
      by_cases hj : j = i
      · subst hj
        rw [hself, heq]
      · rw [hother j hj]
    obtain heq | ⟨hok, heq⟩ := (s.node i).write_cases cfg.pageSize header frames
    · exact hshrink (by rw [heq])
    · by_cases hjournal : (s.node i).store.journal = .wal
      · cases hwal : (s.node i).store.wal with
        | none =>
          refine h.grow (hfresh header frames rfl hwal) hbus (i := i) ?_ hother
          rw [hself, heq]
          simp [pendingSalts, inflight, commit, hjournal, hwal]
        | some wal =>
          refine hshrink ?_
          rw [heq]
          simp [pendingSalts, inflight, commit, hjournal, hwal]
      · refine hshrink ?_
        rw [heq]
        simp [pendingSalts, inflight, commit, hjournal]
  · have hnot : ∀ header frames, event ≠ .write header frames :=
      fun header frames he => hw ⟨header, frames, he⟩
    have hsub := step_pendingSalts (hsound.node i) i s.now s.lease s.bus hnot
    obtain hbus | ⟨shipper, segment, -, htask, heq⟩ :=
      step_bus cfg i s.now s.lease s.bus (s.node i) event
    · refine h.shrink ((next_bus cfg s event hup).trans hbus) (fun j => ?_)
      by_cases hj : j = i
      · subst hj
        rw [next_self cfg s event hup]
        exact hsub
      · rw [hother j hj]
    · have hself := next_self cfg s event hup
      rw [heq] at hself
      have hinflight : (s.node i).inflight = some segment := by simp [inflight, htask]
      refine h.ship hinflight (by rw [next_bus cfg s event hup, heq]) ?_ ?_ hother
      · rw [hself]
        rfl
      · rw [hself]

end Cluster

end Knowledge.Replication
