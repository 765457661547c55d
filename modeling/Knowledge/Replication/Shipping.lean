import Knowledge.Replication.Flow

/-!
Runs in which nothing fails: every publish is acknowledged, every segment can be applied,
and SQLite gives each WAL generation salts of its own. A drain then ships the whole
sidecar, and a standby splices in every segment it takes off the bus.
-/

set_option autoImplicit false

namespace Knowledge.Replication
open Knowledge.Splice Knowledge.Transition

def replay (log : List WalSegment) (file : Bytes) : Bytes := run 0 (log.flatMap WalSegment.ops) file

theorem replay_snoc (log : List WalSegment) (segment : WalSegment) (file : Bytes) :
    replay (log ++ [segment]) file = run 0 segment.ops (replay log file) := by
  simp only [replay, List.flatMap_append, run_append, List.flatMap_cons, List.flatMap_nil,
    List.append_nil]

theorem replay_append (front rest : List WalSegment) (file : Bytes) :
    replay (front ++ rest) file = replay rest (replay front file) := by
  simp only [replay, List.flatMap_append, run_append]

def ApplyIo.Healthy (pageSize : UInt32) (io : ApplyIo) : Prop :=
  io.cipherPageSize = .ok pageSize ∧ io.fault = none

instance (pageSize : UInt32) (io : ApplyIo) : Decidable (io.Healthy pageSize) :=
  match io with
  | ⟨.error e, fault⟩ => .isFalse (fun h => by cases h.1)
  | ⟨.ok size, none⟩ =>
    if h : size = pageSize then .isTrue ⟨congrArg _ h, rfl⟩
    else .isFalse (fun hi => h (Except.ok.inj hi.1))
  | ⟨.ok size, some fault⟩ => .isFalse (fun h => by cases h.2)

namespace StandbyReplicator

theorem checkPageSize_healthy {pageSize : UInt32} (self : StandbyReplicator) {io : ApplyIo}
    (hio : io.Healthy pageSize)
    (hsize : self.expectedPageSize = none ∨ self.expectedPageSize = some pageSize) :
    ∃ expected, (expected = none ∨ expected = some pageSize) ∧
      self.checkPageSize io pageSize = (.ok (), { self with expectedPageSize := expected }) := by
  obtain ⟨⟨dbHandle, lastSalts, lastSeq, total, size⟩, shared, file⟩ := self
  cases dbHandle with
  | false => exact ⟨size, hsize, rfl⟩
  | true =>
    refine ⟨some pageSize, .inr rfl, ?_⟩
    obtain rfl | rfl := hsize
    · simp [checkPageSize, checkPageSize.compare, hio.1]
    · simp [checkPageSize, checkPageSize.compare]

theorem applySegment_ahead {pageSize : UInt32} {self : StandbyReplicator} {io : ApplyIo}
    {segment : WalSegment} (hsegment : segment.pageSize = pageSize)
    (hseq : (self.enter segment.salts).lastSeq < segment.seq)
    (hpages : ∀ frame ∈ segment.frames, frame.pageNumber ≠ 0) (hio : io.Healthy pageSize)
    (hsize : self.expectedPageSize = none ∨ self.expectedPageSize = some pageSize) (now : Int) :
    ∃ expected, (expected = none ∨ expected = some pageSize) ∧
      self.applySegment now io segment = (.ok segment.frameCount, { self with
        lastSalts := some segment.salts
        expectedPageSize := expected
        lastSeq := segment.seq
        appliedFramesTotal := segment.cumulativeFrames
        shared := self.shared.recordApplied now segment.cumulativeFrames
        file := run 0 segment.ops self.file }) := by
  have hseq : ¬segment.seq ≤ (self.enter segment.salts).lastSeq := Nat.not_le.mpr hseq
  have hzero : ¬segment.frames.any (fun frame => frame.pageNumber = 0) = true := by
    simp only [List.any_eq_true, decide_eq_true_eq, not_exists, not_and]
    exact hpages
  obtain ⟨hsalts, -, hshared, hfile, hdb, hexpected⟩ := self.enter_rest segment.salts
  obtain ⟨expected, hexp, hcheck⟩ := checkPageSize_healthy _ hio (hexpected ▸ hsize)
  refine ⟨expected, hexp, ?_⟩
  simp only [applySegment, if_neg hseq, if_neg hzero, hsegment, hcheck, writeSegmentToFile, hio.2,
    hfile, hshared, hdb]
  rw [WalSegment.ops, spliceOps, hsegment, hsalts]

theorem applySegment_healthy {pageSize : UInt32} {self : StandbyReplicator} {io : ApplyIo}
    {segment : WalSegment} (hseg : segment.WellFormed pageSize) (hio : io.Healthy pageSize)
    (hsize : self.expectedPageSize = none ∨ self.expectedPageSize = some pageSize)
    (hsalts : self.lastSalts ≠ some segment.salts) (now : Int) :
    ∃ expected, (expected = none ∨ expected = some pageSize) ∧
      self.applySegment now io segment = (.ok segment.frameCount, { self with
        lastSalts := some segment.salts
        expectedPageSize := expected
        lastSeq := segment.seq
        appliedFramesTotal := segment.cumulativeFrames
        shared := self.shared.recordApplied now segment.cumulativeFrames
        file := run 0 segment.ops self.file }) := by
  refine applySegment_ahead hseg.size ?_ (fun frame hf => (hseg.pages frame hf).1) hio hsize now
  rw [enter_of_ne hsalts]
  exact hseg.seq

end StandbyReplicator

namespace Cluster

/-- Nothing fails, and a WAL generation starts with salts that no other has. -/
def Smooth {ι : Type} (cfg : Config ι) (s : Cluster ι) : ClusterAct ι → Prop
  | .node _ (.publish answer) => answer = .ok ()
  | .node _ (.poll io) => io.Healthy cfg.pageSize
  | .node i (.write header _) => (s.node i).store.wal = none → s.FreshSalts header.salts
  | _ => True

theorem distinct_of_reachable {ι : Type} [DecidableEq ι] {cfg : Config ι} {file : ι → Bytes}
    {cond : Cluster ι → ClusterAct ι → Prop} (hc : ∀ (s : Cluster ι) i header frames,
      cond s (.node i (.write header frames)) → (s.node i).store.wal = none →
      s.FreshSalts header.salts) {s : Cluster ι} (h : ((system cfg file).restrict cond).Reachable s) : s.Distinct := by
  refine run_invariant Distinct ?_ (fun s now hs => ⟨hs.bus, hs.pending, hs.shipped, hs.apart⟩)
    ?_ h
  · rintro _ ⟨now, journal, -, rfl⟩
    constructor <;> simp [boot, WalBus.new, Node.boot, Node.pendingSalts, Node.inflight, spawnRole]
  · intro s i event hr hs hup hcond
    refine hs.next (sound_of_reachable hr.of_restrict) hup ?_
    rintro header frames rfl
    exact hc s i header frames hcond

end Cluster

/-- The salts the shipper saw last are on the bus or in flight. -/
def Node.Known (log : List WalSegment) (n : Node) : Prop :=
  ∀ shipper inflight salts, n.task = some (.primary shipper inflight) →
    shipper.lastSalts = some salts →
    (∃ segment ∈ log, segment.salts = salts) ∨ inflight.map WalSegment.salts = some salts

namespace Node

theorem Known.mono {log log' : List WalSegment} {n m : Node} (h : n.Known log)
    (hlog : log ⊆ log') (htask : ∀ shipper inflight, m.task = some (.primary shipper inflight) →
      n.task = some (.primary shipper inflight)) : m.Known log' := by
  intro shipper inflight salts ht hl
  obtain ⟨segment, hseg, hsalts⟩ | hi := h shipper inflight salts (htask _ _ ht) hl
  · exact .inl ⟨segment, hlog hseg, hsalts⟩
  · exact .inr hi

theorem drain_ships {pageSize : UInt32} (hs : PageSizeOk pageSize) {n : Node}
    (h : n.Sound pageSize) (hnew : ∀ shipper header frames,
      n.task = some (.primary shipper none) → n.store.wal = some (header, frames) →
      shipper.lastSalts ≠ some header.salts) :
    n.drain = n ∨ ∃ shipper header frames, n.task = some (.primary shipper none) ∧
      n.store.wal = some (header, frames) ∧ CommitOk pageSize header frames ∧
      ∃ shipper' segment, segment.frames = frames ∧ segment.salts = header.salts ∧
        segment.pageSize = header.pageSize ∧ shipper'.lastSalts = some header.salts ∧
        n.drain = { n with
          task := some (.primary shipper' (some segment))
          store := n.store.checkpoint } := by
  obtain heq | ⟨shipper, header, frames, htask, hw, hok, hcase⟩ := drain_cases hs h
  · exact .inl heq
  · have hfresh : shipper.fresh (recovered header frames) = frames := by
      have hne : shipper.lastSalts ≠ some (recovered header frames).header.salts :=
        hnew shipper header frames htask hw
      rw [WalShipper.fresh, WalShipper.enter_of_ne hne]
      exact hok.2.2.1
    obtain ⟨hnil, -⟩ | ⟨-, heq⟩ := hcase
    · exact absurd (hfresh.symm.trans hnil) hok.2.1
    · exact .inr ⟨shipper, header, frames, htask, hw, hok, _, _, hfresh, rfl, rfl, rfl, heq⟩

end Node

namespace Cluster

theorem unseen {ι : Type} {s : Cluster ι} (hd : s.Distinct) {i : ι}
    (h : (s.node i).Known s.bus.log) : ∀ shipper header frames,
      (s.node i).task = some (.primary shipper none) →
      (s.node i).store.wal = some (header, frames) → shipper.lastSalts ≠ some header.salts := by
  intro shipper header frames htask hw hl
  obtain ⟨segment, hseg, hsalts⟩ | hi := h shipper none header.salts htask hl
  · refine hd.shipped i header.salts ?_ segment hseg hsalts
    simp [Node.pendingSalts, hw]
  · cases hi

theorem known_step {ι : Type} [DecidableEq ι] {cfg : Config ι} {s : Cluster ι}
    (hd : s.Distinct) (hsound : s.Sound cfg) {i : ι} (h : (s.node i).Known s.bus.log)
    {event : Event} (hc : s.Smooth cfg (.node i event)) :
    ((s.node i).step cfg i s.now s.lease s.bus event).node.Known
      ((s.node i).step cfg i s.now s.lease s.bus event).bus.log := by
  cases event with
  | stop => exact h.mono (List.Subset.refl _) (s.node i).sameCargo_stop.task
  | switchJournal first second =>
    simp only [Node.step]
    obtain heq | ⟨_, _, _, _, -, -, -, -, -, heq⟩ :=
      (s.node i).switchJournal_cases cfg.stamp first second
    · rw [heq]
      exact h
    · rw [heq]
      exact h
  | setRole =>
    simp only [Node.step]
    obtain heq | ⟨effective, -, heq⟩ := (s.node i).setRole_cases
    · rw [heq]
      exact h
    · rw [heq]
      intro shipper inflight salts ht hl
      rw [(Node.spawnRole_primary ht).1] at hl
      cases hl
  | shutdown => exact h.mono (List.Subset.refl _) (s.node i).sameCargo_shutdown.task
  | write header frames =>
    simp only [Node.step]
    obtain heq | ⟨-, heq⟩ := (s.node i).write_cases cfg.pageSize header frames
    · rw [heq]
      exact h
    · rw [heq]
      exact h
  | drain =>
    simp only [Node.step]
    obtain heq | ⟨_, header, _, -, -, -, shipper, segment, -, hsalts, -, hl, heq⟩ :=
      Node.drain_ships cfg.pageSizeOk (hsound.node i) (unseen hd h)
    · rw [heq]
      exact h
    · rw [heq]
      rintro _ _ salts ⟨⟩ hl'
      exact .inr (congrArg some (hsalts.trans (Option.some.inj (hl.symm.trans hl'))))
  | publish answer =>
    obtain rfl : answer = .ok () := hc
    simp only [Node.step]
    obtain heq | ⟨shipper, segment, htask, ⟨-, heq⟩ | ⟨ha, -⟩⟩ :=
      (s.node i).publish_cases s.bus (.ok ())
    · rw [heq]
      exact h
    · rw [heq]
      rintro _ _ salts ⟨⟩ hl
      refine .inl ?_
      obtain ⟨seg, hseg, hsalts⟩ | hi := h _ _ salts htask hl
      · exact ⟨seg, List.mem_append_left _ hseg, hsalts⟩
      · exact ⟨segment, by simp, Option.some.inj hi⟩
    · exact absurd rfl ha
  | poll io => exact h.mono (List.Subset.refl _) ((s.node i).sameCargo_poll s.now s.bus io).task
  | _ =>
    exact h.mono (List.Subset.refl _)
      (Node.step_quiet cfg i s.now s.lease s.bus (s.node i) rfl).1.sameCargo.task

theorem step_log {ι : Type} [DecidableEq ι] (cfg : Config ι) (i : ι) (now : Int)
    (lease : InMemoryLeaseStore ι) (bus : WalBus) (n : Node) (event : Event) :
    bus.log <+: (n.step cfg i now lease bus event).bus.log := by
  obtain heq | ⟨_, segment, -, -, heq⟩ := step_bus cfg i now lease bus n event
  · exact ⟨[], by rw [List.append_nil, heq]⟩
  · exact ⟨[segment], by rw [heq]⟩

theorem known_of_reachable {ι : Type} [DecidableEq ι] {cfg : Config ι} {file : ι → Bytes}
    {cond : Cluster ι → ClusterAct ι → Prop} (hc : ∀ s act, cond s act → s.Smooth cfg act)
    {s : Cluster ι} (h : ((system cfg file).restrict cond).Reachable s) (i : ι) :
    (s.node i).Known s.bus.log := by
  refine run_invariant (fun s => ∀ i, (s.node i).Known s.bus.log) ?_ (fun s now hs => hs) ?_ h i
  · rintro _ ⟨now, journal, -, rfl⟩ i shipper inflight salts ht
    simp [boot, Node.boot, spawnRole] at ht
  · intro s i event hr hs hup hcond j
    rw [next_bus cfg s event hup]
    by_cases hj : j = i
    · subst hj
      rw [next_self cfg s event hup]
      exact known_step (distinct_of_reachable (fun s i _ _ => hc s (.node i _)) hr) (sound_of_reachable hr.of_restrict) (hs j)
        (hc s _ hcond)
    · rw [next_other cfg s event hup hj]
      exact (hs j).mono (step_log cfg i s.now s.lease s.bus (s.node i) event).subset
        (fun _ _ ht => ht)

end Cluster

def Node.place (n : Node) : Option Nat :=
  match n.task with
  | some (.standby _ next) => some next
  | _ => none

/-- A standby task at place `next` of the bus has spliced in everything before it. -/
structure Node.Mirrors (pageSize : UInt32) (log : List WalSegment) (n : Node)
    (cursor : StandbyCursor) (next : Nat) : Prop where
  bound : next ≤ log.length
  applied : n.applied = log.take next
  salts : cursor.lastSalts = (log.take next).getLast?.map WalSegment.salts
  size : cursor.expectedPageSize = none ∨ cursor.expectedPageSize = some pageSize
  file : ∃ base, n.store.file = replay (log.take next) base

def Node.Replays (pageSize : UInt32) (log : List WalSegment) (n : Node) : Prop :=
  ∀ cursor next, n.task = some (.standby cursor next) → n.Mirrors pageSize log cursor next

theorem next_salts_ne {log : List WalSegment} (h : (log.map WalSegment.salts).Nodup) {next : Nat}
    {segment : WalSegment} (hs : log[next]? = some segment) :
    (log.take next).getLast?.map WalSegment.salts ≠ some segment.salts := by
  intro hl
  obtain ⟨last, hlast, hsalts⟩ := Option.map_eq_some_iff.mp hl
  rw [← List.take_append_drop next log, List.map_append] at h
  refine (List.nodup_append.mp h).2.2 last.salts ?_ segment.salts ?_ hsalts
  · exact List.mem_map_of_mem (List.mem_of_getLast? hlast)
  · refine List.mem_map_of_mem (List.mem_of_getElem? (i := 0) ?_)
    rw [List.getElem?_drop, Nat.add_zero, hs]

namespace Node

section

variable {pageSize : UInt32} {log log' : List WalSegment} {n m : Node}

theorem Mirrors.same {cursor : StandbyCursor} {next : Nat} (h : n.Mirrors pageSize log cursor next)
    (hlog : log <+: log') (happlied : m.applied = n.applied)
    (hfile : m.store.file = n.store.file) : m.Mirrors pageSize log' cursor next := by
  obtain ⟨rest, rfl⟩ := hlog
  have htake : (log ++ rest).take next = log.take next := List.take_append_of_le_length h.bound
  refine ⟨?_, ?_, ?_, h.size, ?_⟩
  · rw [List.length_append]
    exact Nat.le_trans h.bound (Nat.le_add_right _ _)
  · rw [htake, happlied]
    exact h.applied
  · rw [htake]
    exact h.salts
  · rw [htake, hfile]
    exact h.file

theorem Replays.same (h : n.Replays pageSize log) (hlog : log <+: log')
    (htask : ∀ cursor next, m.task = some (.standby cursor next) →
      n.task = some (.standby cursor next) ∧ m.applied = n.applied ∧ m.store.file = n.store.file) :
    m.Replays pageSize log' := by
  intro cursor next ht
  obtain ⟨ht, happlied, hfile⟩ := htask cursor next ht
  exact (h cursor next ht).same hlog happlied hfile

end

theorem Replays.poll {pageSize : UInt32} {bus : WalBus} {n : Node} {io : ApplyIo}
    (h : n.Replays pageSize bus.log) (hseg : ∀ segment ∈ bus.log, segment.WellFormed pageSize)
    (hd : (bus.log.map WalSegment.salts).Nodup) (hio : io.Healthy pageSize) (now : Int) :
    (n.poll now bus io).Replays pageSize bus.log := by
  obtain heq | ⟨cursor, next, segment, htask, hnext, heq⟩ := n.poll_cases now bus io
  · rw [heq]
    exact h
  · rw [heq]
    have hm := h cursor next htask
    have hwf := hseg segment (List.mem_of_getElem? hnext)
    have hsalts : (n.replicator cursor).lastSalts ≠ some segment.salts := by
      rw [show (n.replicator cursor).lastSalts = cursor.lastSalts from rfl, hm.salts]
      exact next_salts_ne hd hnext
    obtain ⟨expected, hexp, happly⟩ :=
      StandbyReplicator.applySegment_healthy hwf hio hm.size hsalts now
    have htake : bus.log.take (next+1) = bus.log.take next ++ [segment] := by
      rw [List.take_add_one, hnext]
      rfl
    obtain ⟨base, hbase⟩ := hm.file
    obtain ⟨k, hk⟩ := Nat.exists_eq_succ_of_ne_zero
      (Nat.pos_iff_ne_zero.mp (List.length_pos_iff.mpr hwf.nonempty))
    rintro _ _ ⟨⟩
    simp only [happly]
    refine ⟨(List.getElem?_eq_some_iff.mp hnext).1, ?_, ?_, hexp, base, ?_⟩
    · simp only [WalSegment.frameCount, hk, hm.applied, htake]
    · simp [htake]
    · rw [htake, replay_snoc, ← hbase]
      rfl

theorem Replays.setRole {pageSize : UInt32} {log : List WalSegment} {n : Node}
    (h : n.Replays pageSize log) : n.setRole.Replays pageSize log := by
  obtain heq | ⟨effective, -, heq⟩ := n.setRole_cases
  · rw [heq]
    exact h
  · rw [heq]
    intro cursor next ht
    cases effective with
    | standby =>
      obtain ⟨rfl, rfl⟩ := RoleTask.standby.inj (Option.some.inj ht)
      exact ⟨Nat.zero_le _, rfl, rfl, .inl rfl, n.store.file, rfl⟩
    | primary => cases ht
    | disabled => cases ht

end Node

namespace Cluster

theorem replays_step {ι : Type} [DecidableEq ι] {cfg : Config ι} {s : Cluster ι}
    (hd : s.Distinct) (hsound : s.Sound cfg) {i : ι} (hshape : (s.node i).Shape)
    (h : (s.node i).Replays cfg.pageSize s.bus.log) {event : Event}
    (hc : s.Smooth cfg (.node i event))
    (hw : ∀ header frames, event = .write header frames → (s.node i).currentRole = .primary) :
    ((s.node i).step cfg i s.now s.lease s.bus event).node.Replays cfg.pageSize
      ((s.node i).step cfg i s.now s.lease s.bus event).bus.log := by
  by_cases hrole : event = .setRole
  · subst hrole
    exact h.setRole
  by_cases hpoll : ∃ io, event = .poll io
  · obtain ⟨io, rfl⟩ := hpoll
    exact h.poll hsound.bus hd.bus hc s.now
  refine h.same (step_log cfg i s.now s.lease s.bus (s.node i) event) fun cursor next ht => ?_
  obtain ⟨htask, happlied, hfile | hidle | ⟨header, frames, rfl⟩⟩ := Node.step_standby
    (hsound.node i) i s.now s.lease s.bus hrole (fun io he => hpoll ⟨io, he⟩) ht
  · exact ⟨htask, happlied, hfile⟩
  · have hnone := hshape.task
    rw [htask, hidle] at hnone
    cases hnone
  · have hprimary := hw header frames rfl
    rw [hshape.standby htask] at hprimary
    cases hprimary

theorem replays_of_reachable {ι : Type} [DecidableEq ι] {cfg : Config ι} {file : ι → Bytes}
    {cond : Cluster ι → ClusterAct ι → Prop} (hc : ∀ s act, cond s act → s.Smooth cfg act)
    (hw : ∀ (s : Cluster ι) i header frames, cond s (.node i (.write header frames)) →
      (s.node i).currentRole = .primary)
    {s : Cluster ι} (h : ((system cfg file).restrict cond).Reachable s) (i : ι) :
    (s.node i).Replays cfg.pageSize s.bus.log := by
  refine run_invariant (fun s => ∀ i, (s.node i).Replays cfg.pageSize s.bus.log) ?_
    (fun s now hs => hs) ?_ h i
  · rintro _ ⟨now, journal, -, rfl⟩ i cursor next ht
    obtain ⟨rfl, rfl⟩ := RoleTask.standby.inj (Option.some.inj ht)
    exact ⟨Nat.zero_le _, rfl, rfl, .inl rfl, file i, rfl⟩
  · intro s i event hr hs hup hcond j
    rw [next_bus cfg s event hup]
    by_cases hj : j = i
    · subst hj
      rw [next_self cfg s event hup]
      refine replays_step (distinct_of_reachable (fun s i _ _ => hc s (.node i _)) hr) (sound_of_reachable hr.of_restrict)
        (shape_of_reachable hr.of_restrict j) (hs j) (hc s _ hcond) ?_
      rintro header frames rfl
      exact hw s j header frames hcond
    · rw [next_other cfg s event hup hj]
      exact (hs j).same (step_log cfg i s.now s.lease s.bus (s.node i) event)
        (fun _ _ ht => ⟨ht, rfl, rfl⟩)

end Cluster

end Knowledge.Replication
