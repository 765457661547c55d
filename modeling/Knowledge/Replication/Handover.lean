import Knowledge.Replication.Shipping

/-!
What a node has when leadership comes to it, and what it leaves behind when leadership
goes: the replay before a promotion, and the last frames before the lease is released.
-/

set_option autoImplicit false

namespace Knowledge.Replication
open Knowledge.Splice Knowledge.Transition

/-- The standby task has ended and the role is not set yet. -/
def Node.Promoting (n : Node) : Prop :=
  n.up = true ∧ (n.phase = .stopped .primary ∨ n.phase = .switched .primary)

open Node

instance (n : Node) : Decidable n.Promoting := inferInstanceAs (Decidable (_ ∧ _))

/-- Nothing fails, only primaries write, a promotion stops the standby task only when it
has come to the end of the bus, and nobody publishes between that and the promotion. -/
def Cluster.CaughtUp {ι : Type} (cfg : Config ι) (s : Cluster ι) (act : ClusterAct ι) : Prop :=
  s.Smooth cfg act ∧ match act with
    | .node i .stop => (s.node i).phase = .elected .primary →
      (s.node i).place = some s.bus.log.length
    | .node i (.publish _) => (s.node i).busy = true → ∀ j, ¬(s.node j).Promoting
    | .node i (.write _ _) => (s.node i).currentRole = .primary
    | _ => True

open Cluster

/-- What a promotion finds in the file before and after the journal switch. -/
structure Node.Ready {ι : Type} (cfg : Config ι) (log : List WalSegment) (n : Node) : Prop where
  stopped : n.up = true → n.phase = .stopped .primary →
    n.applied = log ∧ ∃ base, n.store.file = replay log base
  switched : n.up = true → n.phase = .switched .primary →
    n.applied = log ∧ ∃ base mode, n.store.file = cfg.stamp mode .wal (replay log base)

namespace Node

theorem Ready.of_not_promoting {ι : Type} {cfg : Config ι} {log : List WalSegment} {n : Node}
    (h : ¬n.Promoting) : n.Ready cfg log :=
  ⟨fun hup hp => absurd ⟨hup, .inl hp⟩ h, fun hup hp => absurd ⟨hup, .inr hp⟩ h⟩

theorem Shape.not_promoting {n : Node} (h : n.Shape) (ht : n.task ≠ none) : ¬n.Promoting := by
  have htask := h.task
  rintro ⟨-, hp | hp⟩
  · rw [hp] at htask
    exact ht (Option.map_eq_none_iff.mp htask)
  · rw [hp] at htask
    exact ht (Option.map_eq_none_iff.mp htask)

theorem Shape.not_promoting_of_primary {n : Node} (h : n.Shape) (hr : n.currentRole = .primary) :
    ¬n.Promoting := by
  rintro ⟨-, hp | hp⟩
  · exact h.change (by rw [hp]; rfl) (by rw [hp, hr]; rfl)
  · exact h.promoted hp hr

section

variable {ι : Type} {cfg : Config ι} {log : List WalSegment}

theorem Ready.quiet {n m : Node} (h : n.Ready cfg log) (hq : n.Quiet m) : m.Ready cfg log := by
  have hphase : ∀ phase, phase.runs = false → phase ≠ .exited → m.phase = phase →
      n.phase = phase := by
    intro phase hr he hp
    obtain heq | ⟨-, want, heq⟩ | ⟨-, heq⟩ := hq.phase
    · exact heq ▸ hp
    · rw [← hp, heq] at hr
      cases hr
    · exact absurd (hp.symm.trans heq) he
  refine ⟨fun hup hp => ?_, fun hup hp => ?_⟩
  · rw [hq.applied, hq.store]
    exact h.stopped (hq.up hup) (hphase _ rfl (by simp) hp)
  · rw [hq.applied, hq.store]
    exact h.switched (hq.up hup) (hphase _ rfl (by simp) hp)

theorem Ready.switchJournal {n : Node} (h : n.Ready cfg log) (first second : Pragmas) :
    (n.switchJournal cfg.stamp first second).Ready cfg log := by
  obtain heq | ⟨want, effective, store, _, hp, -, -, heff, -, heq⟩ :=
    n.switchJournal_cases cfg.stamp first second
  · rw [heq]
    exact h
  · rw [heq]
    refine ⟨fun _ hp' => by simp at hp', fun hup hp' => ?_⟩
    have hprimary : effective = .primary := by simpa using hp'
    obtain ⟨rfl, rfl⟩ := heff hprimary
    obtain ⟨happlied, base, hbase⟩ := h.stopped hup hp
    exact ⟨happlied, base, n.store.journal, congrArg (cfg.stamp n.store.journal .wal) hbase⟩

theorem Ready.stop {n : Node}
    (h : n.Ready cfg log) (hshape : n.Shape) (hr : n.Replays cfg.pageSize log)
    (hend : n.phase = .elected .primary → n.place = some log.length) :
    n.stop.Ready cfg log := by
  obtain heq | ⟨want, hp, -, heq⟩ := n.stop_cases
  · rw [heq]
    exact h
  · rw [heq]
    refine ⟨fun _ hp' => ?_, fun _ hp' => by simp at hp'⟩
    obtain rfl : want = .primary := by simpa using hp'
    have hrole : n.currentRole ≠ .primary := fun hrole =>
      hshape.change (by rw [hp]; rfl) (by rw [hp, hrole]; rfl)
    obtain ⟨_, _, hprimary, -⟩ | ⟨cursor, next, -, ht⟩ := hshape.running (by rw [hp]; rfl)
    · exact absurd hprimary hrole
    · have hm := hr cursor next ht
      have hnext : some next = some log.length := by simpa [place, ht] using hend hp
      have hlog : log.take next = log := by rw [Option.some.inj hnext, List.take_length]
      have hfile := hm.file
      rw [hlog] at hfile
      exact ⟨hm.applied.trans hlog, hfile⟩

end

/-- Only `set_role` changes the role a node reports. -/
theorem step_role {ι : Type} [DecidableEq ι] (cfg : Config ι) (i : ι) (now : Int)
    (lease : InMemoryLeaseStore ι) (bus : WalBus) (n : Node) {event : Event}
    (h : event ≠ .setRole) :
    (n.step cfg i now lease bus event).node.shared.role = n.shared.role := by
  cases event with
  | stop =>
    simp only [step]
    obtain heq | ⟨_, -, -, heq⟩ := n.stop_cases
    · rw [heq]
    · rw [heq]
  | switchJournal first second =>
    simp only [step]
    obtain heq | ⟨_, _, _, _, -, -, -, -, -, heq⟩ := n.switchJournal_cases cfg.stamp first second
    · rw [heq]
    · rw [heq]
  | setRole => exact absurd rfl h
  | shutdown =>
    simp only [step]
    obtain heq | ⟨-, -, _, -, -, heq⟩ := n.shutdown_cases
    · rw [heq]
    · rw [heq]
  | write header frames => exact (n.write_keeps cfg.pageSize header frames).role
  | drain => exact n.drain_keeps.role
  | publish answer => exact (n.publish_keeps bus answer).role
  | poll io => exact (n.poll_keeps now bus io).role
  | _ => exact (step_quiet cfg i now lease bus n rfl).1.role

end Node

namespace Cluster

theorem ready_step {ι : Type} [DecidableEq ι] {cfg : Config ι} {s : Cluster ι}
    (hsound : s.Sound cfg) {i : ι} (hshape : (s.node i).Shape)
    (hr : (s.node i).Replays cfg.pageSize s.bus.log) (h : (s.node i).Ready cfg s.bus.log)
    {event : Event} (hc : s.CaughtUp cfg (.node i event)) :
    ((s.node i).step cfg i s.now s.lease s.bus event).node.Ready cfg
      ((s.node i).step cfg i s.now s.lease s.bus event).bus.log := by
  have hafter := hshape.step cfg i s.now s.lease s.bus event
  cases event with
  | stop => exact h.stop hshape hr hc.2
  | switchJournal first second => exact h.switchJournal first second
  | setRole =>
    simp only [step]
    obtain heq | ⟨effective, -, heq⟩ := (s.node i).setRole_cases
    · rw [heq]
      exact h
    · rw [heq]
      exact .of_not_promoting (by simp [Node.Promoting])
  | shutdown =>
    simp only [step]
    obtain heq | ⟨-, -, phase, -, hgoal, heq⟩ := (s.node i).shutdown_cases
    · rw [heq]
      exact h
    · rw [heq]
      refine .of_not_promoting ?_
      rintro ⟨-, hp | hp⟩
      · obtain rfl : phase = .stopped .primary := hp
        cases hgoal
      · obtain rfl : phase = .switched .primary := hp
        cases hgoal
  | write header frames =>
    refine .of_not_promoting (hafter.not_promoting_of_primary ?_)
    exact ((s.node i).write_keeps cfg.pageSize header frames).currentRole.trans hc.2
  | drain =>
    simp only [step] at hafter ⊢
    obtain heq | ⟨_, _, _, -, -, -, ⟨-, heq⟩ | ⟨-, heq⟩⟩ :=
      drain_cases cfg.pageSizeOk (hsound.node i)
    · rw [heq]
      exact h
    · exact .of_not_promoting (hafter.not_promoting (by rw [heq]; simp))
    · exact .of_not_promoting (hafter.not_promoting (by rw [heq]; simp))
  | publish answer =>
    simp only [step] at hafter ⊢
    obtain heq | ⟨_, _, -, ⟨-, heq⟩ | ⟨-, heq⟩⟩ := (s.node i).publish_cases s.bus answer
    · rw [heq]
      exact h
    · exact .of_not_promoting (hafter.not_promoting (by rw [heq]; simp))
    · exact .of_not_promoting (hafter.not_promoting (by rw [heq]; simp))
  | poll io =>
    simp only [step] at hafter ⊢
    obtain heq | ⟨_, _, _, -, -, heq⟩ := (s.node i).poll_cases s.now s.bus io
    · rw [heq]
      exact h
    · exact .of_not_promoting (hafter.not_promoting (by rw [heq]; simp))
  | _ => exact h.quiet (step_quiet cfg i s.now s.lease s.bus (s.node i) rfl).1

theorem ready_of_reachable {ι : Type} [DecidableEq ι] {cfg : Config ι} {file : ι → Bytes}
    {s : Cluster ι} (h : ((system cfg file).restrict (CaughtUp cfg)).Reachable s) (i : ι) :
    (s.node i).Ready cfg s.bus.log := by
  refine run_invariant (fun s => ∀ i, (s.node i).Ready cfg s.bus.log) ?_ (fun s now hs => hs) ?_ h i
  · rintro _ ⟨now, journal, -, rfl⟩ i
    exact .of_not_promoting (by simp [Node.Promoting, boot, Node.boot])
  · intro s i event hr hs hup hc j
    have hsound := sound_of_reachable hr.of_restrict
    by_cases hj : j = i
    · subst hj
      rw [next_bus cfg s event hup, next_self cfg s event hup]
      exact ready_step hsound (shape_of_reachable hr.of_restrict j)
        (replays_of_reachable (fun _ _ hc => hc.1) (fun _ _ _ _ hc => hc.2) hr j) (hs j) hc
    · rw [next_other cfg s event hup hj]
      obtain hbus | ⟨_, segment, rfl, htask, -⟩ :=
        step_bus cfg i s.now s.lease s.bus (s.node i) event
      · rw [next_bus cfg s event hup, hbus]
        exact hs j
      · refine .of_not_promoting (hc.2 ?_ j)
        simp [busy, htask]

end Cluster

theorem promotion_replays {ι : Type} [DecidableEq ι] {cfg : Config ι} {file : ι → Bytes}
    {s : Cluster ι} (h : ((system cfg file).restrict (Cluster.CaughtUp cfg)).Reachable s)
    (act : ClusterAct ι) (i : ι) (hbefore : (s.node i).shared.role ≠ .primary)
    (hafter : ((s.next cfg act).node i).shared.role = .primary) :
    ((s.next cfg act).node i).applied = (s.next cfg act).bus.log ∧
      ∃ base mode, ((s.next cfg act).node i).store.file =
        cfg.stamp mode .wal (replay (s.next cfg act).bus.log base) := by
  cases act with
  | advance ms => exact absurd hafter hbefore
  | node j event =>
    by_cases hup : (s.node j).up = true
    · by_cases hij : i = j
      · subst hij
        rw [next_self cfg s event hup] at hafter ⊢
        rw [next_bus cfg s event hup]
        by_cases he : event = .setRole
        · subst he
          simp only [step] at hafter ⊢
          obtain heq | ⟨effective, hp, heq⟩ := (s.node i).setRole_cases
          · rw [heq] at hafter
            exact absurd hafter hbefore
          · rw [heq] at hafter ⊢
            obtain rfl : effective = .primary := hafter
            exact (ready_of_reachable h i).switched hup hp
        · rw [step_role cfg i s.now s.lease s.bus (s.node i) he] at hafter
          exact absurd hafter hbefore
      · rw [next_other cfg s event hup hij] at hafter
        exact absurd hafter hbefore
    · rw [next, if_neg hup] at hafter
      exact absurd hafter hbefore

/-- Pages of 512 bytes and the real lease lifetime; a journal switch leaves the file alone. -/
def smallConfig : Config Bool := ⟨512, by decide, fun _ => 15000, fun _ _ file => file⟩

def sampleWrite : List (ClusterAct Bool) :=
  [.node true .request, .node true (.write (sampleHeader (10, 20)) [samplePage 1 1 0xA1])]

def sampleShip : List (ClusterAct Bool) := [.node true .drain, .node true (.publish (.ok ()))]

def sampleTakeover : List (ClusterAct Bool) :=
  [.advance 15000, .node false (.elect (.ok ())), .node false .stop,
    .node false (.switchJournal ⟨none, .ok .wal⟩ ⟨none, .ok .delete⟩)]

def sampleRun (acts : List (ClusterAct Bool)) : Cluster Bool :=
  acts.foldl (Cluster.next smallConfig) sampleBoot

theorem sampleRun_snoc (acts : List (ClusterAct Bool)) (act : ClusterAct Bool) :
    sampleRun (acts ++ [act]) = (sampleRun acts).next smallConfig act := by
  simp [sampleRun]

def sampleReplayed : List (ClusterAct Bool) :=
  promotion true ++ sampleWrite ++ sampleShip ++ [.node false (.poll ⟨.ok 512, none⟩)] ++ sampleTakeover

theorem promotion_replays_polled :
    ((system smallConfig (fun _ => [])).restrict (Cluster.CaughtUp smallConfig)).Reachable
      (sampleRun sampleReplayed) ∧
    (sampleRun sampleReplayed).bus.log.length = 1 ∧
    ((sampleRun (sampleReplayed ++ [.node false .setRole])).node false).applied =
      (sampleRun (sampleReplayed ++ [.node false .setRole])).bus.log := by
  have hr : ((system smallConfig (fun _ => [])).restrict
      (Cluster.CaughtUp smallConfig)).Reachable (sampleRun sampleReplayed) := by
    refine Legal.reachable_restrict ?_ (.init ⟨0, fun _ => .delete, by simp, rfl⟩)
    refine ⟨⟨trivial, trivial, trivial⟩, ⟨trivial, trivial, fun _ => rfl⟩,
      ⟨trivial, trivial, trivial⟩, ⟨trivial, trivial, trivial⟩, ⟨trivial, trivial, trivial⟩,
      ⟨trivial, fun _ => ⟨by decide +kernel, ?_⟩, rfl⟩, ⟨trivial, trivial, trivial⟩,
      ⟨trivial, rfl, fun _ j => ?_⟩, ⟨trivial, ⟨rfl, rfl⟩, trivial⟩,
      ⟨trivial, trivial, trivial⟩, ⟨trivial, trivial, trivial⟩,
      ⟨trivial, trivial, fun _ => ?_⟩, ⟨trivial, trivial, trivial⟩, trivial⟩
    · intro j
      cases j <;> decide +kernel
    · cases j <;> decide +kernel
    · decide +kernel
  refine ⟨hr, by decide +kernel, ?_⟩
  rw [sampleRun_snoc]
  exact (promotion_replays hr (.node false .setRole) false (by decide +kernel)
    (by decide +kernel)).1

/-- The bus acknowledges a segment, the standby has not polled it when the lease runs out,
and it is promoted all the same. -/
theorem promotion_skips_shipped :
    let run := promotion true ++ sampleWrite ++ sampleShip ++ sampleTakeover
    let s := sampleRun (run ++ [.node false .setRole])
    ((system smallConfig (fun _ => [])).restrict (Cluster.Smooth smallConfig)).Reachable s ∧
      ((sampleRun run).node false).shared.role = .standby ∧
      (s.node false).shared.role = .primary ∧ s.bus.log.length = 1 ∧
      (s.node false).applied = [] ∧ (s.node false).store.file = [] ∧
      (s.node true).store.file = List.replicate 512 0xA1 := by
  refine ⟨Legal.reachable_restrict ?_ (.init ⟨0, fun _ => .delete, by simp, rfl⟩), by decide +kernel⟩
  refine ⟨⟨trivial, trivial⟩, ⟨trivial, trivial⟩, ⟨trivial, trivial⟩, ⟨trivial, trivial⟩,
    ⟨trivial, trivial⟩, ⟨trivial, fun _ => ⟨by decide +kernel, ?_⟩⟩, ⟨trivial, trivial⟩, ⟨trivial, rfl⟩,
    ⟨trivial, trivial⟩, ⟨trivial, trivial⟩, ⟨trivial, trivial⟩, ⟨trivial, trivial⟩,
    ⟨trivial, trivial⟩, trivial⟩
  intro j
  cases j <;> decide +kernel

/-- Nothing fails, the shipping task of a primary is stopped only when its sidecar is
empty, and nobody writes to a primary whose task has been stopped. -/
def Cluster.DrainsFirst {ι : Type} (cfg : Config ι) (s : Cluster ι) (act : ClusterAct ι) : Prop :=
  s.Smooth cfg act ∧ match act with
    | .node i .stop => (s.node i).currentRole = .primary → (s.node i).store.wal = none
    | .node i .shutdown => (s.node i).currentRole = .primary → (s.node i).store.wal = none
    | .node i (.write _ _) => (s.node i).shared.role = .primary → (s.node i).phase.runs = true
    | _ => True

namespace Node

def unshipped (n : Node) : List WalFrame :=
  if n.currentRole = .primary ∧ n.phase.runs = true then
    n.inflight.elim [] WalSegment.frames ++ n.store.walFrames
  else []

structure Shipped (log : List WalSegment) (n : Node) : Prop where
  bus : n.published.Sublist log
  frames : n.committed.Sublist (n.published.flatMap WalSegment.frames ++ n.unshipped)

theorem unshipped_of_idle {n : Node} (h : ¬(n.currentRole = .primary ∧ n.phase.runs = true)) :
    n.unshipped = [] := if_neg h

theorem Shipped.stopped {log : List WalSegment} {n m : Node} (h : n.Shipped log)
    (hp : n.phase.runs = true) (hshape : n.Shape) (hbusy : n.busy = false)
    (hwal : n.currentRole = .primary → n.store.wal = none) (hm : m.published = n.published)
    (hc : m.committed = n.committed) (hstop : m.phase.runs = false) : m.Shipped log := by
  have hnone : n.unshipped = [] := by
    obtain ⟨shipper, inflight, hr, ht⟩ | ⟨_, _, hr, -⟩ := hshape.running hp
    · cases inflight with
      | none => simp [unshipped, inflight, ht, Store.walFrames, hwal hr]
      | some segment => simp [busy, ht] at hbusy
    · exact unshipped_of_idle (by simp [hr])
  have hframes := h.frames
  rw [hnone] at hframes
  refine ⟨hm ▸ h.bus, ?_⟩
  rw [unshipped_of_idle (by simp [hstop]), hm, hc]
  exact hframes

theorem Shipped.quiet {log : List WalSegment} {n m : Node} (h : n.Shipped log)
    (hq : n.Quiet m) : m.Shipped log := by
  have hruns : m.phase.runs = n.phase.runs := by
    obtain heq | ⟨hn, want, hm⟩ | ⟨hn, hm⟩ := hq.phase
    · rw [heq]
    · rw [hn, hm]
      rfl
    · rw [hn, hm]
      rfl
  have hun : m.unshipped = n.unshipped := by
    unfold unshipped inflight
    rw [hq.currentRole, hruns, hq.task, hq.store]
  refine ⟨hq.published ▸ h.bus, ?_⟩
  rw [hq.committed, hq.published, hun]
  exact h.frames

theorem Shipped.setRole {log : List WalSegment} {n : Node} (h : n.Shipped log) :
    n.setRole.Shipped log := by
  obtain heq | ⟨effective, hp, heq⟩ := n.setRole_cases
  · rw [heq]
    exact h
  · have hframes := h.frames
    rw [unshipped_of_idle (by simp [hp, Phase.runs]), List.append_nil] at hframes
    rw [heq]
    exact ⟨h.bus, hframes.trans (List.sublist_append_left _ _)⟩

theorem Shipped.switchJournal {log : List WalSegment} {n : Node} (h : n.Shipped log)
    (stamp : HeaderStamp) (first second : Pragmas) :
    (n.switchJournal stamp first second).Shipped log := by
  obtain heq | ⟨_, _, _, _, hp, -, -, -, -, heq⟩ := n.switchJournal_cases stamp first second
  · rw [heq]
    exact h
  · have hframes := h.frames
    rw [unshipped_of_idle (by simp [hp, Phase.runs])] at hframes
    rw [heq]
    refine ⟨h.bus, ?_⟩
    rw [unshipped_of_idle (by simp [Phase.runs])]
    exact hframes

theorem Shipped.write {pageSize : UInt32} {log : List WalSegment} {n : Node} (h : n.Shipped log)
    (hshape : n.Shape) (header : WalHeader) (frames : List WalFrame)
    (hc : n.shared.role = .primary → n.phase.runs = true) :
    (n.write pageSize header frames).Shipped log := by
  obtain heq | ⟨-, heq⟩ := n.write_cases pageSize header frames
  · rw [heq]
    exact h
  · rw [heq]
    refine ⟨h.bus, ?_⟩
    by_cases hr : n.currentRole = .primary
    · have hruns := hc (hshape.role.trans hr)
      have hjournal : n.store.journal = .wal :=
        hshape.journal hr (by cases hp : n.phase <;> simp_all [Phase.runs, Phase.isSwitched])
      have hframes := h.frames
      simp only [unshipped, hr, hruns, and_self, if_true] at hframes ⊢
      rw [if_pos (hshape.role.trans hr)]
      have hwal : (n.store.commit header frames).walFrames = n.store.walFrames ++ frames := by
        cases hw : n.store.wal <;> simp [Store.commit, Store.walFrames, hjournal, hw]
      rw [hwal, ← List.append_assoc, ← List.append_assoc]
      refine List.Sublist.append ?_ (List.Sublist.refl _)
      rw [List.append_assoc]
      exact hframes
    · have hframes := h.frames
      rw [unshipped_of_idle (by simp [hr])] at hframes ⊢
      rw [if_neg (by rw [hshape.role]; exact hr), List.append_nil]
      exact hframes

theorem Shipped.drain {pageSize : UInt32} (hs : PageSizeOk pageSize) {log : List WalSegment}
    {n : Node} (h : n.Shipped log) (hsound : n.Sound pageSize)
    (hnew : ∀ shipper header frames, n.task = some (.primary shipper none) →
      n.store.wal = some (header, frames) → shipper.lastSalts ≠ some header.salts) :
    n.drain.Shipped log := by
  obtain heq | ⟨_, header, frames, htask, hw, -, _, segment, hseg, -, -, -, heq⟩ :=
    drain_ships hs hsound hnew
  · rw [heq]
    exact h
  · rw [heq]
    refine ⟨h.bus, ?_⟩
    have hframes := h.frames
    simp only [unshipped, inflight, htask, Store.walFrames, hw, Option.elim,
      List.nil_append] at hframes
    simp only [unshipped, inflight, Store.walFrames, Store.checkpoint_wal, Option.elim,
      List.append_nil, hseg]
    exact hframes

theorem Shipped.publish {bus : WalBus} {n : Node} (h : n.Shipped bus.log) (hshape : n.Shape) :
    (n.publish bus (.ok ())).2.Shipped (n.publish bus (.ok ())).1.log := by
  obtain heq | ⟨shipper, segment, htask, ⟨-, heq⟩ | ⟨ha, -⟩⟩ := n.publish_cases bus (.ok ())
  · rw [heq]
    exact h
  · have hrun : n.currentRole = .primary ∧ n.phase.runs = true := by
      have hrole := hshape.task
      rw [htask] at hrole
      split at hrole
      · rename_i hruns
        exact ⟨(Option.some.inj hrole).symm, hruns⟩
      · cases hrole
    rw [heq]
    refine ⟨h.bus.append (List.Sublist.refl _), ?_⟩
    have hframes := h.frames
    simp only [unshipped, hrun, and_self, if_true, inflight, htask, Option.elim] at hframes
    simp only [unshipped, hrun, and_self, if_true, inflight, Option.elim, List.nil_append,
      List.flatMap_append, List.flatMap_cons, List.flatMap_nil, List.append_nil, List.append_assoc]
    exact hframes
  · exact absurd rfl ha

theorem Shipped.poll {log : List WalSegment} {n : Node} (h : n.Shipped log) (hshape : n.Shape)
    (now : Int) (bus : WalBus) (io : ApplyIo) : (n.poll now bus io).Shipped log := by
  obtain heq | ⟨cursor, next, segment, htask, -, heq⟩ := n.poll_cases now bus io
  · rw [heq]
    exact h
  · have hr : n.currentRole ≠ .primary := by
      rw [hshape.standby htask]
      simp
    have hframes := h.frames
    rw [unshipped_of_idle (fun hp => hr hp.1)] at hframes
    have hrole := (n.poll_keeps now bus io).currentRole
    have hpublished : (n.poll now bus io).published = n.published := by rw [heq]
    have hcommitted : (n.poll now bus io).committed = n.committed := by rw [heq]
    refine ⟨hpublished ▸ h.bus, ?_⟩
    rw [unshipped_of_idle (fun hp => hr (hrole ▸ hp.1)), hpublished, hcommitted]
    exact hframes

end Node

namespace Cluster

theorem shipped_step {ι : Type} [DecidableEq ι] {cfg : Config ι} {s : Cluster ι}
    (hd : s.Distinct) (hsound : s.Sound cfg) {i : ι} (hshape : (s.node i).Shape)
    (hknown : (s.node i).Known s.bus.log) (h : (s.node i).Shipped s.bus.log) {event : Event}
    (hc : s.DrainsFirst cfg (.node i event)) :
    ((s.node i).step cfg i s.now s.lease s.bus event).node.Shipped
      ((s.node i).step cfg i s.now s.lease s.bus event).bus.log := by
  cases event with
  | stop =>
    simp only [step]
    obtain heq | ⟨_, hp, hbusy, heq⟩ := (s.node i).stop_cases
    · rw [heq]
      exact h
    · rw [heq]
      exact h.stopped (by rw [hp]; rfl) hshape hbusy hc.2 rfl rfl rfl
  | shutdown =>
    simp only [step]
    obtain heq | ⟨hp, hbusy, phase, hruns, -, heq⟩ := (s.node i).shutdown_cases
    · rw [heq]
      exact h
    · rw [heq]
      exact h.stopped (by rw [hp]; rfl) hshape hbusy hc.2 rfl rfl hruns
  | switchJournal first second => exact h.switchJournal cfg.stamp first second
  | setRole => exact h.setRole
  | write header frames => exact h.write hshape header frames hc.2
  | drain => exact h.drain cfg.pageSizeOk (hsound.node i) (unseen hd hknown)
  | publish answer =>
    obtain rfl : answer = .ok () := hc.1
    exact h.publish hshape
  | poll io => exact h.poll hshape s.now s.bus io
  | _ => exact h.quiet (step_quiet cfg i s.now s.lease s.bus (s.node i) rfl).1

theorem shipped_of_reachable {ι : Type} [DecidableEq ι] {cfg : Config ι} {file : ι → Bytes}
    {s : Cluster ι} (h : ((system cfg file).restrict (DrainsFirst cfg)).Reachable s) (i : ι) :
    (s.node i).Shipped s.bus.log := by
  refine run_invariant (fun s => ∀ i, (s.node i).Shipped s.bus.log) ?_ (fun s now hs => hs) ?_ h i
  · rintro _ ⟨now, journal, -, rfl⟩ i
    exact ⟨List.Sublist.refl _, List.nil_sublist _⟩
  · intro s i event hr hs hup hc j
    rw [next_bus cfg s event hup]
    by_cases hj : j = i
    · subst hj
      rw [next_self cfg s event hup]
      exact shipped_step (distinct_of_reachable (fun _ _ _ _ hc => hc.1) hr)
        (sound_of_reachable hr.of_restrict) (shape_of_reachable hr.of_restrict j)
        (known_of_reachable (fun _ _ hc => hc.1) hr j) (hs j) hc
    · rw [next_other cfg s event hup hj]
      have hlog := step_log cfg i s.now s.lease s.bus (s.node i) event
      exact ⟨(hs j).bus.trans hlog.sublist, (hs j).frames⟩

end Cluster

theorem step_down_ships {ι : Type} [DecidableEq ι] {cfg : Config ι} {file : ι → Bytes}
    {s : Cluster ι}
    (h : ((system cfg file).restrict (Cluster.DrainsFirst cfg)).Reachable s) (i : ι)
    (hp : (s.node i).phase = .leaving true) :
    (s.node i).published.Sublist s.bus.log ∧
      (s.node i).committed.Sublist ((s.node i).published.flatMap WalSegment.frames) := by
  have hs := shipped_of_reachable h i
  have hframes := hs.frames
  rw [unshipped_of_idle (by simp [hp, Phase.runs]), List.append_nil] at hframes
  exact ⟨hs.bus, hframes⟩

def sampleShipped : List (ClusterAct Bool) :=
  promotion true ++ sampleWrite ++ sampleShip ++ [.node true .shutdown]

theorem step_down_ships_drained :
    ((system smallConfig (fun _ => [])).restrict
      (Cluster.DrainsFirst smallConfig)).Reachable (sampleRun sampleShipped) ∧
    ((sampleRun sampleShipped).node true).phase = .leaving true ∧
    ((sampleRun sampleShipped).node true).committed = [samplePage 1 1 0xA1] ∧
    ((sampleRun sampleShipped).node true).committed.Sublist
      (((sampleRun sampleShipped).node true).published.flatMap WalSegment.frames) := by
  have hr : ((system smallConfig (fun _ => [])).restrict
      (Cluster.DrainsFirst smallConfig)).Reachable (sampleRun sampleShipped) := by
    refine Legal.reachable_restrict ?_ (.init ⟨0, fun _ => .delete, by simp, rfl⟩)
    refine ⟨⟨trivial, trivial, trivial⟩, ⟨trivial, trivial, fun _ => rfl⟩,
      ⟨trivial, trivial, trivial⟩, ⟨trivial, trivial, trivial⟩, ⟨trivial, trivial, trivial⟩,
      ⟨trivial, fun _ => ⟨by decide +kernel, ?_⟩, fun _ => rfl⟩, ⟨trivial, trivial, trivial⟩,
      ⟨trivial, rfl, trivial⟩, ⟨trivial, trivial, fun _ => ?_⟩, trivial⟩
    · intro j
      cases j <;> decide +kernel
    · decide +kernel
  have hp : ((sampleRun sampleShipped).node true).phase = .leaving true := by decide +kernel
  exact ⟨hr, hp, by decide +kernel, (step_down_ships hr true hp).2⟩

/-- The shutdown comes between the commit and the next tick of the shipping task: the
lease goes and the frame stays. -/
theorem step_down_leaves_frame :
    let s := sampleRun (promotion true ++ sampleWrite ++ [.node true .shutdown])
    ((system smallConfig (fun _ => [])).restrict (Cluster.Smooth smallConfig)).Reachable s ∧
      (s.node true).phase = .leaving true ∧ (s.node true).shared.role = .primary ∧
      (s.node true).committed = [samplePage 1 1 0xA1] ∧ s.bus.log = [] ∧
      (s.next smallConfig (.node true (.release (.ok ())))).lease.current 0 = none := by
  refine ⟨Legal.reachable_restrict ?_ (.init ⟨0, fun _ => .delete, by simp, rfl⟩), by decide +kernel⟩
  refine ⟨⟨trivial, trivial⟩, ⟨trivial, trivial⟩, ⟨trivial, trivial⟩, ⟨trivial, trivial⟩,
    ⟨trivial, trivial⟩, ⟨trivial, fun _ => ⟨by decide +kernel, ?_⟩⟩, ⟨trivial, trivial⟩, trivial⟩
  intro j
  cases j <;> decide +kernel

end Knowledge.Replication
