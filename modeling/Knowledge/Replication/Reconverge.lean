import Knowledge.Replication.Handover

/-!
When a standby that has replayed the whole bus has the file of the current primary, over
any number of changes of leadership. Replay leaves alone the pages no segment names, so
everything rests on one lineage: nobody but the holder of the lease writes, the lease
moves on only when everything is on the bus, and a new holder has replayed it all.
-/

set_option autoImplicit false

namespace Knowledge.Replication
open Knowledge.Splice Knowledge.Transition
open False

def Phase.isOver : Phase → Bool
  | .leaving _ => true
  | .exited => true
  | _ => false

open Phase

theorem Phase.isOver_of_runs {phase : Phase} (h : phase.runs = true) : phase.isOver = false := by
  cases phase <;> simp_all [runs, isOver]

/-- Nothing that is committed here is still on its way to the bus. -/
def Node.Clean (n : Node) : Prop := n.store.wal = none ∧ n.inflight = none

open Node

instance (n : Node) : Decidable n.Clean := inferInstanceAs (Decidable (_ ∧ _))

/-- No other node's lease is in force: an acquire of this node succeeds. -/
def Cluster.Obtains {ι : Type} (s : Cluster ι) (i : ι) : Prop :=
  ∀ l ∈ s.lease.lease, s.now < l.expiresAtMs → l.holder = i

open Cluster

/-- Nothing fails; a node gets the lease only when all the others have shipped everything,
and not while it acts as the primary of an earlier lease that others had since; it ends
its standby task for a promotion at the end of the bus; and only the holder writes. -/
def Cluster.OneLineage {ι : Type} (cfg : Config ι) (s : Cluster ι) (act : ClusterAct ι) : Prop :=
  s.Smooth cfg act ∧ match act with
    | .node i (.elect (.ok ())) => s.Obtains i →
      ((s.node i).currentRole = .primary → s.lease.holder = some i) ∧
      ∀ j, j ≠ i → (s.node j).up = true → (s.node j).phase.isOver = false → (s.node j).Clean
    | .node i .stop => (s.node i).phase = .elected .primary →
      (s.node i).place = some s.bus.log.length
    | .node i (.write _ _) => (s.node i).currentRole = .primary ∧ s.lease.holder = some i
    | _ => True

def Node.since (log : List WalSegment) (n : Node) : List WalSegment :=
  log.drop n.applied.length ++ n.inflight.toList

/-- What one lineage means for a node, given whether the lease names it. The body of a file
is what lies behind the first page, which journal switches rewrite. -/
structure Node.Lineage (page : Nat) (base : Bytes) (log : List WalSegment) (held : Prop)
    (n : Node) : Prop where
  clean : n.phase.isOver = false → ¬(held ∧ n.currentRole = .primary) → n.Clean
  keeps : held → n.currentRole = .primary → n.phase.goal ≠ some .standby
  body : ∀ p, page ≤ p → ¬Touched (log.flatMap WalSegment.ops) p →
    ¬Touched (n.inflight.toList.flatMap WalSegment.ops) p → cell 0 n.store.file p = cell 0 base p
  replayed : n.currentRole = .standby → n.phase.isSwitched = false →
    ∃ x, n.store.file = replay n.applied x
  stopped : held → n.phase = .stopped .primary → n.applied = log
  switched : held → n.phase = .switched .primary → n.applied = log ∧
    ∀ p, page ≤ p → cell 0 n.store.file p = cell 0 (replay log base) p
  leads : held → n.currentRole = .primary → n.applied <+: log ∧
    ∃ x, n.store.file = replay (n.since log) x ∧
      ∀ p, page ≤ p → cell 0 x p = cell 0 (replay n.applied base) p

namespace Node

theorem Lineage.boot (page : Nat) (base : Bytes) (journal : JournalMode) :
    (boot base journal).Lineage page base [] False := by
  refine ⟨fun _ _ => ⟨rfl, rfl⟩, elim, fun _ _ _ _ => rfl, fun _ _ => ⟨base, rfl⟩,
    elim, elim, elim⟩

section

variable {page : Nat} {base : Bytes}

theorem Lineage.unheld {log log' : List WalSegment} {held : Prop}
    {n : Node} (h : n.Lineage page base log held) (hlog : log <+: log')
    (hclean : n.phase.isOver = false → n.Clean) : n.Lineage page base log' False := by
  refine ⟨fun ho _ => hclean ho, elim, ?_, h.replayed, elim, elim, elim⟩
  intro p hp hl hi
  refine h.body p hp (fun ht => hl (ht.mono ?_)) hi
  obtain ⟨rest, rfl⟩ := hlog
  rw [List.flatMap_append]
  exact List.subset_append_left _ _

theorem Lineage.congr {log : List WalSegment} {held held' : Prop}
    {n : Node} (h : n.Lineage page base log held) (hheld : held' ↔ held) :
    n.Lineage page base log held' := by
  rw [propext hheld]
  exact h

theorem Lineage.quiet {log : List WalSegment} {held : Prop}
    {n m : Node} (h : n.Lineage page base log held) (hq : n.Quiet m)
    (hphase : m.phase = n.phase ∨ (n.phase.isOver = true ∧ m.phase = .exited)) :
    m.Lineage page base log held := by
  have hinflight : m.inflight = n.inflight := by
    unfold inflight
    rw [hq.task]
  have hsince : m.since log = n.since log := by
    unfold since
    rw [hinflight, hq.applied]
  refine ⟨?_, ?_, ?_, ?_, ?_, ?_, ?_⟩
  · intro ho hne
    rw [hq.currentRole] at hne
    unfold Clean
    rw [hinflight, hq.store]
    obtain hp | ⟨-, hp⟩ := hphase
    · rw [hp] at ho
      exact h.clean ho hne
    · rw [hp] at ho
      cases ho
  · intro hh hr
    obtain hp | ⟨-, hp⟩ := hphase
    · rw [hp]
      exact h.keeps hh (hq.currentRole ▸ hr)
    · rw [hp]
      simp [goal]
  · rw [hinflight, hq.store]
    exact h.body
  · intro hr hs
    rw [hq.store, hq.applied]
    refine h.replayed (hq.currentRole ▸ hr) ?_
    obtain hp | ⟨ho, -⟩ := hphase
    · exact hp ▸ hs
    · cases hp : n.phase <;> simp_all [isOver, isSwitched]
  · intro hh hs
    obtain hp | ⟨-, hp⟩ := hphase
    · rw [hq.applied]
      exact h.stopped hh (hp ▸ hs)
    · rw [hp] at hs
      cases hs
  · intro hh hs
    obtain hp | ⟨-, hp⟩ := hphase
    · rw [hq.applied, hq.store]
      exact h.switched hh (hp ▸ hs)
    · rw [hp] at hs
      cases hs
  · intro hh hr
    rw [hsince, hq.applied, hq.store]
    exact h.leads hh (hq.currentRole ▸ hr)

theorem Lineage.elected {log : List WalSegment} {held held' : Prop}
    {n : Node} (h : n.Lineage page base log held) (hp : n.phase = .idle)
    {shared : ReplicationShared} {phase : Phase}
    (hphase : phase = .idle ∨ ∃ want, phase = .elected want)
    (hgoal : held' → n.currentRole = .primary → phase.goal ≠ some .standby)
    (hheld : held' → n.currentRole = .primary → held)
    (hlost : ¬(held' ∧ n.currentRole = .primary) → ¬(held ∧ n.currentRole = .primary)) :
    { n with shared, phase }.Lineage page base log held' := by
  have hover : n.phase.isOver = false := by
    rw [hp]
    rfl
  have hswitched : n.phase.isSwitched = false := by
    rw [hp]
    rfl
  refine ⟨fun _ hne => h.clean hover (hlost hne), hgoal, h.body, fun hr _ => h.replayed hr hswitched,
    ?_, ?_, fun hh hr => h.leads (hheld hh hr) hr⟩
  · rintro - hs
    obtain rfl | ⟨want, rfl⟩ := hphase <;> cases hs
  · rintro - hs
    obtain rfl | ⟨want, rfl⟩ := hphase <;> cases hs

end

theorem inflight_of_not_busy {n : Node} (h : n.busy = false) : n.inflight = none := by
  unfold inflight
  split
  · rename_i shipper inflight ht
    cases inflight with
    | none => rfl
    | some segment => simp [busy, ht] at h
  · rfl

/-- The task ends with nothing in flight; the phase moves on without a journal switch. -/
theorem Lineage.ended {page : Nat} {base : Bytes} {log : List WalSegment} {held : Prop}
    {n : Node} (h : n.Lineage page base log held) (hbusy : n.busy = false) {phase : Phase}
    (hover : phase.isOver = false → n.phase.isOver = false)
    (hgoal : phase.goal = n.phase.goal ∨ phase.goal = none)
    (hswitched : n.phase.isSwitched = false) (hphase : phase.isSwitched = false)
    (hstopped : held → phase = .stopped .primary → n.applied = log) :
    { n with task := none, phase }.Lineage page base log held := by
  have hinflight := inflight_of_not_busy hbusy
  have hsince : since log { n with task := none, phase } = n.since log := by
    simp only [since, hinflight]
    rfl
  refine ⟨fun ho hne => ⟨(h.clean (hover ho) hne).1, rfl⟩, ?_, ?_,
    fun hr _ => h.replayed hr hswitched, hstopped, ?_, ?_⟩
  · intro hh hr
    obtain hg | hg := hgoal
    · rw [hg]
      exact h.keeps hh hr
    · rw [hg]
      simp
  · intro p hp hl _
    refine h.body p hp hl ?_
    rw [hinflight]
    rintro ⟨op, hop, -⟩
    cases hop
  · rintro - hs
    have hs : phase = .switched .primary := hs
    rw [hs] at hphase
    cases hphase
  · intro hh hr
    rw [hsince]
    exact h.leads hh hr

end Node

theorem Store.checkpoint_of_empty {store : Store} (h : store.wal = none) :
    store.checkpoint = store := by
  unfold Store.checkpoint
  rw [h]

theorem Store.Moves.body {stamp : HeaderStamp} {page : Nat}
    (hstamp : ∀ mode mode' file p, page ≤ p →
      cell 0 (stamp mode mode' file) p = cell 0 file p)
    {store store' : Store} (h : store.Moves stamp store') (hw : store.wal = none) :
    store'.wal = none ∧ ∀ p, page ≤ p → cell 0 store'.file p = cell 0 store.file p := by
  induction h with
  | refl => exact ⟨hw, fun _ _ => rfl⟩
  | checkpoint _ ih =>
    rw [Store.checkpoint_of_empty ih.1]
    exact ih
  | enterMode mode _ ih =>
    refine ⟨ih.1, fun p hp => ?_⟩
    rw [← ih.2 p hp]
    exact hstamp _ _ _ p hp

namespace Node

theorem Shape.no_inflight {n : Node} (h : n.Shape) (hr : n.currentRole = .standby) :
    n.inflight = none := by
  have htask := h.task
  cases ht : n.task with
  | none => simp [inflight, ht]
  | some task =>
    cases task with
    | standby cursor next => simp [inflight, ht]
    | primary shipper inflight =>
      rw [ht, hr] at htask
      split at htask <;> cases htask

theorem Lineage.body_replayed {page : Nat} {base : Bytes} {log : List WalSegment} {held : Prop}
    {n : Node} (h : n.Lineage page base log held) (hi : n.inflight = none) {x : Bytes}
    (hx : n.store.file = replay log x) {p : Nat} (hp : page ≤ p) :
    cell 0 n.store.file p = cell 0 (replay log base) p := by
  by_cases ht : Touched (log.flatMap WalSegment.ops) p
  · rw [hx]
    exact cell_run_congr (.inl ht)
  · have hbase : cell 0 (replay log base) p = cell 0 base p := cell_run_of_not_touched ht base
    rw [hbase]
    refine h.body p hp ht ?_
    rw [hi]
    rintro ⟨op, hop, -⟩
    cases hop

theorem Lineage.not_leaving {page : Nat} {base : Bytes} {log : List WalSegment} {held : Prop}
    {n : Node} (h : n.Lineage page base log held) (hshape : n.Shape) {want : Role}
    (hgoal : n.phase.goal = some want) (hne : n.currentRole = .primary → want ≠ .primary) :
    ¬(held ∧ n.currentRole = .primary) := by
  rintro ⟨hh, hr⟩
  have hkeeps := h.keeps hh hr
  have henabled := hshape.goal
  rw [hgoal] at hkeeps henabled
  cases want with
  | primary => exact hne hr rfl
  | standby => exact hkeeps rfl
  | disabled => exact henabled rfl

theorem Lineage.switchJournal {page : Nat} {stamp : HeaderStamp}
    (hstamp : ∀ mode mode' file p, page ≤ p →
      cell 0 (stamp mode mode' file) p = cell 0 file p) {base : Bytes} {log : List WalSegment}
    {held : Prop} {n : Node} (h : n.Lineage page base log held) (hshape : n.Shape)
    (first second : Pragmas) :
    (n.switchJournal stamp first second).Lineage page base log held := by
  obtain heq | ⟨want, effective, store, lost, hp, hm, -, heff, -, heq⟩ :=
    n.switchJournal_cases stamp first second
  · rw [heq]
    exact h
  · have hgoal : n.phase.goal = some want := by rw [hp]; rfl
    have hchange : want ≠ n.currentRole := by
      intro hw
      exact hshape.change (by rw [hp]; rfl) (by rw [hgoal, hw])
    have hleave := h.not_leaving hshape hgoal (fun hr hw => hchange (hw.trans hr.symm))
    have hclean := h.clean (by rw [hp]; rfl) hleave
    obtain ⟨hwal, hbody⟩ := hm.body hstamp hclean.1
    rw [heq]
    refine ⟨fun _ _ => ⟨hwal, hclean.2⟩, fun hh hr => absurd ⟨hh, hr⟩ hleave, ?_, ?_, ?_, ?_,
      fun hh hr => absurd ⟨hh, hr⟩ hleave⟩
    · intro p hpage hl hi
      rw [hbody p hpage]
      exact h.body p hpage hl hi
    · rintro - ⟨⟩
    · rintro - ⟨⟩
    · rintro hh ⟨⟩
      obtain ⟨rfl, -⟩ := heff rfl
      have happlied := h.stopped hh hp
      have hrole : n.currentRole = .standby := by
        have henabled := hshape.enabled
        cases hr : n.currentRole with
        | primary => exact absurd hr.symm hchange
        | standby => rfl
        | disabled => exact absurd hr henabled
      obtain ⟨x, hx⟩ := h.replayed hrole (by rw [hp]; rfl)
      rw [happlied] at hx
      refine ⟨happlied, fun p hpage => ?_⟩
      exact (hbody p hpage).trans (h.body_replayed hclean.2 hx hpage)

theorem Lineage.setRole {page : Nat} {base : Bytes} {log : List WalSegment} {held : Prop}
    {n : Node} (h : n.Lineage page base log held) (hshape : n.Shape) :
    n.setRole.Lineage page base log held := by
  obtain heq | ⟨effective, hp, heq⟩ := n.setRole_cases
  · rw [heq]
    exact h
  · have hgoal : n.phase.goal = some effective := by rw [hp]; rfl
    have hleave := h.not_leaving hshape hgoal (fun hr he => hshape.promoted (he ▸ hp) hr)
    have hclean := h.clean (by rw [hp]; rfl) hleave
    have hinflight : n.setRole.inflight = none := by
      rw [heq]
      cases effective <;> rfl
    rw [heq] at hinflight ⊢
    refine ⟨fun _ _ => ⟨hclean.1, hinflight⟩, fun _ _ => by simp [goal], ?_, ?_, ?_, ?_, ?_⟩
    · intro p hpage hl _
      refine h.body p hpage hl ?_
      rw [hclean.2]
      rintro ⟨op, hop, -⟩
      cases hop
    · rintro rfl -
      exact ⟨n.store.file, rfl⟩
    · rintro - ⟨⟩
    · rintro - ⟨⟩
    · rintro hh rfl
      obtain ⟨happlied, hbody⟩ := h.switched hh hp
      have hsame : (if Role.primary = .standby then [] else n.applied) = log := by simpa
      simp only [since, hsame, List.drop_length, List.nil_append]
      exact ⟨List.prefix_rfl, n.store.file, rfl, hbody⟩

theorem Lineage.holds {page : Nat} {base : Bytes} {log : List WalSegment} {held : Prop}
    {n : Node} (h : n.Lineage page base log held) (hover : n.phase.isOver = false)
    (hdirty : ¬n.Clean) : held ∧ n.currentRole = .primary := by
  by_contra hne
  exact hdirty (h.clean hover hne)

theorem Shape.runs_of_task {n : Node} (h : n.Shape) {task : RoleTask} (ht : n.task = some task) :
    n.phase.runs = true := by
  have htask := h.task
  rw [ht] at htask
  by_contra hr
  rw [if_neg hr] at htask
  cases htask

theorem Lineage.write {page : Nat} {base : Bytes} {log : List WalSegment} {held : Prop}
    {pageSize : UInt32} {n : Node} (h : n.Lineage page base log held) (hshape : n.Shape)
    (header : WalHeader) (frames : List WalFrame) (hh : held) (hr : n.currentRole = .primary) :
    (n.write pageSize header frames).Lineage page base log held := by
  obtain heq | ⟨-, heq⟩ := n.write_cases pageSize header frames
  · rw [heq]
    exact h
  · have hjournal : n.store.journal = .wal := by
      refine hshape.journal hr ?_
      cases hp : n.phase with
      | switched effective =>
        have hgoal : n.phase.goal = some effective := by rw [hp]; rfl
        exact absurd ⟨hh, hr⟩
          (h.not_leaving hshape hgoal (fun hr he => hshape.promoted (he ▸ hp) hr))
      | _ => rfl
    have hfile : (n.store.commit header frames).file = n.store.file := by
      unfold Store.commit
      rw [if_pos hjournal]
      split <;> rfl
    rw [heq]
    refine ⟨fun _ hne => absurd ⟨hh, hr⟩ hne, h.keeps, ?_, ?_, h.stopped, ?_, ?_⟩
    · rw [hfile]
      exact h.body
    · rw [hfile]
      exact h.replayed
    · rw [hfile]
      exact h.switched
    · rw [hfile]
      exact h.leads

theorem Lineage.drain {page : Nat} {base : Bytes} {log : List WalSegment} {held : Prop}
    {pageSize : UInt32} (hs : PageSizeOk pageSize) {n : Node}
    (h : n.Lineage page base log held) (hshape : n.Shape) (hsound : n.Sound pageSize)
    (hnew : ∀ shipper header frames, n.task = some (.primary shipper none) →
      n.store.wal = some (header, frames) → shipper.lastSalts ≠ some header.salts) :
    n.drain.Lineage page base log held := by
  obtain heq | ⟨shipper, header, frames, htask, hw, -, shipper', segment, hframes, -, hsize, -, heq⟩ :=
    drain_ships hs hsound hnew
  · rw [heq]
    exact h
  · have hruns := hshape.runs_of_task htask
    obtain ⟨hh, hr⟩ := h.holds (isOver_of_runs hruns) (fun hc => by simp [Clean, hw] at hc)
    have hinflight : n.inflight = none := by simp [inflight, htask]
    have hops : segment.ops = spliceOps header.pageSize frames := by
      rw [WalSegment.ops, hframes, hsize]
    have hfile : n.store.checkpoint.file = run 0 segment.ops n.store.file := by
      rw [hops]
      simp only [Store.checkpoint, hw]
    rw [heq]
    refine ⟨fun _ hne => absurd ⟨hh, hr⟩ hne, h.keeps, ?_, ?_, h.stopped, ?_, ?_⟩
    · intro p hp hl hi
      have hseg : ¬Touched segment.ops p := by simpa [inflight] using hi
      rw [hfile, cell_run_of_not_touched hseg]
      refine h.body p hp hl ?_
      rw [hinflight]
      rintro ⟨op, hop, -⟩
      cases hop
    · intro hr'
      rw [show n.currentRole = .standby from hr'] at hr
      cases hr
    · intro _ hp
      rw [show n.phase = .switched .primary from hp] at hruns
      cases hruns
    · intro _ _
      obtain ⟨happlied, x, hx, hbody⟩ := h.leads hh hr
      refine ⟨happlied, x, ?_, hbody⟩
      have hsince : n.since log = log.drop n.applied.length := by simp [since, hinflight]
      rw [hfile, hx, hsince, ← replay_snoc]
      rfl

theorem Lineage.publish {page : Nat} {base : Bytes} {bus : WalBus} {held : Prop} {n : Node}
    (h : n.Lineage page base bus.log held) (hshape : n.Shape) :
    (n.publish bus (.ok ())).2.Lineage page base (n.publish bus (.ok ())).1.log held := by
  obtain heq | ⟨shipper, segment, htask, ⟨-, heq⟩ | ⟨ha, -⟩⟩ := n.publish_cases bus (.ok ())
  · rw [heq]
    exact h
  · have hruns := hshape.runs_of_task htask
    have hinflight : n.inflight = some segment := by simp [inflight, htask]
    obtain ⟨hh, hr⟩ := h.holds (isOver_of_runs hruns)
      (fun hc => by simp [Clean, hinflight] at hc)
    rw [heq]
    refine ⟨fun _ hne => absurd ⟨hh, hr⟩ hne, h.keeps, ?_, h.replayed, ?_, ?_, ?_⟩
    · intro p hp hl _
      rw [List.flatMap_append] at hl
      refine h.body p hp (fun ht => hl (touched_append.mpr (.inl ht))) (fun ht => hl ?_)
      rw [hinflight] at ht
      exact touched_append.mpr (.inr ht)
    · intro _ hp
      rw [show n.phase = .stopped .primary from hp] at hruns
      cases hruns
    · intro _ hp
      rw [show n.phase = .switched .primary from hp] at hruns
      cases hruns
    · intro _ _
      obtain ⟨happlied, x, hx, hbody⟩ := h.leads hh hr
      refine ⟨happlied.trans (List.prefix_append _ _), x, ?_, hbody⟩
      rw [hx]
      simp only [since, hinflight, List.drop_append_of_le_length happlied.length_le]
      exact congrArg (replay · x) (List.append_nil _).symm
  · exact absurd rfl ha

theorem poll_file (now : Int) (bus : WalBus) (n : Node) (io : ApplyIo) {p : Nat}
    (hp : ¬Touched (bus.log.flatMap WalSegment.ops) p) :
    cell 0 (n.poll now bus io).store.file p = cell 0 n.store.file p := by
  obtain heq | ⟨cursor, next, segment, -, hnext, heq⟩ := n.poll_cases now bus io
  · rw [heq]
  · have hseg : ¬Touched segment.ops p := by
      rintro ⟨op, hop, ht⟩
      exact hp ⟨op, List.mem_flatMap.mpr ⟨segment, List.mem_of_getElem? hnext, hop⟩, ht⟩
    rw [heq]
    obtain ⟨-, happly⟩ | ⟨-, e, expected, ops, hops, happly⟩ | ⟨-, expected, happly⟩ :=
      (n.replicator cursor).applySegment_cases now io segment
    · simp only [happly, ((n.replicator cursor).enter_rest segment.salts).2.2.2.1]
      rfl
    · simp only [happly]
      exact cell_run_of_not_touched (fun ht => hseg (hops p ht)) _
    · simp only [happly]
      exact cell_run_of_not_touched hseg _

theorem Lineage.poll {page : Nat} {base : Bytes} {bus : WalBus} {held : Prop}
    {pageSize : UInt32} {n : Node} (h : n.Lineage page base bus.log held) (hshape : n.Shape)
    {now : Int} {io : ApplyIo} (hreplays : (n.poll now bus io).Replays pageSize bus.log) :
    (n.poll now bus io).Lineage page base bus.log held := by
  obtain heq | ⟨cursor, next, segment, htask, hnext, heq⟩ := n.poll_cases now bus io
  · rw [heq]
    exact h
  · have hkeeps := n.poll_keeps now bus io
    have hr := hshape.standby htask
    have hruns := hshape.runs_of_task htask
    have hclean := h.clean (isOver_of_runs hruns) (fun hne => by simp [hr] at hne)
    have hwal : (n.poll now bus io).store.wal = n.store.wal := by rw [heq]
    have hinflight : (n.poll now bus io).inflight = none := by
      rw [heq]
      rfl
    have hprimary : (n.poll now bus io).currentRole ≠ .primary := by
      rw [hkeeps.currentRole, hr]
      simp
    refine ⟨fun _ _ => ⟨hwal.trans hclean.1, hinflight⟩, fun _ hp => absurd hp hprimary, ?_, ?_,
      ?_, ?_, fun _ hp => absurd hp hprimary⟩
    · intro p hp hl _
      rw [poll_file now bus n io hl]
      refine h.body p hp hl ?_
      rw [hclean.2]
      rintro ⟨op, hop, -⟩
      cases hop
    · intro _ _
      rw [heq] at hreplays ⊢
      have hm := hreplays _ _ rfl
      obtain ⟨x, hx⟩ := hm.file
      exact ⟨x, hx.trans (by rw [hm.applied])⟩
    · intro _ hp
      rw [hkeeps.phase] at hp
      rw [hp] at hruns
      cases hruns
    · intro _ hp
      rw [hkeeps.phase] at hp
      rw [hp] at hruns
      cases hruns

end Node

theorem InMemoryLeaseStore.acquire_holder {ι : Type} [DecidableEq ι] (store : InMemoryLeaseStore ι)
    (now : Int) (node : ι) (ttlMs : Nat) :
    ((∀ l ∈ store.lease, now < l.expiresAtMs → l.holder = node) ∧
      (store.acquire now node ttlMs).1.holder = node ∧
      (store.acquire now node ttlMs).2.holder = some node) ∨
    (store.holder ≠ some node ∧ (store.acquire now node ttlMs).1.holder ≠ node ∧
      (store.acquire now node ttlMs).2 = store) := by
  obtain ⟨h1, h2, hobtains⟩ | ⟨l, hl, hne, -, heq⟩ := store.acquire_cases now node ttlMs
  · exact .inl ⟨hobtains, h1, h2⟩
  · refine .inr ⟨?_, ?_, ?_⟩
    · rw [holder, hl]
      exact fun h => hne (Option.some.inj h)
    · rw [heq]
      exact hne
    · rw [heq]

namespace Cluster

/-- Everybody who is up belongs to the lineage. -/
def Lined {ι : Type} (cfg : Config ι) (base : Bytes) (s : Cluster ι) : Prop :=
  ∀ i, (s.node i).up = true →
    (s.node i).Lineage cfg.pageSize.toNat base s.bus.log (s.lease.holder = some i)

section

variable {ι : Type} [DecidableEq ι] {cfg : Config ι} {base : Bytes}

theorem lineage_elect {s : Cluster ι} {i : ι} (hup : (s.node i).up = true) (h : s.Lined cfg base)
    {answer : ReplResult Unit} (hc : s.OneLineage cfg (.node i (.elect answer))) :
    (s.next cfg (.node i (.elect answer))).Lined cfg base := by
  intro j hupj
  have hbus : (s.next cfg (.node i (.elect answer))).bus = s.bus := next_bus cfg s _ hup
  have hlease := next_lease cfg s (.elect answer) hup
  have hnode := next_node cfg s i (.elect answer) hup j
  simp only [step] at hlease hnode
  rw [hbus]
  obtain heq | ⟨hp, rfl, heq⟩ := elect_cases cfg i s.now s.lease (s.node i) answer
  · rw [heq] at hlease hnode
    have hsame : (s.next cfg (.node i (.elect answer))).node j = s.node j := by
      rw [hnode]
      split
      · rename_i hj
        rw [hj]
      · rfl
    rw [hsame] at hupj ⊢
    rw [hlease]
    exact h j hupj
  · rw [heq] at hlease hnode
    obtain ⟨hobtains, hwon, hholder⟩ | ⟨hnot, hlost, hsame⟩ :=
      s.lease.acquire_holder s.now i (cfg.leaseTtlMs i)
    · -- the lease comes to the node, and whoever had it has shipped everything
      obtain ⟨hself, hothers⟩ := hc.2 hobtains
      rw [hlease]
      by_cases hj : j = i
      · subst hj
        rw [if_pos rfl] at hnode
        have hwant : wanted cfg j s.now s.lease = .primary := if_pos hwon
        rw [hnode] at hupj ⊢
        refine (h j hup).elected hp ?_ ?_ (fun _ hr => hself hr) ?_
        · split
          · exact .inl rfl
          · exact .inr ⟨_, rfl⟩
        · intro _ hr
          rw [if_pos (hwant.trans hr.symm)]
          simp [goal]
        · intro hne hheld
          exact hne ⟨hholder, hheld.2⟩
      · rw [if_neg hj] at hnode
        rw [hnode] at hupj ⊢
        refine ((h j hupj).unheld List.prefix_rfl (hothers j hj hupj)).congr ?_
        rw [hholder]
        exact ⟨fun he => hj (Option.some.inj he).symm, elim⟩
    · rw [hlease, hsame]
      by_cases hj : j = i
      · subst hj
        rw [if_pos rfl] at hnode
        rw [hnode] at hupj ⊢
        refine (h j hup).elected hp ?_ (fun hh => absurd hh hnot) (fun hh => absurd hh hnot)
          (fun _ hheld => hnot hheld.1)
        split
        · exact .inl rfl
        · exact .inr ⟨_, rfl⟩
      · rw [if_neg hj] at hnode
        rw [hnode] at hupj ⊢
        exact h j hupj

theorem lineage_release {s : Cluster ι} {i : ι} (hup : (s.node i).up = true) (h : s.Lined cfg base)
    (answer : ReplResult Unit) :
    (s.next cfg (.node i (.release answer))).Lined cfg base := by
  intro j hupj
  have hbus : (s.next cfg (.node i (.release answer))).bus = s.bus := next_bus cfg s _ hup
  have hlease := next_lease cfg s (.release answer) hup
  have hnode := next_node cfg s i (.release answer) hup j
  simp only [step] at hlease hnode
  rw [hbus, hlease]
  obtain heq | ⟨wasPrimary, hp, heq, hcase⟩ := release_cases i s.lease (s.node i) answer
  · rw [heq] at hnode ⊢
    have hsame : (s.next cfg (.node i (.release answer))).node j = s.node j := by
      rw [hnode]
      split
      · rename_i hj
        rw [hj]
      · rfl
    rw [hsame] at hupj ⊢
    exact h j hupj
  · have hquiet := release_quiet i s.lease (s.node i) answer
    by_cases hj : j = i
    · subst hj
      rw [if_pos rfl] at hnode
      rw [hnode] at hupj ⊢
      have hover : (s.node j).phase.isOver = true := by rw [hp]; rfl
      have hexit : ((s.node j).release j s.lease answer).2.phase = .exited := by rw [heq]
      have hl := (h j hup).quiet hquiet (.inr ⟨hover, hexit⟩)
      obtain hsame | ⟨-, hrel⟩ := hcase
      · rw [hsame]
        exact hl
      · refine (hl.unheld List.prefix_rfl (fun ho => ?_)).congr ?_
        · rw [hexit] at ho
          cases ho
        · rw [hrel, InMemoryLeaseStore.release_holder]
          split
          · simp
          · rename_i hne
            exact ⟨fun he => hne he, elim⟩
    · rw [if_neg hj] at hnode
      rw [hnode] at hupj ⊢
      refine (h j hupj).congr ?_
      obtain hsame | ⟨-, hrel⟩ := hcase
      · rw [hsame]
      · rw [hrel, InMemoryLeaseStore.release_holder]
        split
        · rename_i hi
          rw [hi]
          exact ⟨fun he => (by cases he), fun he => absurd (Option.some.inj he).symm hj⟩
        · exact Iff.rfl

theorem lineage_step (hstamp : ∀ mode mode' file p, cfg.pageSize.toNat ≤ p →
      cell 0 (cfg.stamp mode mode' file) p = cell 0 file p)
    {s : Cluster ι} {i : ι} (hd : s.Distinct) (hsound : s.Sound cfg) (hshape : (s.node i).Shape)
    (hknown : (s.node i).Known s.bus.log) (hreplays : (s.node i).Replays cfg.pageSize s.bus.log)
    {held : Prop} (h : (s.node i).Lineage cfg.pageSize.toNat base s.bus.log held)
    (hheld : s.lease.holder = some i → held) {event : Event}
    (hc : s.OneLineage cfg (.node i event)) (he : ∀ answer, event ≠ .elect answer)
    (hr : ∀ answer, event ≠ .release answer)
    (hup : ((s.node i).step cfg i s.now s.lease s.bus event).node.up = true) :
    ((s.node i).step cfg i s.now s.lease s.bus event).node.Lineage cfg.pageSize.toNat base
      ((s.node i).step cfg i s.now s.lease s.bus event).bus.log held := by
  cases event with
  | elect answer => exact absurd rfl (he answer)
  | release answer => exact absurd rfl (hr answer)
  | stop =>
    simp only [step]
    obtain heq | ⟨want, hp, hbusy, heq⟩ := (s.node i).stop_cases
    · rw [heq]
      exact h
    · rw [heq]
      refine h.ended hbusy (fun _ => by rw [hp]; rfl) (.inl (by rw [hp]; rfl)) (by rw [hp]; rfl)
        rfl ?_
      rintro - ⟨⟩
      obtain ⟨_, _, hprimary, -⟩ | ⟨cursor, next, -, ht⟩ := hshape.running (by rw [hp]; rfl)
      · exact absurd hprimary (fun hrole =>
          hshape.change (by rw [hp]; rfl) (by rw [hp, hrole]; rfl))
      · have hnext : some next = some s.bus.log.length := by simpa [place, ht] using hc.2 hp
        rw [(hreplays cursor next ht).applied, Option.some.inj hnext, List.take_length]
  | shutdown =>
    simp only [step]
    obtain heq | ⟨hp, hbusy, phase, hruns, hgoal, heq⟩ := (s.node i).shutdown_cases
    · rw [heq]
      exact h
    · rw [heq]
      have hswitched : phase.isSwitched = false := by
        cases phase <;> simp_all [goal, isSwitched]
      refine h.ended hbusy (fun _ => by rw [hp]; rfl) (.inr hgoal) (by rw [hp]; rfl) hswitched ?_
      rintro - rfl
      cases hgoal
  | switchJournal first second => exact h.switchJournal hstamp hshape first second
  | setRole => exact h.setRole hshape
  | write header frames => exact h.write hshape header frames (hheld hc.2.2) hc.2.1
  | drain => exact h.drain cfg.pageSizeOk hshape (hsound.node i) (unseen hd hknown)
  | publish answer =>
    obtain rfl : answer = .ok () := hc.1
    exact h.publish hshape
  | poll io => exact h.poll hshape (hreplays.poll hsound.bus hd.bus hc.1 s.now)
  | exit =>
    simp only [step] at hup ⊢
    obtain heq | heq := (s.node i).exit_cases
    · rw [heq]
      exact h
    · rw [heq] at hup
      cases hup
  | crash => cases hup
  | request =>
    simp only [step]
    refine h.quiet (s.node i).request_quiet (.inl ?_)
    exact (s.node i).request_keeps.phase
  | lagTick =>
    simp only [step]
    refine h.quiet ((s.node i).lagTick_quiet s.bus) (.inl ?_)
    exact ((s.node i).lagTick_keeps s.bus).phase

end

theorem step_lease {ι : Type} [DecidableEq ι] (cfg : Config ι) (i : ι) (now : Int)
    (lease : InMemoryLeaseStore ι) (bus : WalBus) (n : Node) {event : Event}
    (he : ∀ answer, event ≠ .elect answer) (hr : ∀ answer, event ≠ .release answer) :
    (n.step cfg i now lease bus event).lease = lease := by
  cases event with
  | elect answer => exact absurd rfl (he answer)
  | release answer => exact absurd rfl (hr answer)
  | _ => rfl

theorem lined_of_reachable {ι : Type} [DecidableEq ι] {cfg : Config ι} {base : Bytes}
    (hstamp : ∀ mode mode' file p, cfg.pageSize.toNat ≤ p →
      cell 0 (cfg.stamp mode mode' file) p = cell 0 file p)
    {s : Cluster ι} (h : ((system cfg (fun _ => base)).restrict (OneLineage cfg)).Reachable s) :
    s.Lined cfg base := by
  refine run_invariant (Lined cfg base) ?_ (fun s now hs => hs) ?_ h
  · rintro _ ⟨now, journal, -, rfl⟩ i -
    exact (Node.Lineage.boot cfg.pageSize.toNat base (journal i)).congr
      ⟨fun he => (by cases he), elim⟩
  · intro s i event hr hs hup hc
    by_cases helect : ∃ answer, event = .elect answer
    · obtain ⟨answer, rfl⟩ := helect
      exact lineage_elect hup hs hc
    by_cases hrelease : ∃ answer, event = .release answer
    · obtain ⟨answer, rfl⟩ := hrelease
      exact lineage_release hup hs answer
    have he : ∀ answer, event ≠ .elect answer := fun answer h => helect ⟨answer, h⟩
    have hrel : ∀ answer, event ≠ .release answer := fun answer h => hrelease ⟨answer, h⟩
    have hsmooth : ∀ (s : Cluster ι) act, s.OneLineage cfg act → s.Smooth cfg act :=
      fun _ _ hc => hc.1
    have hd : s.Distinct := distinct_of_reachable (fun _ _ _ _ hc => hc.1) hr
    have hshape := shape_of_reachable hr.of_restrict
    intro j hupj
    rw [next_bus cfg s event hup, next_lease cfg s event hup,
      step_lease cfg i s.now s.lease s.bus (s.node i) he hrel]
    by_cases hj : j = i
    · subst hj
      rw [next_self cfg s event hup] at hupj ⊢
      exact lineage_step hstamp hd (sound_of_reachable hr.of_restrict) (hshape j)
        (known_of_reachable hsmooth hr j)
        (replays_of_reachable hsmooth (fun _ _ _ _ hc => hc.2.1) hr j) (hs j hup) id hc he hrel hupj
    · rw [next_other cfg s event hup hj] at hupj ⊢
      obtain hbus | ⟨shipper, segment, -, htask, heq⟩ :=
        step_bus cfg i s.now s.lease s.bus (s.node i) event
      · rw [hbus]
        exact hs j hupj
      · -- whoever publishes holds the lease
        rw [heq]
        have hruns := (hshape i).runs_of_task htask
        have hholds := (hs i hup).holds (isOver_of_runs hruns)
          (fun hclean => by simp [Node.Clean, inflight, htask] at hclean)
        have hnot : s.lease.holder ≠ some j := by
          rw [hholds.1]
          exact fun h => hj (Option.some.inj h).symm
        refine ((hs j hupj).unheld (List.prefix_append _ _) (fun ho => ?_)).congr
          ⟨fun hh => absurd hh hnot, elim⟩
        exact (hs j hupj).clean ho (fun hh => hnot hh.1)

end Cluster

theorem exists_commit {frames : List WalFrame} {i : Nat}
    (h : rposition WalFrame.isCommit frames = some i) : ∃ frame ∈ frames, frame.isCommit = true := by
  induction frames generalizing i with
  | nil => simp [rposition] at h
  | cons frame frames ih =>
    rw [rposition] at h
    cases hr : rposition WalFrame.isCommit frames with
    | some j =>
      obtain ⟨frame', hf, hc⟩ := ih hr
      exact ⟨frame', List.mem_cons_of_mem _ hf, hc⟩
    | none =>
      rw [hr] at h
      by_cases hc : frame.isCommit = true
      · exact ⟨frame, List.mem_cons_self, hc⟩
      · simp [hc] at h

theorem WalSegment.WellFormed.sized {pageSize : UInt32} {segment : WalSegment}
    (h : segment.WellFormed pageSize) : Sized segment.ops := by
  have hcommit : ∃ frame ∈ segment.frames, frame.isCommit = true := by
    cases hr : rposition WalFrame.isCommit segment.frames with
    | none =>
      have := committedFrames_eq_nil hr
      rw [h.committed] at this
      exact absurd this h.nonempty
    | some i => exact exists_commit hr
  obtain ⟨frame, hf, hc⟩ := hcommit
  cases hfind : segment.frames.reverse.find? WalFrame.isCommit with
  | none =>
    have := List.find?_eq_none.mp hfind frame (List.mem_reverse.mpr hf)
    exact absurd hc this
  | some last =>
    refine ⟨last.dbSizeAfterCommit.toNat*segment.pageSize.toNat, ?_⟩
    simp [WalSegment.ops, spliceOps, segmentOps, dbPagesAfterCommit, hfind]

theorem sized_replay {pageSize : UInt32} {segments : List WalSegment} (hne : segments ≠ [])
    (h : ∀ segment ∈ segments, segment.WellFormed pageSize) :
    Sized (segments.flatMap WalSegment.ops) := by
  obtain rfl | ⟨front, last, rfl⟩ := segments.eq_nil_or_concat'
  · exact absurd rfl hne
  · rw [List.flatMap_append]
    refine Sized.append ?_
    simpa using (h last (by simp)).sized

/-- One of the segments carries the first page, where SQLite keeps the journal mode. -/
def CarriesFirstPage (segments : List WalSegment) : Prop :=
  ∃ segment ∈ segments, ∃ frame ∈ segment.frames, frame.pageNumber = 1

instance (segments : List WalSegment) : Decidable (CarriesFirstPage segments) :=
  inferInstanceAs (Decidable (∃ segment ∈ segments, _))

theorem CarriesFirstPage.touched {pageSize : UInt32} {segments : List WalSegment}
    (hc : CarriesFirstPage segments) (h : ∀ segment ∈ segments, segment.WellFormed pageSize)
    {p : Nat} (hp : p < pageSize.toNat) : Touched (segments.flatMap WalSegment.ops) p := by
  obtain ⟨segment, hs, frame, hf, hone⟩ := hc
  refine ⟨.write ((frame.pageNumber.toNat-1)*segment.pageSize.toNat) frame.pageData, ?_, ?_⟩
  · refine List.mem_flatMap.mpr ⟨segment, hs, ?_⟩
    simp only [WalSegment.ops, spliceOps, segmentOps, List.mem_append, List.mem_map]
    exact .inl ⟨_, ⟨frame, hf, rfl⟩, rfl⟩
  · have hlen := ((h segment hs).pages frame hf).2
    simp only [Op.Touches, hone, hlen]
    refine ⟨by simp, ?_⟩
    simpa using hp

theorem standby_reconverges {ι : Type} [DecidableEq ι] {cfg : Config ι} {base : Bytes}
    (hstamp : ∀ mode mode' file p, cfg.pageSize.toNat ≤ p →
      cell 0 (cfg.stamp mode mode' file) p = cell 0 file p)
    {s : Cluster ι}
    (h : ((system cfg (fun _ => base)).restrict (Cluster.OneLineage cfg)).Reachable s)
    (i j : ι) (hi : (s.node i).up = true) (hj : (s.node j).up = true)
    (hstandby : (s.node i).shared.role = .standby) (hswitched : (s.node i).phase.isSwitched = false)
    (happlied : (s.node i).applied = s.bus.log)
    (hprimary : (s.node j).shared.role = .primary) (hholder : s.lease.holder = some j)
    (hshipped : (s.node j).Clean)
    (hfirst : CarriesFirstPage (s.bus.log.drop (s.node j).applied.length)) :
    (s.node i).store.file = (s.node j).store.checkpoint.file := by
  have hlined := lined_of_reachable hstamp h
  have hshape := shape_of_reachable h.of_restrict
  have hwf := (sound_of_reachable h.of_restrict).bus
  have hri : (s.node i).currentRole = .standby := (hshape i).role ▸ hstandby
  have hrj : (s.node j).currentRole = .primary := (hshape j).role ▸ hprimary
  obtain ⟨y, hy⟩ := (hlined i hi).replayed hri hswitched
  obtain ⟨⟨rest, hrest⟩, x, hx, hbody⟩ := (hlined j hj).leads hholder hrj
  have hsince : s.bus.log.drop (s.node j).applied.length = rest := by
    rw [← hrest, List.drop_left]
  have hrestwf : ∀ segment ∈ rest, segment.WellFormed cfg.pageSize := by
    intro segment hs
    refine hwf segment ?_
    rw [← hrest]
    exact List.mem_append_right _ hs
  rw [happlied] at hy
  rw [hsince] at hfirst
  have hne : rest ≠ [] := by
    rintro rfl
    obtain ⟨segment, hs, -⟩ := hfirst
    cases hs
  have hj' : (s.node j).store.file = replay rest x := by
    rw [hx, since, hsince, hshipped.2]
    exact congrArg (replay · x) (List.append_nil _)
  have hi' : (s.node i).store.file = replay rest (replay (s.node j).applied y) := by
    rw [hy, ← hrest, replay_append]
  rw [Store.checkpoint_of_empty hshipped.1, hj', hi']
  refine (sized_replay hne hrestwf).run_congr (fun p => ?_)
  by_cases hp : cfg.pageSize.toNat ≤ p
  · by_cases ht : Touched (rest.flatMap WalSegment.ops) p
    · exact .inl ht
    · -- neither file has this cell from the segments since the promotion
      refine .inr ?_
      have hcell : cell 0 (s.node i).store.file p = cell 0 (replay s.bus.log base) p :=
        (hlined i hi).body_replayed ((hshape i).no_inflight hri) hy hp
      have hlog : ∀ z, cell 0 (replay s.bus.log z) p = cell 0 (replay (s.node j).applied z) p := by
        intro z
        rw [← hrest, replay_append]
        exact cell_run_of_not_touched ht _
      rw [hy, hlog y, hlog base] at hcell
      rw [hcell, hbody p hp]
  · exact .inl (hfirst.touched hrestwf (Nat.lt_of_not_le hp))

/-- The second node takes over when the first one's lease runs out, and the ex-primary polls
what is on the bus since. -/
def sampleHandedOver : List (ClusterAct Bool) :=
  promotion true ++ sampleWrite ++ sampleShip ++ [.node false (.poll ⟨.ok 512, none⟩),
    .advance 15000] ++ promotion false ++
  [.node true (.elect (.ok ())), .node true .stop,
    .node true (.switchJournal ⟨none, .ok .delete⟩ ⟨none, .ok .wal⟩), .node true .setRole,
    .node false .request, .node false (.write (sampleHeader (30, 40)) [samplePage 1 1 0xB1]),
    .node false .drain, .node false (.publish (.ok ())), .node true (.poll ⟨.ok 512, none⟩),
    .node true (.poll ⟨.ok 512, none⟩)]

theorem sampleHandedOver_legal :
    Legal (fun s a => True ∧ Cluster.OneLineage smallConfig s a) (next smallConfig)
      sampleBoot sampleHandedOver := by
  refine ⟨⟨trivial, trivial, ?_⟩, ⟨trivial, trivial, fun _ => rfl⟩, ⟨trivial, trivial, trivial⟩,
    ⟨trivial, trivial, trivial⟩, ⟨trivial, trivial, trivial⟩, ⟨trivial, ?_, ?_⟩,
    ⟨trivial, trivial, trivial⟩, ⟨trivial, rfl, trivial⟩, ⟨trivial, ⟨rfl, rfl⟩, trivial⟩,
    ⟨trivial, trivial, trivial⟩, ⟨trivial, trivial, ?_⟩, ⟨trivial, trivial, ?_⟩,
    ⟨trivial, trivial, trivial⟩, ⟨trivial, trivial, trivial⟩, ⟨trivial, trivial, ?_⟩,
    ⟨trivial, trivial, ?_⟩, ⟨trivial, trivial, trivial⟩, ⟨trivial, trivial, trivial⟩,
    ⟨trivial, trivial, trivial⟩, ⟨trivial, ?_, ?_⟩, ⟨trivial, trivial, trivial⟩,
    ⟨trivial, rfl, trivial⟩, ⟨trivial, ⟨rfl, rfl⟩, trivial⟩, ⟨trivial, ⟨rfl, rfl⟩, trivial⟩, trivial⟩
  all_goals simp only [Cluster.Obtains, Cluster.Smooth, Cluster.FreshSalts]
  all_goals decide +kernel

theorem standby_reconverges_handedOver :
    ((system smallConfig (fun _ => [])).restrict (Cluster.OneLineage smallConfig)).Reachable
      (sampleRun sampleHandedOver) ∧
    ((sampleRun sampleHandedOver).node false).store.file = List.replicate 512 0xB1 ∧
    ((sampleRun sampleHandedOver).node true).store.file =
      ((sampleRun sampleHandedOver).node false).store.checkpoint.file := by
  have hr : ((system smallConfig (fun _ => [])).restrict
      (Cluster.OneLineage smallConfig)).Reachable (sampleRun sampleHandedOver) :=
    Legal.reachable_restrict sampleHandedOver_legal (.init ⟨0, fun _ => .delete, by simp, rfl⟩)
  refine ⟨hr, by decide +kernel, ?_⟩
  have hfirst : CarriesFirstPage ((sampleRun sampleHandedOver).bus.log.drop
      ((sampleRun sampleHandedOver).node false).applied.length) := by
    decide +kernel
  exact standby_reconverges (fun _ _ _ _ _ => rfl) hr true false (by decide +kernel)
    (by decide +kernel) (by decide +kernel) (by decide +kernel) (by decide +kernel)
    (by decide +kernel) (by decide +kernel) (by decide +kernel) hfirst

/-- The first primary commits its second page and cannot publish it. The other node takes
over and ships its first page. The ex-primary replays everything there is and keeps the
page nobody else has. -/
def sampleDiverged : List (ClusterAct Bool) :=
  promotion true ++
  [.node true .request, .node true (.write (sampleHeader (10, 20)) [samplePage 2 2 0xA2]),
    .node true .drain, .node true (.publish (.error (.transport "timeout"))), .advance 15000] ++
  promotion false ++
  [.node false .request, .node false (.write (sampleHeader (30, 40)) [samplePage 1 2 0xB1]),
    .node false .drain, .node false (.publish (.ok ())),
    .node true (.elect (.ok ())), .node true .stop,
    .node true (.switchJournal ⟨none, .ok .delete⟩ ⟨none, .ok .wal⟩), .node true .setRole,
    .node true (.poll ⟨.ok 512, none⟩)]

def sampleTwoPages : Cluster Bool := .boot 0 (fun _ => List.replicate 1024 0) (fun _ => .delete)

theorem ex_primary_keeps_page :
    let s := sampleDiverged.foldl (next smallConfig) sampleTwoPages
    (system smallConfig (fun _ => List.replicate 1024 0)).Reachable s ∧
      (s.node true).shared.role = .standby ∧ (s.node true).applied = s.bus.log ∧
      (s.node false).shared.role = .primary ∧ s.lease.holder = some false ∧
      (s.node false).Clean ∧ s.bus.log.length = 1 ∧
      (s.node true).store.file = List.replicate 512 0xB1 ++ List.replicate 512 0xA2 ∧
      (s.node false).store.checkpoint.file = List.replicate 512 0xB1 ++ List.replicate 512 0 := by
  refine ⟨Legal.reachable ?_ (.init ⟨0, fun _ => .delete, by simp, rfl⟩), by decide +kernel⟩
  decide +kernel

end Knowledge.Replication
