import Knowledge.Replication.Handover
import Mathlib.Algebra.GroupWithZero.Nat

/-!
The lag a standby reports: the watermark of the bus less the total the standby counts,
both taken over from whichever primary cut the last segment, against the frames the
standby has really not applied.
-/

set_option autoImplicit false

namespace Knowledge.Replication
open Knowledge.Splice Knowledge.Transition

def frameTotal (segments : List WalSegment) : Nat := (segments.map WalSegment.frameCount).sum

theorem frameTotal_append (segments segments' : List WalSegment) :
    frameTotal (segments ++ segments') = frameTotal segments+frameTotal segments' := by
  simp [frameTotal]

theorem eq_nil_of_frameTotal {segments : List WalSegment}
    (hne : ∀ segment ∈ segments, segment.frames ≠ []) (h : frameTotal segments = 0) :
    segments = [] := by
  cases segments with
  | nil => rfl
  | cons segment rest =>
    have hpos := List.length_pos_iff.mpr (hne segment List.mem_cons_self)
    simp only [frameTotal, List.map_cons, List.sum_cons, WalSegment.frameCount] at h
    omega

def Node.lagFrames (bus : WalBus) (n : Node) (cursor : StandbyCursor) : Nat :=
  ((n.replicator cursor).refreshLag bus.latestWatermark).shared.lagFrames

/-- A reported zero means that everything on the bus has been applied, any other number
is that of the frames that have not been. -/
def Node.LagTruthful (bus : WalBus) (n : Node) (cursor : StandbyCursor) : Prop :=
  (n.lagFrames bus cursor = 0 → n.applied = bus.log) ∧
    (n.lagFrames bus cursor ≠ 0 → n.lagFrames bus cursor+frameTotal n.applied = frameTotal bus.log)

/-- Each segment counts on from the one before it on the bus, a standby that has missed a
segment applies none after it, and a WAL generation has salts of its own. -/
def Cluster.Counted {ι : Type} (s : Cluster ι) : ClusterAct ι → Prop
  | .node i (.publish (.ok ())) => ∀ segment ∈ (s.node i).inflight,
    segment.cumulativeFrames = s.bus.latestWatermark+segment.frameCount
  | .node i (.poll io) => ∀ next ∈ (s.node i).place,
    (s.node i).applied ≠ s.bus.log.take next → io.fault ≠ none
  | .node i (.write header _) => (s.node i).store.wal = none → s.FreshSalts header.salts
  | _ => True

/-- The watermark of the bus, at every moment so far, was the number of its frames. -/
def Metered (log : List WalSegment) : Prop :=
  ∀ log', log' <+: log → WalBus.latestWatermark ⟨log'⟩ = frameTotal log'

theorem Metered.snoc {log : List WalSegment} (h : Metered log) {segment : WalSegment}
    (hs : segment.cumulativeFrames = WalBus.latestWatermark ⟨log⟩+segment.frameCount) :
    Metered (log ++ [segment]) := by
  intro log' hlog
  obtain rfl | hlog := List.prefix_concat_iff.mp hlog
  · have hlast := h log List.prefix_rfl
    simp only [WalBus.latestWatermark, List.getLast?_append, List.getLast?_singleton,
      Option.some_or, Option.elim] at hs hlast ⊢
    rw [hs, hlast, frameTotal_append]
    simp [frameTotal]
  · exact h log' hlog

/-- What a standby task counts is what it has applied, without a gap. -/
structure Node.Counts (log : List WalSegment) (n : Node) (cursor : StandbyCursor) (next : Nat) :
    Prop where
  bound : next ≤ log.length
  salts : cursor.lastSalts = (log.take next).getLast?.map WalSegment.salts
  applied : n.applied <+: log.take next
  total : cursor.appliedFramesTotal = frameTotal n.applied

def Node.Counting (log : List WalSegment) (n : Node) : Prop :=
  ∀ cursor next, n.task = some (.standby cursor next) → n.Counts log cursor next

namespace Node

theorem Counts.lagTruthful {bus : WalBus} {n : Node} {cursor : StandbyCursor} {next : Nat}
    (h : n.Counts bus.log cursor next) (hm : Metered bus.log)
    (hne : ∀ segment ∈ bus.log, segment.frames ≠ []) : n.LagTruthful bus cursor := by
  obtain ⟨rest, hrest⟩ := h.applied.trans (List.take_prefix next bus.log)
  have hlog : bus.latestWatermark = frameTotal bus.log := hm bus.log List.prefix_rfl
  have hsum := frameTotal_append n.applied rest
  rw [hrest] at hsum
  have hlag : n.lagFrames bus cursor = frameTotal rest := by
    have : n.lagFrames bus cursor = bus.latestWatermark-cursor.appliedFramesTotal := rfl
    rw [this, hlog, h.total]
    omega
  refine ⟨fun hz => ?_, fun _ => by omega⟩
  have hnil : rest = [] := by
    refine eq_nil_of_frameTotal (fun segment hs => hne segment ?_) (hlag ▸ hz)
    rw [← hrest]
    exact List.mem_append_right _ hs
  rw [← hrest, hnil, List.append_nil]

theorem Counting.same {log log' : List WalSegment} {n m : Node} (h : n.Counting log)
    (hlog : log <+: log') (htask : ∀ cursor next, m.task = some (.standby cursor next) →
      n.task = some (.standby cursor next) ∧ m.applied = n.applied) : m.Counting log' := by
  intro cursor next ht
  obtain ⟨ht, happlied⟩ := htask cursor next ht
  have hc := h cursor next ht
  obtain ⟨rest, rfl⟩ := hlog
  have htake : (log ++ rest).take next = log.take next := List.take_append_of_le_length hc.bound
  refine ⟨?_, ?_, ?_, ?_⟩
  · rw [List.length_append]
    exact Nat.le_trans hc.bound (Nat.le_add_right _ _)
  · rw [htake]
    exact hc.salts
  · rw [htake, happlied]
    exact hc.applied
  · rw [happlied]
    exact hc.total

theorem Counting.setRole {log : List WalSegment} {n : Node} (h : n.Counting log) :
    n.setRole.Counting log := by
  obtain heq | ⟨effective, -, heq⟩ := n.setRole_cases
  · rw [heq]
    exact h
  · rw [heq]
    intro cursor next ht
    cases effective with
    | standby =>
      obtain ⟨rfl, rfl⟩ := RoleTask.standby.inj (Option.some.inj ht)
      exact ⟨Nat.zero_le _, rfl, List.prefix_rfl, rfl⟩
    | primary => cases ht
    | disabled => cases ht

end Node

theorem StandbyReplicator.applySegment_fault {self : StandbyReplicator} {now : Int} {io : ApplyIo}
    {segment : WalSegment} {standby : StandbyReplicator} {k : Nat} (hf : io.fault ≠ none)
    (h : self.applySegment now io segment = (.ok (k+1), standby)) : False := by
  simp only [applySegment] at h
  split at h
  · simp at h
  · split at h
    · simp at h
    · split at h
      · simp at h
      · cases hfault : io.fault with
        | none => exact hf hfault
        | some fault =>
          simp only [writeSegmentToFile, hfault] at h
          simp at h

namespace Node

theorem Counting.poll {pageSize : UInt32} {bus : WalBus} {n : Node} {io : ApplyIo}
    (h : n.Counting bus.log) (hseg : ∀ segment ∈ bus.log, segment.WellFormed pageSize)
    (hd : (bus.log.map WalSegment.salts).Nodup) (hm : Metered bus.log)
    (hc : ∀ next ∈ n.place, n.applied ≠ bus.log.take next → io.fault ≠ none)
    (now : Int) : (n.poll now bus io).Counting bus.log := by
  obtain heq | ⟨cursor, next, segment, htask, hnext, heq⟩ := n.poll_cases now bus io
  · rw [heq]
    exact h
  · rw [heq]
    have hcounts := h cursor next htask
    have hbound := (List.getElem?_eq_some_iff.mp hnext).1
    have hwf := hseg segment (List.mem_of_getElem? hnext)
    have htake : bus.log.take (next+1) = bus.log.take next ++ [segment] := by
      rw [List.take_add_one, hnext]
      rfl
    have hsalts : (n.replicator cursor).lastSalts ≠ some segment.salts := by
      rw [show (n.replicator cursor).lastSalts = cursor.lastSalts from rfl, hcounts.salts]
      exact next_salts_ne hd hnext
    have hlast : (some segment.salts : Option Salts) =
        (bus.log.take (next+1)).getLast?.map WalSegment.salts := by
      simp [htake]
    have hgrow : n.applied <+: bus.log.take (next+1) := by
      rw [htake]
      exact hcounts.applied.trans (List.prefix_append _ _)
    have hseq : ¬segment.seq ≤ 0 := Nat.not_le.mpr hwf.seq
    have henter := StandbyReplicator.enter_of_ne hsalts
    obtain ⟨k, hk⟩ := Nat.exists_eq_succ_of_ne_zero
      (Nat.pos_iff_ne_zero.mp (List.length_pos_iff.mpr hwf.nonempty))
    rintro _ _ ⟨⟩
    obtain ⟨hle, -⟩ | ⟨-, e, expected, ops, -, happly⟩ | ⟨-, expected, happly⟩ :=
      (n.replicator cursor).applySegment_cases now io segment
    · rw [henter] at hle
      exact absurd hle hseq
    · rw [henter] at happly
      simp only [happly]
      exact ⟨hbound, hlast, hgrow, hcounts.total⟩
    · have hall : n.applied = bus.log.take next := by
        by_contra hmiss
        have hfault := hc next (by simp [place, htask]) hmiss
        rw [show segment.frameCount = k+1 from hk] at happly
        exact StandbyReplicator.applySegment_fault hfault happly
      have htotal : segment.cumulativeFrames = frameTotal (bus.log.take (next+1)) := by
        have hmark := hm (bus.log.take (next+1)) (List.take_prefix _ _)
        rw [← hmark, htake]
        simp [WalBus.latestWatermark]
      have happlied : n.applied ++ [segment] = bus.log.take (next+1) := by rw [hall, htake]
      rw [henter] at happly
      simp only [happly, WalSegment.frameCount, hk]
      exact ⟨hbound, hlast, happlied ▸ List.prefix_rfl, happlied ▸ htotal⟩

end Node

namespace Cluster

theorem counting_step {ι : Type} [DecidableEq ι] {cfg : Config ι} {s : Cluster ι}
    (hd : s.Distinct) (hsound : s.Sound cfg) (hm : Metered s.bus.log) {i : ι}
    (h : (s.node i).Counting s.bus.log) {event : Event} (hc : s.Counted (.node i event)) :
    ((s.node i).step cfg i s.now s.lease s.bus event).node.Counting
      ((s.node i).step cfg i s.now s.lease s.bus event).bus.log := by
  by_cases hrole : event = .setRole
  · subst hrole
    exact h.setRole
  by_cases hpoll : ∃ io, event = .poll io
  · obtain ⟨io, rfl⟩ := hpoll
    exact h.poll hsound.bus hd.bus hm hc s.now
  refine h.same (step_log cfg i s.now s.lease s.bus (s.node i) event) fun cursor next ht => ?_
  obtain ⟨htask, happlied, -⟩ := Node.step_standby (hsound.node i) i s.now s.lease s.bus hrole
    (fun io he => hpoll ⟨io, he⟩) ht
  exact ⟨htask, happlied⟩

structure Measured {ι : Type} (s : Cluster ι) : Prop where
  metered : Metered s.bus.log
  counting : ∀ i, (s.node i).Counting s.bus.log

theorem measured_of_reachable {ι : Type} [DecidableEq ι] {cfg : Config ι} {file : ι → Bytes}
    {s : Cluster ι} (h : ((system cfg file).restrict Counted).Reachable s) : s.Measured := by
  refine run_invariant Measured ?_ (fun s now hs => ⟨hs.metered, hs.counting⟩) ?_ h
  · rintro _ ⟨now, journal, -, rfl⟩
    refine ⟨?_, fun i cursor next ht => ?_⟩
    · intro log' hlog
      obtain rfl := List.prefix_nil.mp hlog
      rfl
    · obtain ⟨rfl, rfl⟩ := RoleTask.standby.inj (Option.some.inj ht)
      exact ⟨Nat.zero_le _, rfl, List.prefix_rfl, rfl⟩
  · intro s i event hr hs hup hc
    have hd : s.Distinct := distinct_of_reachable (fun _ _ _ _ hc => hc) hr
    have hsound := sound_of_reachable hr.of_restrict
    refine ⟨?_, fun j => ?_⟩
    · rw [next_bus cfg s event hup]
      obtain hbus | ⟨_, segment, rfl, htask, heq⟩ :=
        step_bus cfg i s.now s.lease s.bus (s.node i) event
      · rw [hbus]
        exact hs.metered
      · rw [heq]
        exact hs.metered.snoc (hc segment (by simp [Node.inflight, htask]))
    · rw [next_bus cfg s event hup]
      by_cases hj : j = i
      · subst hj
        rw [next_self cfg s event hup]
        exact counting_step hd hsound hs.metered (hs.counting j) hc
      · rw [next_other cfg s event hup hj]
        exact (hs.counting j).same (step_log cfg i s.now s.lease s.bus (s.node i) event)
          (fun _ _ ht => ⟨ht, rfl⟩)

end Cluster

theorem lag_truthful {ι : Type} [DecidableEq ι] {cfg : Config ι} {file : ι → Bytes}
    {s : Cluster ι} (h : ((Cluster.system cfg file).restrict Cluster.Counted).Reachable s) (i : ι)
    (cursor : StandbyCursor) (next : Nat) (htask : (s.node i).task = some (.standby cursor next)) :
    (s.node i).LagTruthful s.bus cursor := by
  have hm := Cluster.measured_of_reachable h
  refine (hm.counting i cursor next htask).lagTruthful hm.metered ?_
  exact fun segment hs => ((Cluster.sound_of_reachable h.of_restrict).bus segment hs).nonempty

/-- The first primary is replaced; the second one counts from zero again. The first comes
back as a standby and replays its own segment. -/
def sampleSucceeded : List (ClusterAct Bool) :=
  promotion true ++ sampleWrite ++ sampleShip ++ sampleTakeover ++
    [.node false .setRole, .node false .request,
      .node false (.write (sampleHeader (11, 21)) [samplePage 2 2 0xB2]), .node false .drain,
      .node false (.publish (.ok ())), .node true (.elect (.ok ())), .node true .stop,
      .node true (.switchJournal ⟨none, .ok .delete⟩ ⟨none, .ok .delete⟩), .node true .setRole,
      .node true (.poll ⟨.ok 512, none⟩)]

/-- The lag reads zero, and the segment of the second primary is still to come. -/
theorem lag_hides_segment :
    let s := sampleRun sampleSucceeded
    let cursor : StandbyCursor := ⟨true, some (10, 20), 1, 1, some 512⟩
    ((Cluster.system smallConfig (fun _ => [])).restrict (Cluster.Smooth smallConfig)).Reachable s ∧
      (s.node true).task = some (.standby cursor 1) ∧ (s.node true).lagFrames s.bus cursor = 0 ∧
      (s.node true).applied.length = 1 ∧ s.bus.log.length = 2 ∧
      ¬(s.node true).LagTruthful s.bus cursor := by
  have hlag : ((sampleRun sampleSucceeded).node true).lagFrames (sampleRun sampleSucceeded).bus
      ⟨true, some (10, 20), 1, 1, some 512⟩ = 0 := by decide +kernel
  have happlied : ((sampleRun sampleSucceeded).node true).applied.length = 1 := by decide +kernel
  have hlog : (sampleRun sampleSucceeded).bus.log.length = 2 := by decide +kernel
  refine ⟨Legal.reachable_restrict ?_ (.init ⟨0, fun _ => .delete, by simp, rfl⟩),
    by decide +kernel, hlag, happlied, hlog, fun h => ?_⟩
  · refine ⟨⟨trivial, trivial⟩, ⟨trivial, trivial⟩, ⟨trivial, trivial⟩, ⟨trivial, trivial⟩,
      ⟨trivial, trivial⟩, ⟨trivial, fun _ => ⟨by decide +kernel, ?_⟩⟩, ⟨trivial, trivial⟩,
      ⟨trivial, rfl⟩, ⟨trivial, trivial⟩, ⟨trivial, trivial⟩, ⟨trivial, trivial⟩,
      ⟨trivial, trivial⟩, ⟨trivial, trivial⟩, ⟨trivial, trivial⟩,
      ⟨trivial, fun _ => ⟨by decide +kernel, ?_⟩⟩, ⟨trivial, trivial⟩, ⟨trivial, rfl⟩,
      ⟨trivial, trivial⟩, ⟨trivial, trivial⟩, ⟨trivial, trivial⟩, ⟨trivial, trivial⟩,
      ⟨trivial, rfl, rfl⟩, trivial⟩
    · intro j
      cases j <;> decide +kernel
    · intro j
      cases j <;> decide +kernel
  · have := congrArg List.length (h.1 hlag)
    omega

def samplePending : List (ClusterAct Bool) := promotion true ++ sampleWrite ++ sampleShip

theorem lag_truthful_pending :
    let s := sampleRun samplePending
    ((Cluster.system smallConfig (fun _ => [])).restrict Cluster.Counted).Reachable s ∧
      (s.node false).task = some (.standby (.new true) 0) ∧
      (s.node false).lagFrames s.bus (.new true) = 1 ∧
      (s.node false).LagTruthful s.bus (.new true) := by
  have hr : ((Cluster.system smallConfig (fun _ => [])).restrict Cluster.Counted).Reachable
      (sampleRun samplePending) := by
    refine Legal.reachable_restrict ?_ (.init ⟨0, fun _ => .delete, by simp, rfl⟩)
    refine ⟨⟨trivial, trivial⟩, ⟨trivial, trivial⟩, ⟨trivial, trivial⟩, ⟨trivial, trivial⟩,
      ⟨trivial, trivial⟩, ⟨trivial, fun _ => ⟨by decide +kernel, ?_⟩⟩, ⟨trivial, trivial⟩,
      ⟨trivial, ?_⟩, trivial⟩
    · intro j
      cases j <;> decide +kernel
    · unfold Cluster.Counted
      decide +kernel
  have htask : ((sampleRun samplePending).node false).task = some (.standby (.new true) 0) := by
    decide +kernel
  exact ⟨hr, htask, by decide +kernel, lag_truthful hr false (.new true) 0 htask⟩

end Knowledge.Replication
