import Knowledge.Replication.Standby

/-!
One standby that is handed, in order, the segments successive shippers cut out of their
WAL generations, and at any moment a segment it has applied before.
-/

set_option autoImplicit false

namespace Knowledge.Replication
open Knowledge.Splice Knowledge.Transition

structure Replay where
  shipper : WalShipper
  standby : StandbyReplicator
  applied : List WalSegment

open Replay

inductive ReplayAct where
  | takeover
  | ship (walBytes : Bytes) (now : Int) (io : ApplyIo)
  | redeliver (segment : WalSegment) (now : Int) (io : ApplyIo)

namespace Replay

def deliver (r : Replay) (now : Int) (io : ApplyIo) (segment : WalSegment) : Replay :=
  match r.standby.applySegment now io segment with
  | (.ok (_+1), standby) => { r with standby, applied := r.applied ++ [segment] }
  | (_, standby) => { r with standby }

def next (r : Replay) : ReplayAct → Replay
  | .takeover => { r with shipper := .new }
  | .ship walBytes now io =>
    match r.shipper.nextSegment walBytes with
    | (.ok (some segment), shipper) => { r with shipper }.deliver now io segment
    | (_, shipper) => { r with shipper }
  | .redeliver segment now io =>
    { r with standby := (r.standby.applySegment now io segment).2 }

def guard (r : Replay) : ReplayAct → Prop
  | .redeliver segment _ _ => segment ∈ r.applied
  | _ => True

def init (r : Replay) : Prop :=
  ∃ shared file dbHandle, r = ⟨.new, .new shared file dbHandle, []⟩

def system : System Replay ReplayAct := .ofNext init guard next

/-- The salts tell the generations apart: a WAL goes on with the salts the shipper saw
last or has salts that no applied segment carries. -/
def FreshSalts (r : Replay) (walBytes : Bytes) : Prop :=
  ∀ w, parseWal walBytes = .ok w → r.shipper.lastSalts = some w.header.salts ∨
    ∀ segment ∈ r.applied, segment.salts ≠ w.header.salts

/-- A segment is delivered again only while its generation is the last one delivered. -/
def Orderly (r : Replay) : ReplayAct → Prop
  | .takeover => True
  | .ship walBytes _ _ => r.FreshSalts walBytes
  | .redeliver segment _ _ => r.standby.lastSalts = some segment.salts

/-- The segment changes neither the database file nor the applied total. -/
def Unchanged (r : Replay) (segment : WalSegment) : Prop :=
  ∀ now io, (r.next (.redeliver segment now io)).standby.file = r.standby.file ∧
    (r.next (.redeliver segment now io)).standby.appliedFramesTotal =
      r.standby.appliedFramesTotal ∧
    (r.next (.redeliver segment now io)).standby.shared.appliedFramesTotal =
      r.standby.shared.appliedFramesTotal

structure Ordered (r : Replay) : Prop where
  cursor : ∀ segment ∈ r.applied, r.standby.lastSalts = some segment.salts →
    segment.seq ≤ r.standby.lastSeq
  current : ∀ segment ∈ r.applied, r.shipper.lastSalts = some segment.salts →
    r.standby.lastSalts = some segment.salts
  total : r.applied ≠ [] → r.standby.shared.appliedFramesTotal = r.standby.appliedFramesTotal

theorem redeliver_skips {r : Replay} (h : r.Ordered) {segment : WalSegment}
    (hs : segment ∈ r.applied) (hl : r.standby.lastSalts = some segment.salts) (now : Int)
    (io : ApplyIo) : r.standby.applySegment now io segment = (.ok 0, { r.standby with
      shared := r.standby.shared.recordApplied now r.standby.appliedFramesTotal }) := by
  have hseq := h.cursor segment hs hl
  have henter := StandbyReplicator.enter_of_eq hl
  obtain ⟨-, heq⟩ | ⟨hlt, -⟩ | ⟨hlt, -⟩ := r.standby.applySegment_cases now io segment
  · rw [heq, henter]
  · exact absurd (henter.symm ▸ hseq) hlt
  · exact absurd (henter.symm ▸ hseq) hlt

theorem Ordered.entered {r : Replay} (h : r.Ordered) {salts : Salts}
    (hnew : r.standby.lastSalts = some salts ∨ ∀ seg ∈ r.applied, seg.salts ≠ salts)
    {seg : WalSegment} (hs : seg ∈ r.applied) (hseg : seg.salts = salts) :
    seg.seq ≤ (r.standby.enter salts).lastSeq := by
  obtain hl | hnew := hnew
  · rw [StandbyReplicator.enter_of_eq hl]
    exact h.cursor seg hs (hseg ▸ hl)
  · exact absurd hseg (hnew seg hs)

theorem Ordered.deliver {r : Replay} (h : r.Ordered) {now : Int} {io : ApplyIo}
    {segment : WalSegment} {shipper : WalShipper} (hsalts : shipper.lastSalts = some segment.salts)
    (hnew : r.standby.lastSalts = some segment.salts ∨
      ∀ seg ∈ r.applied, seg.salts ≠ segment.salts) :
    (deliver { r with shipper } now io segment).Ordered := by
  obtain ⟨hlast, htotal, hshared, -⟩ := r.standby.enter_rest segment.salts
  have hseg : ∀ seg : WalSegment, (r.standby.enter segment.salts).lastSalts = some seg.salts →
      seg.salts = segment.salts := by
    intro seg hl
    exact (Option.some.inj (hlast.symm.trans hl)).symm
  have hcurrent : ∀ seg : WalSegment, shipper.lastSalts = some seg.salts →
      (r.standby.enter segment.salts).lastSalts = some seg.salts := by
    intro seg hl
    rw [hlast, ← hsalts, hl]
  obtain ⟨-, heq⟩ | ⟨-, e, expected, ops, -, heq⟩ | ⟨hlt, expected, heq⟩ :=
    r.standby.applySegment_cases now io segment
  · simp only [Replay.deliver, heq]
    exact ⟨fun seg hs hl => h.entered hnew hs (hseg seg hl), fun seg _ => hcurrent seg,
      fun _ => htotal.symm⟩
  · simp only [Replay.deliver, heq]
    exact ⟨fun seg hs hl => h.entered hnew hs (hseg seg hl), fun seg _ => hcurrent seg,
      fun hne => (congrArg _ hshared).trans ((h.total hne).trans htotal.symm)⟩
  · have hcursor : ∀ seg ∈ r.applied ++ [segment],
        (r.standby.enter segment.salts).lastSalts = some seg.salts → seg.seq ≤ segment.seq := by
      intro seg hs hl
      obtain hs | hs := List.mem_append.mp hs
      · have := h.entered hnew hs (hseg seg hl)
        omega
      · rw [List.mem_singleton.mp hs]
    simp only [Replay.deliver, heq]
    cases segment.frameCount with
    | zero =>
      exact ⟨fun seg hs => hcursor seg (List.mem_append_left _ hs), fun seg _ => hcurrent seg,
        fun _ => rfl⟩
    | succ n => exact ⟨hcursor, fun seg _ => hcurrent seg, fun _ => rfl⟩

theorem Ordered.next {r : Replay} (h : r.Ordered) {act : ReplayAct} (hg : r.guard act)
    (ho : r.Orderly act) : (r.next act).Ordered := by
  cases act with
  | takeover => exact ⟨h.cursor, fun seg _ hl => by simp [Replay.next, WalShipper.new] at hl, h.total⟩
  | redeliver segment now io =>
    simp only [Replay.next, redeliver_skips h hg ho now io]
    exact ⟨h.cursor, h.current, fun _ => rfl⟩
  | ship walBytes now io =>
    simp only [Replay.next, WalShipper.nextSegment]
    cases hw : parseWal walBytes with
    | error e => exact h
    | ok w =>
      have hnew : r.standby.lastSalts = some w.header.salts ∨
          ∀ seg ∈ r.applied, seg.salts ≠ w.header.salts := by
        by_cases hex : ∃ seg ∈ r.applied, seg.salts = w.header.salts
        · obtain ⟨seg, hs, hseg⟩ := hex
          obtain hl | hne := ho w hw
          · rw [← hseg] at hl ⊢
            exact .inl (h.current seg hs hl)
          · exact absurd hseg (hne seg hs)
        · exact .inr (fun seg hs hseg => hex ⟨seg, hs, hseg⟩)
      simp only [WalShipper.cut_eq]
      split_ifs with hf
      · refine ⟨h.cursor, fun seg hs hl => ?_, h.total⟩
        rw [WalShipper.enter_lastSalts] at hl
        obtain hnew | hnew := hnew
        · rw [hnew, hl]
        · exact absurd (Option.some.inj hl).symm (hnew seg hs)
      · exact h.deliver rfl hnew

theorem ordered_of_reachable {r : Replay} (h : (system.restrict Orderly).Reachable r) :
    r.Ordered := by
  refine h.invariant Ordered ?_ ?_
  · rintro _ ⟨shared, file, dbHandle, rfl⟩
    exact ⟨by simp, by simp, fun hne => absurd rfl hne⟩
  · rintro s act _ - hs ⟨⟨hg, rfl⟩, ho⟩
    exact hs.next hg ho

end Replay

theorem redelivery_unchanged {r : Replay} (h : (system.restrict Replay.Orderly).Reachable r)
    {segment : WalSegment} (hs : segment ∈ r.applied)
    (hl : r.standby.lastSalts = some segment.salts) : r.Unchanged segment := by
  have ho := ordered_of_reachable h
  intro now io
  have hskip := redeliver_skips ho hs hl now io
  simp only [next, hskip]
  exact ⟨trivial, trivial, (ho.total (List.ne_nil_of_mem hs)).symm⟩

def ApplyIo.plain : ApplyIo := ⟨.ok 512, none⟩

def sampleShipments : List ReplayAct :=
  [.ship (walBytes (sampleHeader (10, 20)) [samplePage 1 1 0xA1]) 0 .plain,
    .ship (walBytes (sampleHeader (11, 21)) [samplePage 1 1 0xB1]) 0 .plain]

def sampleReplay : Replay :=
  sampleShipments.foldl Replay.next ⟨.new, .new (.start .standby) [] false, []⟩

def sampleSegment (seq : Nat) (salts : Salts) (fill : UInt8) : WalSegment :=
  ⟨seq, seq, 512, salts.1, salts.2, [samplePage 1 1 fill]⟩

theorem redelivery_unchanged_current :
    (system.restrict Replay.Orderly).Reachable sampleReplay ∧
    sampleReplay.Unchanged (sampleSegment 2 (11, 21) 0xB1) := by
  have hw : parseWal (walBytes (sampleHeader (11, 21)) [samplePage 1 1 0xB1]) =
      .ok (recovered (sampleHeader (11, 21)) [samplePage 1 1 0xB1]) := by
    refine parseWal_walBytes (by decide) ?_
    intro frame hf
    rw [List.mem_singleton.mp hf]
    exact List.length_replicate
  have hr : (system.restrict Replay.Orderly).Reachable sampleReplay := by
    refine Legal.reachable_restrict ?_ (.init ⟨_, _, _, rfl⟩)
    refine ⟨⟨trivial, fun w _ => .inr (by simp)⟩, ⟨trivial, fun w h => .inr ?_⟩, trivial⟩
    obtain rfl : recovered _ _ = w := Except.ok.inj (hw.symm.trans h)
    decide +kernel
  exact ⟨hr, redelivery_unchanged hr (by decide +kernel) (by decide +kernel)⟩

/-- The second generation has rewritten the page when the first segment comes again. -/
theorem redelivery_rewinds_page :
    system.Reachable sampleReplay ∧
    sampleSegment 1 (10, 20) 0xA1 ∈ sampleReplay.applied ∧
    sampleReplay.standby.file = List.replicate 512 0xB1 ∧
    sampleReplay.standby.appliedFramesTotal = 2 ∧
    (sampleReplay.next (.redeliver (sampleSegment 1 (10, 20) 0xA1) 0 .plain)).standby.file =
      List.replicate 512 0xA1 ∧
    (sampleReplay.next
      (.redeliver (sampleSegment 1 (10, 20) 0xA1) 0 .plain)).standby.appliedFramesTotal = 1 ∧
    ¬sampleReplay.Unchanged (sampleSegment 1 (10, 20) 0xA1) := by
  have hr : system.Reachable sampleReplay :=
    Legal.reachable ⟨trivial, trivial, trivial⟩ (.init ⟨_, _, _, rfl⟩)
  refine ⟨hr, by decide +kernel, by decide +kernel, by decide +kernel, by decide +kernel,
    by decide +kernel, fun h => ?_⟩
  exact absurd (h 0 .plain).2.1 (by decide +kernel)

end Knowledge.Replication
