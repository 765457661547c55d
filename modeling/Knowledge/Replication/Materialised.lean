import Knowledge.Replication.Emitted
import Knowledge.Replication.Redelivery
import Knowledge.Replication.Shipping
import Mathlib.Data.List.DropRight

/-!
The file of a standby that has applied segments of a `WalShipper` in their order, page by
page, and what a segment with a page 0 leaves behind.
-/

set_option autoImplicit false

namespace Knowledge.Replication
open Knowledge.Splice Knowledge.Machine

theorem parseFrames_pagesFit (header : WalHeader) (n : Nat) (running : Checksum) (bytes : Bytes)
    (h : n*frameSize header ≤ bytes.length) :
    PagesFit header.pageSize (parseFrames header n running bytes) := by
  induction n generalizing running bytes with
  | zero => simp [parseFrames, PagesFit]
  | succ n ih =>
    have hsize : frameSize header = frameHeaderSize+header.pageSize.toNat := rfl
    rw [Nat.succ_mul] at h
    unfold parseFrames
    dsimp only
    split
    · simp [PagesFit]
    · split
      · simp [PagesFit]
      · intro frame hf
        rcases List.mem_cons.mp hf with rfl | hf
        · simp only [List.length_take, List.length_drop]
          omega
        · refine ih _ _ ?_ frame hf
          rw [List.length_drop]
          omega

theorem parseWal_pagesFit {bytes : Bytes} {w : ParsedWal} (h : parseWal bytes = .ok w) :
    PagesFit w.header.pageSize w.frames := by
  unfold parseWal at h
  split at h
  · cases h
  · cases horder : ChecksumOrder.fromMagic (u32OfBe bytes) with
    | error e => simp [horder, bind, Except.bind] at h
    | ok order =>
      rw [horder, ok_bind] at h
      unfold parseWalAs at h
      dsimp only at h
      split at h
      · cases h
      · split at h
        · cases h
        · obtain rfl := Except.ok.inj h
          refine parseFrames_pagesFit _ _ _ _ ?_
          rw [List.length_drop]
          exact Nat.div_mul_le_self _ _

/-- What holds of the segments of a shipper, whatever the snapshots were. -/
structure Shipped.Sound (s : Shipped) : Prop where
  nextSeq : s.1.nextSeq = s.2.length+1
  seqs : s.2.map WalSegment.seq = List.range' 1 s.2.length
  commits : ∀ segment ∈ s.2, ∃ frame ∈ segment.frames.getLast?, frame.isCommit = true
  fits : ∀ segment ∈ s.2, PagesFit segment.pageSize segment.frames

theorem Shipped.Sound.see {s : Shipped} (h : s.Sound) {w : ParsedWal}
    (hw : PagesFit w.header.pageSize w.frames) : (s.see w).Sound := by
  rw [Shipped.see, WalShipper.cut_eq]
  split
  · exact ⟨by simpa using h.nextSeq, by simpa using h.seqs, by simpa using h.commits,
      by simpa using h.fits⟩
  · rename_i hsome
    constructor
    · simp [WalShipper.advance, h.nextSeq]
    · simp [WalShipper.segmentOf, h.nextSeq, h.seqs, List.range'_concat, Nat.add_comm]
    · intro segment hsegment
      rcases List.mem_append.mp hsegment with hold | hnew
      · exact h.commits segment hold
      · obtain rfl : segment = s.1.segmentOf w := by simpa using hnew
        exact committedFrames_ends hsome
    · intro segment hsegment
      rcases List.mem_append.mp hsegment with hold | hnew
      · exact h.fits segment hold
      · obtain rfl : segment = s.1.segmentOf w := by simpa using hnew
        intro frame hf
        have hsub : frame ∈ w.frames.drop _ := (committedFrames_initial _).subset hf
        exact hw frame (List.mem_of_mem_drop hsub)

theorem ship_sound (snapshots : List Bytes) : (ship snapshots).Sound := by
  have hfit : ∀ w ∈ readable snapshots, PagesFit w.header.pageSize w.frames := by
    intro w hw
    obtain ⟨bytes, -, hb⟩ := List.mem_filterMap.mp hw
    cases hp : parseWal bytes with
    | error e => simp [hp, Except.toOption] at hb
    | ok v =>
      obtain rfl : v = w := by simpa [hp, Except.toOption] using hb
      exact parseWal_pagesFit hp
  rw [ship_eq]
  revert hfit
  generalize readable snapshots = wals
  induction wals using List.reverseRecOn with
  | nil => exact fun _ => ⟨rfl, rfl, by simp, by simp⟩
  | append_singleton wals w ih =>
    intro hfit
    rw [List.foldl_append]
    exact (ih fun v hv => hfit v (by simp [hv])).see (hfit w (by simp))

def WalSegment.dbPages (segment : WalSegment) : Nat :=
  (dbPagesAfterCommit segment.frames).elim 0 UInt32.toNat

def lastImage (p : Nat) (frames : List WalFrame) : Option Bytes :=
  (frames.reverse.find? (fun frame => frame.pageNumber.toNat = p)).map WalFrame.pageData

theorem lastImage_snoc (p : Nat) (frames : List WalFrame) (frame : WalFrame) :
    lastImage p (frames ++ [frame]) =
      if frame.pageNumber.toNat = p then some frame.pageData else lastImage p frames := by
  unfold lastImage
  by_cases h : frame.pageNumber.toNat = p <;> simp [h]

theorem lastImage_append (p : Nat) (frames frames' : List WalFrame) :
    lastImage p (frames ++ frames') = (lastImage p frames').or (lastImage p frames) := by
  induction frames' using List.reverseRecOn with
  | nil => simp [lastImage]
  | append_singleton frames' frame ih =>
    rw [← List.append_assoc, lastImage_snoc, lastImage_snoc, ih]
    split <;> rfl

/-- The segments behind the last one that leaves fewer than `p` pages. -/
def sinceCut (p : Nat) (segments : List WalSegment) : List WalSegment :=
  segments.rtakeWhile fun segment => p ≤ segment.dbPages

def pageOf (pageSize p : Nat) (file : Bytes) : Bytes :=
  (file.drop ((p-1)*pageSize)).take pageSize

/-- Page `p` after the segments: what was written last behind the last cut below the page,
else the bytes of the first file, filled up with zeros, and zeros where it was cut off. -/
def materialised (pageSize p : Nat) (initial : Bytes) (segments : List WalSegment) : Bytes :=
  match lastImage p ((sinceCut p segments).flatMap WalSegment.frames) with
  | some image => image
  | none =>
    if sinceCut p segments = segments then pageOf pageSize p (setLen 0 (p*pageSize) initial)
    else List.replicate pageSize 0

theorem in_page {pageSize p n i : Nat} (hp : p ≠ 0) (hn : n ≠ 0) (hi : i < pageSize) :
    ((n-1)*pageSize ≤ (p-1)*pageSize+i ∧ (p-1)*pageSize+i < (n-1)*pageSize+pageSize) ↔
      n = p := by
  have hdiv : ((p-1)*pageSize+i)/pageSize = p-1 := by
    rw [Nat.add_comm, Nat.add_mul_div_right _ _ (Nat.zero_lt_of_lt hi), Nat.div_eq_of_lt hi,
      Nat.zero_add]
  constructor
  · rintro ⟨hle, hlt⟩
    have h₁ := Nat.le_div_iff_mul_le (Nat.zero_lt_of_lt hi) |>.mpr hle
    have h₂ := (Nat.div_lt_iff_lt_mul (Nat.zero_lt_of_lt hi)).mpr
      (show (p-1)*pageSize+i < (n-1+1)*pageSize by rwa [Nat.succ_mul])
    omega
  · rintro rfl
    omega

theorem cell_writes {pageSize p i : Nat} (hp : p ≠ 0) (hi : i < pageSize)
    {frames : List WalFrame} (hpages : ∀ frame ∈ frames, frame.pageNumber ≠ 0)
    (hfit : ∀ frame ∈ frames, frame.pageData.length = pageSize) (file : Bytes) :
    cell 0 (run 0 (frames.map fun frame =>
      .write ((frame.pageNumber.toNat-1)*pageSize) frame.pageData) file) ((p-1)*pageSize+i) =
      match lastImage p frames with
      | some image => cell 0 image i
      | none => cell 0 file ((p-1)*pageSize+i) := by
  induction frames using List.reverseRecOn with
  | nil => rfl
  | append_singleton frames frame ih =>
    have ih := ih (fun f hf => hpages f (by simp [hf])) (fun f hf => hfit f (by simp [hf]))
    have hn : frame.pageNumber.toNat ≠ 0 := by
      have := hpages frame (by simp)
      rwa [Ne, ← UInt32.toNat_inj] at this
    have hin := in_page hp hn hi
    rw [List.map_append, run_append, lastImage_snoc]
    simp only [List.map_cons, List.map_nil, run, List.foldl_cons, List.foldl_nil, Op.apply,
      cell_writeAt, hfit frame (by simp), hin]
    by_cases h : frame.pageNumber.toNat = p
    · rw [if_pos h, if_pos h, h, Nat.add_sub_cancel_left]
    · rw [if_neg h, if_neg h]
      exact ih

theorem Shipped.Sound.dbPages {s : Shipped} (h : s.Sound) {segment : WalSegment}
    (hs : segment ∈ s.2) : ∃ pages, dbPagesAfterCommit segment.frames = some pages := by
  obtain ⟨frame, hlast, hc⟩ := h.commits segment hs
  obtain ⟨front, hfront⟩ := List.getLast?_eq_some_iff.mp hlast
  exact ⟨frame.dbSizeAfterCommit, by simp [dbPagesAfterCommit, hfront, hc]⟩

structure WalSegment.Splices (pageSize : UInt32) (segment : WalSegment) : Prop where
  size : segment.pageSize = pageSize
  pages : ∀ frame ∈ segment.frames, frame.pageNumber ≠ 0
  fits : ∀ frame ∈ segment.frames, frame.pageData.length = pageSize.toNat
  commits : ∃ pages, dbPagesAfterCommit segment.frames = some pages

theorem WalSegment.Splices.run_ops {pageSize : UInt32} {segment : WalSegment}
    (h : segment.Splices pageSize) (file : Bytes) :
    run 0 segment.ops file = setLen 0 (segment.dbPages*pageSize.toNat)
      (run 0 (segment.frames.map fun frame =>
        .write ((frame.pageNumber.toNat-1)*pageSize.toNat) frame.pageData) file) := by
  obtain ⟨pages, hpages⟩ := h.commits
  simp only [WalSegment.ops, spliceOps, segmentOps, hpages, WalSegment.dbPages, h.size,
    List.map_map, run_append]
  rfl

theorem length_replay {pageSize : UInt32} {segments : List WalSegment} {last : WalSegment}
    (hlast : segments.getLast? = some last) (h : last.Splices pageSize) (file : Bytes) :
    (replay segments file).length = last.dbPages*pageSize.toNat := by
  obtain ⟨front, rfl⟩ := List.getLast?_eq_some_iff.mp hlast
  rw [replay_snoc, h.run_ops, length_setLen]

theorem cell_replay {pageSize : UInt32} {segments : List WalSegment}
    (h : ∀ segment ∈ segments, segment.Splices pageSize) {p i : Nat} (hp : p ≠ 0)
    (hi : i < pageSize.toNat) (initial : Bytes) :
    cell 0 (replay segments initial) ((p-1)*pageSize.toNat+i) =
      match lastImage p ((sinceCut p segments).flatMap WalSegment.frames) with
      | some image => cell 0 image i
      | none =>
        if sinceCut p segments = segments then cell 0 initial ((p-1)*pageSize.toNat+i) else 0 := by
  induction segments using List.reverseRecOn with
  | nil => rfl
  | append_singleton segments segment ih =>
    have ih := ih fun s hs => h s (by simp [hs])
    have hseg := h segment (by simp)
    have hcut : (p-1)*pageSize.toNat+i < segment.dbPages*pageSize.toNat ↔
        p ≤ segment.dbPages := by
      rw [← Nat.div_lt_iff_lt_mul (Nat.zero_lt_of_lt hi), Nat.add_comm,
        Nat.add_mul_div_right _ _ (Nat.zero_lt_of_lt hi), Nat.div_eq_of_lt hi]
      omega
    rw [replay_snoc, hseg.run_ops, cell_setLen, cell_writes hp hi hseg.pages hseg.fits, sinceCut,
      List.rtakeWhile_concat]
    simp only [hcut, decide_eq_true_eq]
    by_cases hle : p ≤ segment.dbPages
    · rw [if_pos hle, if_pos hle, List.flatMap_append, lastImage_append]
      simp only [List.flatMap_cons, List.flatMap_nil, List.append_nil, List.append_cancel_right_eq]
      cases lastImage p segment.frames with
      | some image => rfl
      | none => exact ih
    · rw [if_neg hle, if_neg hle]
      simp [lastImage]

theorem length_pageOf {pageSize p n : Nat} {file : Bytes} (hp : p ≠ 0) (hle : p ≤ n)
    (hl : file.length = n*pageSize) : (pageOf pageSize p file).length = pageSize := by
  have := Nat.mul_le_mul_right pageSize (show p-1+1 ≤ n by omega)
  rw [Nat.succ_mul] at this
  rw [pageOf, List.length_take, List.length_drop]
  omega

theorem cell_pageOf {pageSize p i : Nat} (hi : i < pageSize) (file : Bytes) :
    cell 0 (pageOf pageSize p file) i = cell 0 file ((p-1)*pageSize+i) := by
  simp only [cell, pageOf, List.getD_eq_getElem?_getD, List.getElem?_take_of_lt hi,
    List.getElem?_drop]

theorem mem_of_lastImage {p : Nat} {frames : List WalFrame} {image : Bytes}
    (h : lastImage p frames = some image) : ∃ frame ∈ frames, frame.pageData = image := by
  obtain ⟨frame, hfind, himage⟩ := Option.map_eq_some_iff.mp h
  exact ⟨frame, List.mem_reverse.mp (List.mem_of_find?_eq_some hfind), himage⟩

theorem length_materialised {pageSize : UInt32} {segments : List WalSegment}
    (h : ∀ segment ∈ segments, segment.Splices pageSize) {p : Nat} (hp : p ≠ 0) (initial : Bytes) :
    (materialised pageSize.toNat p initial segments).length = pageSize.toNat := by
  unfold materialised
  split
  · rename_i image himage
    obtain ⟨frame, hf, rfl⟩ := mem_of_lastImage himage
    obtain ⟨segment, hs, hf⟩ := List.mem_flatMap.mp hf
    have hs : segment ∈ segments := (List.rtakeWhile_suffix _ segments).subset hs
    exact (h segment hs).fits frame hf
  · split
    · exact length_pageOf hp (Nat.le_refl p) (length_setLen ..)
    · simp

theorem pageOf_replay {pageSize : UInt32} {segments : List WalSegment} {last : WalSegment}
    (hlast : segments.getLast? = some last)
    (h : ∀ segment ∈ segments, segment.Splices pageSize) {p : Nat} (hp : p ≠ 0)
    (hle : p ≤ last.dbPages) (initial : Bytes) :
    pageOf pageSize.toNat p (replay segments initial) =
      materialised pageSize.toNat p initial segments := by
  have hfile := length_replay hlast (h last (List.mem_of_getLast? hlast)) initial
  have hl := length_pageOf hp hle hfile
  have hr := length_materialised h hp initial
  refine ext_cell (z := 0) (hl.trans hr.symm) fun i => ?_
  by_cases hi : i < pageSize.toNat
  · rw [cell_pageOf hi, cell_replay h hp hi, materialised]
    cases lastImage p ((sinceCut p segments).flatMap WalSegment.frames) with
    | some image => rfl
    | none =>
      have hin : (p-1)*pageSize.toNat+i < p*pageSize.toNat := by
        have := Nat.succ_mul (p-1) pageSize.toNat
        rw [Nat.succ_eq_add_one, Nat.sub_add_cancel (Nat.pos_of_ne_zero hp)] at this
        omega
      dsimp only
      split
      · rw [cell_pageOf hi, cell_setLen, if_pos hin]
      · simp [cell, hi]
  · have hi := Nat.le_of_not_lt hi
    rw [cell, cell, List.getD_eq_default _ _ (hl.trans_le hi),
      List.getD_eq_default _ _ (hr.trans_le hi)]

/-- A call of `apply_segment`: the clock, the answers of the store and the segment. -/
structure ApplyCall where
  now : Int
  io : ApplyIo
  segment : WalSegment

namespace StandbyReplicator

def applyAll : StandbyReplicator → List ApplyCall → List (ReplResult Nat) × StandbyReplicator
  | self, [] => ([], self)
  | self, d :: deliveries =>
    let called := self.applySegment d.now d.io d.segment
    let rest := called.2.applyAll deliveries
    (called.1 :: rest.1, rest.2)

theorem applyAll_replays {pageSize : UInt32} {deliveries : List ApplyCall}
    (horder : (deliveries.map (·.segment.seq)).Pairwise (· < ·))
    (hseg : ∀ d ∈ deliveries, d.segment.Splices pageSize)
    (hio : ∀ d ∈ deliveries, d.io.Healthy pageSize) (self : StandbyReplicator)
    (hsize : self.expectedPageSize = none ∨ self.expectedPageSize = some pageSize)
    (hahead : ∀ d ∈ deliveries, self.lastSeq < d.segment.seq) :
    (self.applyAll deliveries).1 = deliveries.map (fun d => .ok d.segment.frameCount) ∧
      (self.applyAll deliveries).2.file =
        replay (deliveries.map ApplyCall.segment) self.file := by
  induction deliveries generalizing self with
  | nil => exact ⟨rfl, rfl⟩
  | cons d deliveries ih =>
    rw [List.map_cons, List.pairwise_cons] at horder
    have hseq : (self.enter d.segment.salts).lastSeq < d.segment.seq := by
      have := hahead d List.mem_cons_self
      unfold enter
      split
      · exact Nat.zero_lt_of_lt this
      · exact this
    have hd := hseg d List.mem_cons_self
    obtain ⟨expected, hexp, happly⟩ := applySegment_ahead hd.size hseq hd.pages
      (hio d List.mem_cons_self) hsize d.now
    have hnext : ∀ e ∈ deliveries,
        (self.applySegment d.now d.io d.segment).2.lastSeq < e.segment.seq := by
      intro e he
      rw [happly]
      exact horder.1 _ (List.mem_map_of_mem he)
    have hexp : (self.applySegment d.now d.io d.segment).2.expectedPageSize = none ∨
        (self.applySegment d.now d.io d.segment).2.expectedPageSize = some pageSize := by
      rw [happly]
      exact hexp
    obtain ⟨hresults, hfile⟩ := ih horder.2 (fun e he => hseg e (List.mem_cons_of_mem d he))
      (fun e he => hio e (List.mem_cons_of_mem d he)) _ hexp hnext
    simp only [applyAll, hresults, hfile]
    rw [happly]
    exact ⟨rfl, by simp [replay, run_append]⟩

theorem applySegment_rejects {self : StandbyReplicator} {segment : WalSegment}
    (hzero : ∃ frame ∈ segment.frames, frame.pageNumber = 0)
    (hseq : (self.enter segment.salts).lastSeq < segment.seq) (now : Int) (io : ApplyIo) :
    self.applySegment now io segment =
      (.error (.malformed "WAL frame has page_number 0 (pages are 1-based)"),
        self.enter segment.salts) := by
  have hany : segment.frames.any (fun frame => frame.pageNumber = 0) = true := by
    simpa using hzero
  simp only [applySegment, if_neg (Nat.not_le.mpr hseq), if_pos hany]

theorem enter_enter (self : StandbyReplicator) (salts : Salts) :
    (self.enter salts).enter salts = self.enter salts :=
  enter_of_eq (self.enter_rest salts).1

end StandbyReplicator

open StandbyReplicator

/-- Segments of a shipper, applied in their order, leave the pages they materialise. A segment
with a page 0 changes neither the file nor the count, and the corrected segment still applies. -/
theorem standby_materialises (pageSize : UInt32) (shared : ReplicationShared) :
    (∀ (snapshots : List Bytes) (initial : Bytes) (dbHandle : Bool) (deliveries : List ApplyCall),
      (deliveries.map ApplyCall.segment).Sublist (ship snapshots).2 →
      (∀ d ∈ deliveries, d.io.Healthy pageSize) →
      (∀ d ∈ deliveries, d.segment.pageSize = pageSize) →
      (∀ d ∈ deliveries, ∀ frame ∈ d.segment.frames, frame.pageNumber ≠ 0) →
      let applied := (new shared initial dbHandle).applyAll deliveries
      applied.1 = deliveries.map (fun d => .ok d.segment.frameCount) ∧
      ∀ last ∈ (deliveries.map ApplyCall.segment).getLast?,
        applied.2.file.length = last.dbPages*pageSize.toNat ∧
        ∀ p, p ≠ 0 → p ≤ last.dbPages →
          pageOf pageSize.toNat p applied.2.file =
            materialised pageSize.toNat p initial (deliveries.map ApplyCall.segment)) ∧
    ∀ (self : StandbyReplicator) (now : Int) (io : ApplyIo) (segment : WalSegment),
      (∃ frame ∈ segment.frames, frame.pageNumber = 0) → 0 < segment.seq →
      (self.lastSalts = some segment.salts → self.lastSeq < segment.seq) →
      let rejected := self.applySegment now io segment
      rejected.1 = .error (.malformed "WAL frame has page_number 0 (pages are 1-based)") ∧
      rejected.2.file = self.file ∧ rejected.2.appliedFramesTotal = self.appliedFramesTotal ∧
      rejected.2.lastSeq = (if self.lastSalts = some segment.salts then self.lastSeq else 0) ∧
      ∀ (now' : Int) (io' : ApplyIo) (corrected : WalSegment),
        corrected.seq = segment.seq → corrected.salts = segment.salts →
        corrected.pageSize = pageSize → (∀ frame ∈ corrected.frames, frame.pageNumber ≠ 0) →
        io'.Healthy pageSize →
        (self.expectedPageSize = none ∨ self.expectedPageSize = some pageSize) →
        (rejected.2.applySegment now' io' corrected).1 = .ok corrected.frameCount ∧
        (rejected.2.applySegment now' io' corrected).2.file = run 0 corrected.ops self.file ∧
        (rejected.2.applySegment now' io' corrected).2.lastSeq = corrected.seq ∧
        (rejected.2.applySegment now' io' corrected).2.appliedFramesTotal =
          corrected.cumulativeFrames := by
  constructor
  · intro snapshots initial dbHandle deliveries hsub hio hsize hpages
    have hsound := ship_sound snapshots
    have hmem : ∀ d ∈ deliveries, d.segment ∈ (ship snapshots).2 := fun d hd =>
      hsub.subset (List.mem_map_of_mem hd)
    have hseg : ∀ d ∈ deliveries, d.segment.Splices pageSize := fun d hd =>
      ⟨hsize d hd, hpages d hd, fun frame hf => by
        rw [← hsize d hd]
        exact hsound.fits _ (hmem d hd) frame hf, hsound.dbPages (hmem d hd)⟩
    have hseqs : (deliveries.map (·.segment.seq)).Sublist
        (List.range' 1 (ship snapshots).2.length) := by
      have := hsub.map WalSegment.seq
      rwa [hsound.seqs, List.map_map] at this
    have hpos : ∀ d ∈ deliveries, 0 < d.segment.seq := by
      intro d hd
      have : d.segment.seq ∈ List.range' 1 (ship snapshots).2.length :=
        hseqs.subset (List.mem_map_of_mem (f := fun d : ApplyCall => d.segment.seq) hd)
      have := (List.mem_range'_1.mp this).1
      omega
    obtain ⟨hresults, hfile⟩ := applyAll_replays
      (List.Pairwise.sublist hseqs (List.pairwise_lt_range' ..)) hseg hio
      (new shared initial dbHandle) (.inl rfl) hpos
    refine ⟨hresults, fun last hlast => ?_⟩
    have hall : ∀ segment ∈ deliveries.map ApplyCall.segment, segment.Splices pageSize := by
      intro segment hs
      obtain ⟨d, hd, rfl⟩ := List.mem_map.mp hs
      exact hseg d hd
    rw [hfile]
    exact ⟨length_replay hlast (hall last (List.mem_of_getLast? hlast)) initial,
      fun p hp hle => pageOf_replay hlast hall hp hle initial⟩
  · intro self now io segment hzero hpos hseq
    have hlast : (self.enter segment.salts).lastSeq =
        if self.lastSalts = some segment.salts then self.lastSeq else 0 := by
      unfold enter
      by_cases h : self.lastSalts = some segment.salts <;> simp [h]
    have hahead : (self.enter segment.salts).lastSeq < segment.seq := by
      rw [hlast]
      split
      · rename_i h
        exact hseq h
      · exact hpos
    obtain ⟨hsalts, htotal, -, hfile, -, hexpected⟩ := self.enter_rest segment.salts
    rw [applySegment_rejects hzero hahead]
    refine ⟨rfl, hfile, htotal, hlast, ?_⟩
    intro now' io' corrected hsame hsalts' hsize hpages hio hknown
    have hahead' : ((self.enter segment.salts).enter corrected.salts).lastSeq < corrected.seq := by
      rw [hsalts', enter_enter, hsame]
      exact hahead
    obtain ⟨expected, -, happly⟩ := applySegment_ahead hsize hahead' hpages hio
      (hexpected ▸ hknown) now'
    rw [happly]
    exact ⟨rfl, congrArg (run 0 corrected.ops) hfile, rfl, rfl⟩

namespace Regrown

def snapshots : List Bytes :=
  [walBytes (sampleHeader (10, 20)) [samplePage 1 0 7, samplePage 2 2 8],
    walBytes (sampleHeader (11, 21)) [samplePage 1 1 9],
    walBytes (sampleHeader (12, 22)) [samplePage 3 3 6]]

def deliveries : List ApplyCall :=
  [⟨0, .plain, ⟨1, 2, 512, 10, 20, [samplePage 1 0 7, samplePage 2 2 8]⟩⟩,
    ⟨1, .plain, ⟨2, 3, 512, 11, 21, [samplePage 1 1 9]⟩⟩,
    ⟨2, .plain, ⟨3, 4, 512, 12, 22, [samplePage 3 3 6]⟩⟩]

def forged : WalSegment := ⟨3, 4, 512, 12, 22, [samplePage 0 3 6]⟩

end Regrown

open Regrown in
theorem standby_materialises_regrown :
    let applied :=
      (new (.start .standby) (List.replicate 2048 5) false).applyAll deliveries
    applied.2.file.length = 1536 ∧ pageOf 512 1 applied.2.file = List.replicate 512 9 ∧
      pageOf 512 2 applied.2.file = List.replicate 512 0 ∧
      pageOf 512 3 applied.2.file = List.replicate 512 6 ∧
      ((new (.start .standby) [] false).applySegment 0 .plain forged).2.file =
        [] := by
  intro applied
  obtain ⟨hrun, hreject⟩ := standby_materialises 512 (.start .standby)
  obtain ⟨-, hpages⟩ := hrun snapshots (List.replicate 2048 5) false deliveries
    (by decide +kernel) (by decide +kernel) (by decide +kernel) (by decide +kernel)
  obtain ⟨hlength, hpage⟩ := hpages _ rfl
  have h₁ := hpage 1 (by decide) (by decide)
  have h₂ := hpage 2 (by decide) (by decide)
  have h₃ := hpage 3 (by decide) (by decide)
  obtain ⟨-, hfile, -⟩ := hreject (.new (.start .standby) [] false) 0 .plain forged
    (by decide) (by decide) (by decide)
  exact ⟨hlength, h₁.trans (by decide +kernel), h₂.trans (by decide +kernel),
    h₃.trans (by decide +kernel), hfile⟩

def sinceShrink (p : Nat) (frames : List WalFrame) : List WalFrame :=
  match rposition (fun frame => frame.isCommit && frame.dbSizeAfterCommit.toNat < p) frames with
  | none => frames
  | some i => frames.drop i

namespace Shrunk

def segment : WalSegment :=
  ⟨1, 3, 512, 10, 20, [samplePage 3 3 7, samplePage 1 1 8, samplePage 1 3 9]⟩

def standby : StandbyReplicator :=
  ((StandbyReplicator.new (.start .standby) [] false).applySegment 0 .plain segment).2

end Shrunk

open Shrunk in
/-- The commit in the middle does not cut the file; new salts move the cursor before a page 0
is rejected, and a segment that is skipped is not looked at. -/
theorem standby_keeps_shrunk_page :
    ((ship [walBytes (sampleHeader (10, 20)) Shrunk.segment.frames]).2 = [Shrunk.segment] ∧
      lastImage 3 (sinceShrink 3 Shrunk.segment.frames) = none ∧
      pageOf 512 3 standby.file = List.replicate 512 7) ∧
    standby.lastSeq = 1 ∧
      (standby.applySegment 0 .plain ⟨2, 4, 512, 11, 21, [samplePage 0 1 5]⟩).2.lastSeq = 0 ∧
      (standby.applySegment 0 .plain ⟨1, 1, 512, 10, 20, [samplePage 0 1 5]⟩).1 = .ok 0 :=
  ⟨by decide +kernel, by decide +kernel, by decide +kernel, by rfl⟩

end Knowledge.Replication
