import Knowledge.Lib.Splice
import Knowledge.Lib.Transition
import Knowledge.Replication.Primary

/-!
Replay on a standby: `StandbyReplicator` of `replication/standby.rs`, with the database
file as the bytes it holds, and what a segment that is delivered again does to it.
-/

set_option autoImplicit false

namespace Knowledge.Replication
open Knowledge.Splice Knowledge.Transition

def segmentOps (pageSize : Nat) (dbPagesAfterCommit : Option UInt32)
    (frames : List (UInt32 × Bytes)) : List (Op UInt8) :=
  frames.map (fun frame => .write ((frame.1.toNat-1)*pageSize) frame.2) ++
    match dbPagesAfterCommit with
    | none => []
    | some pages => [.resize (pages.toNat*pageSize)]

/-- A file operation that fails: how many before it were done, and how many bytes of its
page it wrote all the same. -/
structure IoFault where
  before : Nat
  torn : Nat
  error : ReplError

def tornOp (op : Op UInt8) (torn : Nat) : List (Op UInt8) :=
  match op with
  | .write off data => [.write off (data.take torn)]
  | .resize _ => []

def IoFault.ops (fault : IoFault) (ops : List (Op UInt8)) : List (Op UInt8) :=
  ops.take fault.before ++ (ops[fault.before]?).elim [] (tornOp · fault.torn)

def writeSegmentToFile (pageSize : Nat) (dbPagesAfterCommit : Option UInt32)
    (frames : List (UInt32 × Bytes)) (fault : Option IoFault) (file : Bytes) :
    ReplResult Unit × Bytes :=
  let ops := segmentOps pageSize dbPagesAfterCommit frames
  match fault with
  | none => (.ok (), run 0 ops file)
  | some fault => (.error fault.error, run 0 (fault.ops ops) file)

def dbPagesAfterCommit (frames : List WalFrame) : Option UInt32 :=
  (frames.reverse.find? WalFrame.isCommit).map WalFrame.dbSizeAfterCommit

def spliceOps (pageSize : UInt32) (frames : List WalFrame) : List (Op UInt8) :=
  segmentOps pageSize.toNat (dbPagesAfterCommit frames)
    (frames.map (fun frame => (frame.pageNumber, frame.pageData)))

def WalSegment.ops (segment : WalSegment) : List (Op UInt8) :=
  spliceOps segment.pageSize segment.frames

/-- What the replicator remembers between segments. -/
structure StandbyCursor where
  dbHandle : Bool
  lastSalts : Option Salts
  lastSeq : Nat
  appliedFramesTotal : Nat
  expectedPageSize : Option UInt32
  deriving DecidableEq

def StandbyCursor.new (dbHandle : Bool) : StandbyCursor := ⟨dbHandle, none, 0, 0, none⟩

structure StandbyReplicator extends StandbyCursor where
  shared : ReplicationShared
  file : Bytes

/-- What the store and the file system answer while one segment is applied. -/
structure ApplyIo where
  cipherPageSize : Except String UInt32
  fault : Option IoFault

namespace StandbyReplicator

def new (shared : ReplicationShared) (file : Bytes) (dbHandle : Bool) : StandbyReplicator :=
  ⟨.new dbHandle, shared, file⟩

def enter (self : StandbyReplicator) (salts : Salts) : StandbyReplicator :=
  if self.lastSalts ≠ some salts then { self with lastSalts := some salts, lastSeq := 0 }
  else self

def checkPageSize (self : StandbyReplicator) (io : ApplyIo) (pageSize : UInt32) :
    ReplResult Unit × StandbyReplicator :=
  if !self.dbHandle then (.ok (), self)
  else
    match self.expectedPageSize, io.cipherPageSize with
    | none, .error e => (.error (.transport s!"reading store cipher_page_size: {e}"), self)
    | none, .ok size => compare { self with expectedPageSize := some size } size
    | some expected, _ => compare self expected
where
  compare (self : StandbyReplicator) (expected : UInt32) : ReplResult Unit × StandbyReplicator :=
    if pageSize ≠ expected then
      (.error (.misconfigured (s!"WAL segment page_size {pageSize} does not match the local " ++
        s!"store's cipher_page_size {expected}: raw page applies would be " ++
        "misaligned and undecryptable")), self)
    else (.ok (), self)

def applySegment (self : StandbyReplicator) (now : Int) (io : ApplyIo) (segment : WalSegment) :
    ReplResult Nat × StandbyReplicator :=
  let self := self.enter segment.salts
  if segment.seq ≤ self.lastSeq then
    (.ok 0, { self with shared := self.shared.recordApplied now self.appliedFramesTotal })
  else if segment.frames.any (fun frame => frame.pageNumber = 0) then
    (.error (.malformed "WAL frame has page_number 0 (pages are 1-based)"), self)
  else
    match self.checkPageSize io segment.pageSize with
    | (.error e, self) => (.error e, self)
    | (.ok (), self) =>
      match writeSegmentToFile segment.pageSize.toNat (dbPagesAfterCommit segment.frames)
          (segment.frames.map (fun frame => (frame.pageNumber, frame.pageData))) io.fault
          self.file with
      | (.error e, file) => (.error e, { self with file })
      | (.ok (), file) =>
        (.ok segment.frameCount, { self with
          lastSeq := segment.seq
          appliedFramesTotal := segment.cumulativeFrames
          shared := self.shared.recordApplied now segment.cumulativeFrames
          file })

def refreshLag (self : StandbyReplicator) (watermark : Nat) : StandbyReplicator :=
  { self with shared := self.shared.setLagFrames (watermark-self.appliedFramesTotal) }

theorem enter_of_eq {self : StandbyReplicator} {salts : Salts} (h : self.lastSalts = some salts) :
    self.enter salts = self := by
  simp [enter, h]

theorem enter_of_ne {self : StandbyReplicator} {salts : Salts} (h : self.lastSalts ≠ some salts) :
    self.enter salts = { self with lastSalts := some salts, lastSeq := 0 } := by
  simp [enter, h]

theorem enter_rest (self : StandbyReplicator) (salts : Salts) :
    (self.enter salts).lastSalts = some salts ∧
    (self.enter salts).appliedFramesTotal = self.appliedFramesTotal ∧
    (self.enter salts).shared = self.shared ∧ (self.enter salts).file = self.file ∧
    (self.enter salts).dbHandle = self.dbHandle ∧
    (self.enter salts).expectedPageSize = self.expectedPageSize := by
  unfold enter
  split
  · exact ⟨rfl, rfl, rfl, rfl, rfl, rfl⟩
  · rename_i h
    exact ⟨not_not.mp h, rfl, rfl, rfl, rfl, rfl⟩

theorem checkPageSize_rest (self : StandbyReplicator) (io : ApplyIo) (pageSize : UInt32) :
    ∃ expected, (self.checkPageSize io pageSize).2 = { self with expectedPageSize := expected } := by
  unfold checkPageSize checkPageSize.compare
  split
  · exact ⟨_, rfl⟩
  · split
    · exact ⟨_, rfl⟩
    · split <;> exact ⟨_, rfl⟩
    · split <;> exact ⟨_, rfl⟩

end StandbyReplicator

theorem IoFault.touched {fault : IoFault} {ops : List (Op UInt8)} {p : Nat}
    (h : Touched (fault.ops ops) p) : Touched ops p := by
  obtain h | h := touched_append.mp h
  · exact h.mono (List.take_subset _ _)
  · cases hop : ops[fault.before]? with
    | none =>
      rw [hop] at h
      obtain ⟨op, hmem, -⟩ := h
      cases hmem
    | some op =>
      rw [hop] at h
      obtain ⟨torn, hmem, hp⟩ := h
      refine ⟨op, List.mem_of_getElem? hop, ?_⟩
      cases op with
      | resize n => cases hmem
      | write off data =>
        obtain rfl := List.mem_singleton.mp hmem
        have : off ≤ p ∧ p < off+(data.take fault.torn).length := hp
        rw [List.length_take] at this
        exact ⟨this.1, by omega⟩

namespace StandbyReplicator

/-- Everything `apply_segment` can do: skip the segment, fail with part of it written, or
splice it in. -/
theorem applySegment_cases (self : StandbyReplicator) (now : Int) (io : ApplyIo)
    (segment : WalSegment) :
    (segment.seq ≤ (self.enter segment.salts).lastSeq ∧
      self.applySegment now io segment = (.ok 0, { self.enter segment.salts with
        shared := self.shared.recordApplied now self.appliedFramesTotal })) ∨
    (¬segment.seq ≤ (self.enter segment.salts).lastSeq ∧ ∃ e expected ops,
      (∀ p, Touched ops p → Touched segment.ops p) ∧
      self.applySegment now io segment = (.error e, { self.enter segment.salts with
        expectedPageSize := expected, file := run 0 ops self.file })) ∨
    (¬segment.seq ≤ (self.enter segment.salts).lastSeq ∧ ∃ expected,
      self.applySegment now io segment = (.ok segment.frameCount, { self.enter segment.salts with
        expectedPageSize := expected
        lastSeq := segment.seq
        appliedFramesTotal := segment.cumulativeFrames
        shared := self.shared.recordApplied now segment.cumulativeFrames
        file := run 0 segment.ops self.file })) := by
  obtain ⟨-, htotal, hshared, hfile, -, -⟩ := self.enter_rest segment.salts
  by_cases hseq : segment.seq ≤ (self.enter segment.salts).lastSeq
  · refine .inl ⟨hseq, ?_⟩
    simp only [applySegment, if_pos hseq, htotal, hshared]
  · refine .inr ?_
    simp only [hseq, not_false_eq_true, true_and]
    have hnone : run 0 [] self.file = (self.enter segment.salts).file := hfile.symm
    by_cases hzero : segment.frames.any (fun frame => frame.pageNumber = 0) = true
    · refine .inl ⟨.malformed "WAL frame has page_number 0 (pages are 1-based)",
        (self.enter segment.salts).expectedPageSize, [], ?_, ?_⟩
      · rintro p ⟨op, hop, -⟩
        cases hop
      · simp only [applySegment, if_neg hseq, if_pos hzero, hnone]
    · obtain ⟨expected, hsize⟩ :=
        (self.enter segment.salts).checkPageSize_rest io segment.pageSize
      cases hcheck : (self.enter segment.salts).checkPageSize io segment.pageSize with
      | mk checked checkedSelf =>
        rw [hcheck] at hsize
        have hsize : checkedSelf = { self.enter segment.salts with
          expectedPageSize := expected } := hsize
        subst hsize
        cases checked with
        | error e =>
          refine .inl ⟨e, expected, [], ?_, ?_⟩
          · rintro p ⟨op, hop, -⟩
            cases hop
          · simp only [applySegment, if_neg hseq, if_neg hzero, hcheck, hnone]
        | ok u =>
          cases hfault : io.fault with
          | none =>
            refine .inr ⟨expected, ?_⟩
            simp only [applySegment, if_neg hseq, if_neg hzero, hcheck, writeSegmentToFile,
              hfault, hfile, hshared]
            rfl
          | some fault =>
            refine .inl ⟨fault.error, expected, fault.ops segment.ops, fun p => IoFault.touched, ?_⟩
            simp only [applySegment, if_neg hseq, if_neg hzero, hcheck, writeSegmentToFile,
              hfault, hfile]
            rfl

end StandbyReplicator

end Knowledge.Replication
