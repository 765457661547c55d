import Knowledge.Lib.Machine
import Mathlib.Data.List.Basic

/-!
The SQLite WAL byte format as `crates/substrate_server/src/replication/mod.rs` reads
and writes it: the rolling checksum, `parse_wal` and `encode_wal`.
-/

set_option autoImplicit false

namespace Knowledge.Replication
open Knowledge.Machine

abbrev Bytes := List UInt8

inductive ReplError where
  | malformed (text : String)
  | badMagic (magic : UInt32)
  | transport (text : String)
  | badRole (role : String)
  | misconfigured (text : String)
  deriving DecidableEq

abbrev ReplResult (α : Type) := Except ReplError α

@[simp] theorem ok_bind {α β : Type} (a : α) (f : α → ReplResult β) :
    ((.ok a : ReplResult α) >>= f) = f a := rfl

def walHeaderSize : Nat := 32

def frameHeaderSize : Nat := 24

def walMagicLe : UInt32 := 0x377f0682

def walMagicBe : UInt32 := 0x377f0683

inductive ChecksumOrder where
  | little
  | big
  deriving DecidableEq

namespace ChecksumOrder

def fromMagic (magic : UInt32) : ReplResult ChecksumOrder :=
  if magic = walMagicLe then .ok little
  else if magic = walMagicBe then .ok big
  else .error (.badMagic magic)

def magic : ChecksumOrder → UInt32
  | little => walMagicLe
  | big => walMagicBe

def readU32 : ChecksumOrder → Bytes → UInt32
  | little => u32OfLe
  | big => u32OfBe

theorem fromMagic_magic (order : ChecksumOrder) : fromMagic order.magic = .ok order := by
  cases order <;> decide

end ChecksumOrder

abbrev Checksum := UInt32 × UInt32

/-- Folds pairs of words into the running sums; a rest shorter than eight bytes is ignored. -/
def walChecksum (order : ChecksumOrder) : Checksum → Bytes → Checksum
  | s, b0 :: b1 :: b2 :: b3 :: b4 :: b5 :: b6 :: b7 :: rest =>
    let s0 := s.1 + order.readU32 [b0, b1, b2, b3] + s.2
    let s1 := s.2 + order.readU32 [b4, b5, b6, b7] + s0
    walChecksum order (s0, s1) rest
  | s, _ => s

structure WalHeader where
  order : ChecksumOrder
  pageSize : UInt32
  checkpointSeq : UInt32
  salt1 : UInt32
  salt2 : UInt32
  checksum : Checksum

abbrev Salts := UInt32 × UInt32

def WalHeader.salts (header : WalHeader) : Salts := (header.salt1, header.salt2)

structure WalFrame where
  pageNumber : UInt32
  dbSizeAfterCommit : UInt32
  pageData : Bytes
  deriving DecidableEq

def WalFrame.isCommit (frame : WalFrame) : Bool := frame.dbSizeAfterCommit != 0

structure ParsedWal where
  header : WalHeader
  frames : List WalFrame

/-- The frame loop of `parse_wal`, over the bytes that are left and the number of whole
frames among them: the first frame of another generation or with a checksum that does
not chain ends the valid prefix. -/
def parseFrames (header : WalHeader) : Nat → Checksum → Bytes → List WalFrame
  | 0, _, _ => []
  | n+1, running, bytes =>
    let fh := bytes.take frameHeaderSize
    let page := (bytes.drop frameHeaderSize).take header.pageSize.toNat
    if (u32OfBe (fh.drop 8), u32OfBe (fh.drop 12)) ≠ header.salts then []
    else
      let computed := walChecksum header.order
        (walChecksum header.order running (fh.take 8)) page
      if computed ≠ (u32OfBe (fh.drop 16), u32OfBe (fh.drop 20)) then []
      else ⟨u32OfBe fh, u32OfBe (fh.drop 4), page⟩ ::
        parseFrames header n computed (bytes.drop (frameHeaderSize+header.pageSize.toNat))

def frameSize (header : WalHeader) : Nat := frameHeaderSize+header.pageSize.toNat

def readPageSize (raw : UInt32) : UInt32 := if raw = 1 then 65536 else raw

def storedPageSize (pageSize : UInt32) : UInt32 := if pageSize = 65536 then 1 else pageSize

def implausiblePageSize (pageSize : UInt32) : Bool := pageSize < 512 || !isPowerOfTwo pageSize

def parseWalAs (order : ChecksumOrder) (bytes : Bytes) : ReplResult ParsedWal :=
  let pageSize := readPageSize (u32OfBe (bytes.drop 8))
  if implausiblePageSize pageSize then
    .error (.malformed s!"implausible WAL page size {pageSize}")
  else
    let stored := (u32OfBe (bytes.drop 24), u32OfBe (bytes.drop 28))
    if walChecksum order (0, 0) (bytes.take 24) ≠ stored then
      .error (.malformed "WAL header checksum mismatch")
    else
      let header : WalHeader := ⟨order, pageSize, u32OfBe (bytes.drop 12),
        u32OfBe (bytes.drop 16), u32OfBe (bytes.drop 20), stored⟩
      .ok ⟨header, parseFrames header ((bytes.length-walHeaderSize)/frameSize header) stored
        (bytes.drop walHeaderSize)⟩

def parseWal (bytes : Bytes) : ReplResult ParsedWal :=
  if bytes.length < walHeaderSize then
    .error (.malformed
      s!"WAL is {bytes.length} bytes, shorter than the {walHeaderSize}-byte header")
  else do
    let order ← ChecksumOrder.fromMagic (u32OfBe bytes)
    parseWalAs order bytes

def walFormatVersion : UInt32 := 3007000

def encodeHeader (header : WalHeader) : Bytes :=
  u32ToBe header.order.magic ++ u32ToBe walFormatVersion ++
    u32ToBe (storedPageSize header.pageSize) ++
    u32ToBe header.checkpointSeq ++ u32ToBe header.salt1 ++ u32ToBe header.salt2

def frameStart (frame : WalFrame) : Bytes :=
  u32ToBe frame.pageNumber ++ u32ToBe frame.dbSizeAfterCommit

def frameHeader (header : WalHeader) (computed : Checksum) (frame : WalFrame) : Bytes :=
  frameStart frame ++ u32ToBe header.salt1 ++ u32ToBe header.salt2 ++
    u32ToBe computed.1 ++ u32ToBe computed.2

def frameChecksum (header : WalHeader) (running : Checksum) (frame : WalFrame) : Checksum :=
  walChecksum header.order (walChecksum header.order running (frameStart frame)) frame.pageData

def encodeFrames (header : WalHeader) : Checksum → List WalFrame → ReplResult Bytes
  | _, [] => .ok []
  | running, frame :: frames =>
    if frame.pageData.length ≠ header.pageSize.toNat then
      .error (.malformed (s!"frame page is {frame.pageData.length} bytes, " ++
        s!"expected page_size {header.pageSize}"))
    else do
      let computed := frameChecksum header running frame
      let rest ← encodeFrames header computed frames
      .ok (frameHeader header computed frame ++ frame.pageData ++ rest)

def encodeWal (header : WalHeader) (frames : List WalFrame) : ReplResult Bytes := do
  let out := encodeHeader header
  let hdrCk := walChecksum header.order (0, 0) out
  let rest ← encodeFrames header hdrCk frames
  .ok (out ++ u32ToBe hdrCk.1 ++ u32ToBe hdrCk.2 ++ rest)

def PageSizeOk (pageSize : UInt32) : Prop := implausiblePageSize pageSize = false

instance (pageSize : UInt32) : Decidable (PageSizeOk pageSize) :=
  inferInstanceAs (Decidable (_ = _))

def PagesFit (pageSize : UInt32) (frames : List WalFrame) : Prop :=
  ∀ frame ∈ frames, frame.pageData.length = pageSize.toNat

theorem parseFrames_cons (header : WalHeader) (running : Checksum) {frame : WalFrame}
    (hp : frame.pageData.length = header.pageSize.toNat) (n : Nat) (rest : Bytes) :
    parseFrames header (n+1) running
      (frameHeader header (frameChecksum header running frame) frame ++ frame.pageData ++ rest) =
      frame :: parseFrames header n (frameChecksum header running frame) rest := by
  generalize hc : frameChecksum header running frame = computed
  have hlen : (frameHeader header computed frame).length = frameHeaderSize := rfl
  have hpage : ((frameHeader header computed frame ++ frame.pageData ++ rest).drop
      frameHeaderSize).take header.pageSize.toNat = frame.pageData := by
    rw [List.append_assoc, ← hlen, List.drop_left, ← hp, List.take_left]
  have hhead : (frameHeader header computed frame ++ frame.pageData ++ rest).take
      frameHeaderSize = frameHeader header computed frame := by
    rw [List.append_assoc, ← hlen, List.take_left]
  have hrest : (frameHeader header computed frame ++ frame.pageData ++ rest).drop
      (frameHeaderSize+header.pageSize.toNat) = rest := by
    rw [← hlen, ← hp, ← List.length_append, List.drop_left]
  have hstart : (frameHeader header computed frame).take 8 = frameStart frame := rfl
  have hsum : walChecksum header.order (walChecksum header.order running (frameStart frame))
    frame.pageData = computed := hc
  simp only [parseFrames, hpage, hhead, hrest, hstart, hsum]
  simp [frameHeader, frameStart, WalHeader.salts]

theorem encodeFrames_spec {header : WalHeader} {frames : List WalFrame}
    (hf : PagesFit header.pageSize frames) (running : Checksum) :
    ∃ bytes, encodeFrames header running frames = .ok bytes ∧
      bytes.length = frames.length*frameSize header ∧
      ∀ checksum, parseFrames { header with checksum } frames.length running bytes = frames := by
  induction frames generalizing running with
  | nil => exact ⟨[], rfl, (Nat.zero_mul _).symm, fun _ => rfl⟩
  | cons frame frames ih =>
    have hp : frame.pageData.length = header.pageSize.toNat := hf frame List.mem_cons_self
    have hf' : PagesFit header.pageSize frames := fun f h => hf f (List.mem_cons_of_mem frame h)
    obtain ⟨bytes, hb, hl, hparse⟩ := ih hf' (frameChecksum header running frame)
    refine ⟨frameHeader header (frameChecksum header running frame) frame ++ frame.pageData ++
      bytes, ?_, ?_, ?_⟩
    · simp only [encodeFrames, if_neg (not_not_intro hp), hb]
      rfl
    · have : (frameHeader header (frameChecksum header running frame) frame).length = 24 := rfl
      rw [List.length_cons, Nat.succ_mul, ← hl]
      simp only [List.length_append, this, hp, frameSize, frameHeaderSize]
      omega
    · intro checksum
      have hcons := parseFrames_cons { header with checksum } running hp frames.length bytes
      exact hcons.trans (congrArg (frame :: ·) (hparse checksum))

theorem frameSize_pos (header : WalHeader) : 0 < frameSize header :=
  Nat.add_pos_left (by decide) _

theorem readPageSize_storedPageSize {pageSize : UInt32} (hs : PageSizeOk pageSize) :
    readPageSize (storedPageSize pageSize) = pageSize := by
  unfold readPageSize storedPageSize
  by_cases h : pageSize = 65536
  · rw [if_pos h, if_pos rfl, h]
  · rw [if_neg h, if_neg]
    rintro rfl
    exact absurd hs (by decide)

theorem encodeHeader_fields (header : WalHeader) (ck : Checksum) (rest : Bytes) :
    let bytes := encodeHeader header ++ u32ToBe ck.1 ++ u32ToBe ck.2 ++ rest
    u32OfBe bytes = header.order.magic ∧
      u32OfBe (bytes.drop 8) = storedPageSize header.pageSize ∧
      u32OfBe (bytes.drop 12) = header.checkpointSeq ∧
      u32OfBe (bytes.drop 16) = header.salt1 ∧ u32OfBe (bytes.drop 20) = header.salt2 ∧
      u32OfBe (bytes.drop 24) = ck.1 ∧ u32OfBe (bytes.drop 28) = ck.2 := by
  simp [encodeHeader]

/-- Behind a header `encode_wal` writes, `parse_wal` reads the frames of whatever follows. -/
theorem parseWal_header {header : WalHeader} {hdrCk : Checksum} (hs : PageSizeOk header.pageSize)
    (hc : walChecksum header.order (0, 0) (encodeHeader header) = hdrCk) (rest : Bytes) :
    parseWal (encodeHeader header ++ u32ToBe hdrCk.1 ++ u32ToBe hdrCk.2 ++ rest) =
      .ok ⟨{ header with checksum := hdrCk },
        parseFrames { header with checksum := hdrCk } (rest.length/frameSize header) hdrCk
          rest⟩ := by
  have hlen : (encodeHeader header ++ u32ToBe hdrCk.1 ++ u32ToBe hdrCk.2 ++ rest).length =
      rest.length+walHeaderSize := by
    simp only [encodeHeader, List.length_append, length_u32ToBe, walHeaderSize]
    omega
  have htake : (encodeHeader header ++ u32ToBe hdrCk.1 ++ u32ToBe hdrCk.2 ++ rest).take 24 =
      encodeHeader header := by
    simp [encodeHeader]
  have hdrop : (encodeHeader header ++ u32ToBe hdrCk.1 ++ u32ToBe hdrCk.2 ++ rest).drop
      walHeaderSize = rest := by
    simp [encodeHeader, walHeaderSize]
  have hfields := encodeHeader_fields header hdrCk rest
  have hok : ¬implausiblePageSize header.pageSize = true := Bool.eq_false_iff.mp hs
  revert hlen htake hdrop hfields
  generalize encodeHeader header ++ u32ToBe hdrCk.1 ++ u32ToBe hdrCk.2 ++ rest = bytes
  rintro hlen htake hdrop ⟨h0, h8, h12, h16, h20, h24, h28⟩
  have hlong : ¬bytes.length < walHeaderSize := by omega
  have hsize : readPageSize (u32OfBe (bytes.drop 8)) = header.pageSize := by
    rw [h8, readPageSize_storedPageSize hs]
  have hsum : walChecksum header.order (0, 0) (bytes.take 24) =
      (u32OfBe (bytes.drop 24), u32OfBe (bytes.drop 28)) := by
    rw [htake, hc, h24, h28]
  rw [parseWal, if_neg hlong, h0, ChecksumOrder.fromMagic_magic, ok_bind]
  simp only [parseWalAs, hsize, if_neg hok, if_neg (not_not_intro hsum)]
  rw [h12, h16, h20, h24, h28, hdrop, hlen, Nat.add_sub_cancel]
  rfl

theorem parseWal_encodeWal {header : WalHeader} {frames : List WalFrame}
    (hs : PageSizeOk header.pageSize) (hf : PagesFit header.pageSize frames) :
    ∃ bytes, encodeWal header frames = .ok bytes ∧ walHeaderSize ≤ bytes.length ∧
      parseWal bytes = .ok ⟨{ header with
        checksum := walChecksum header.order (0, 0) (encodeHeader header) }, frames⟩ := by
  generalize hc : walChecksum header.order (0, 0) (encodeHeader header) = hdrCk
  obtain ⟨rest, he, hl, hparse⟩ := encodeFrames_spec hf hdrCk
  have hcount : rest.length/frameSize header = frames.length := by
    rw [hl, Nat.mul_div_cancel _ (frameSize_pos header)]
  refine ⟨encodeHeader header ++ u32ToBe hdrCk.1 ++ u32ToBe hdrCk.2 ++ rest, ?_, ?_, ?_⟩
  · simp only [encodeWal, hc, he]
    rfl
  · simp only [encodeHeader, List.length_append, length_u32ToBe, walHeaderSize]
    omega
  · rw [parseWal_header hs hc, hcount, hparse]

def walBytes (header : WalHeader) (frames : List WalFrame) : Bytes :=
  match encodeWal header frames with
  | .ok bytes => bytes
  | .error _ => []

def recovered (header : WalHeader) (frames : List WalFrame) : ParsedWal :=
  ⟨{ header with checksum := walChecksum header.order (0, 0) (encodeHeader header) }, frames⟩

theorem parseWal_walBytes {header : WalHeader} {frames : List WalFrame}
    (hs : PageSizeOk header.pageSize) (hf : PagesFit header.pageSize frames) :
    parseWal (walBytes header frames) = .ok (recovered header frames) := by
  obtain ⟨bytes, he, -, hp⟩ := parseWal_encodeWal hs hf
  rw [walBytes, he]
  exact hp

def samplePage (pageNumber dbSize : UInt32) (fill : UInt8) : WalFrame :=
  ⟨pageNumber, dbSize, List.replicate 512 fill⟩

def sampleHeader (salts : Salts) : WalHeader := ⟨.little, 512, 0, salts.1, salts.2, (0, 0)⟩

end Knowledge.Replication
