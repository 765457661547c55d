import Knowledge.Replication.Shipper
import Knowledge.Replication.Truncation

/-!
The `KWL1` wire format of a WAL segment: `WalSegment::encode` and `WalSegment::decode` of
`replication/mod.rs`.
-/

set_option autoImplicit false

namespace Knowledge.Replication
open Knowledge.Machine

def segmentMagic : Bytes := [0x4b, 0x57, 0x4c, 0x31]

def fixedSize : Nat := 4+8+8+4+4+4+4

def perFrame (pageSize : UInt32) : Nat := 8+pageSize.toNat

def frameBytes (frame : WalFrame) : Bytes := frameStart frame ++ frame.pageData

def segmentHeader (segment : WalSegment) : Bytes :=
  segmentMagic ++ toBeBytes 8 segment.seq ++ toBeBytes 8 segment.cumulativeFrames ++
    u32ToBe segment.pageSize ++ u32ToBe segment.salt1 ++ u32ToBe segment.salt2 ++
    u32ToBe (UInt32.ofNat segment.frames.length)

/-- `none` is the panic of a segment with more frames than a `u32` counts. -/
def WalSegment.encode (segment : WalSegment) : Option Bytes :=
  if segment.frames.length < 2^32 then
    some (segmentHeader segment ++ segment.frames.flatMap frameBytes)
  else none

open WalSegment

/-- `&bytes[start..stop]`; `none` is the panic of an index out of bounds. -/
def slice (bytes : Bytes) (start stop : Nat) : Option Bytes :=
  if start ≤ stop ∧ stop ≤ bytes.length then some ((bytes.drop start).take (stop-start))
  else none

def decodeFrames (bytes : Bytes) (pageSize : UInt32) :
    Nat → Nat → Option (ReplResult (List WalFrame))
  | 0, _ => some (.ok [])
  | count+1, offset =>
    if bytes.length < offset+perFrame pageSize then
      some (.error (.malformed "segment truncated before declared frame count"))
    else do
      let pageNumber ← slice bytes offset (offset+4)
      let dbSize ← slice bytes (offset+4) (offset+8)
      let page ← slice bytes (offset+8) (offset+perFrame pageSize)
      let rest ← decodeFrames bytes pageSize count (offset+perFrame pageSize)
      some (rest.map (⟨u32OfBe pageNumber, u32OfBe dbSize, page⟩ :: ·))

def decodeBody (bytes : Bytes) : Option (ReplResult WalSegment) := do
  let seq ← slice bytes 4 12
  let cumulativeFrames ← slice bytes 12 20
  let pageSize ← slice bytes 20 24
  let salt1 ← slice bytes 24 28
  let salt2 ← slice bytes 28 32
  let count ← slice bytes 32 36
  if implausiblePageSize (u32OfBe pageSize) then
    some (.error (.malformed s!"segment declares implausible page size {u32OfBe pageSize}"))
  else do
    let frames ← decodeFrames bytes (u32OfBe pageSize) (u32OfBe count).toNat fixedSize
    some (frames.map fun frames =>
      ⟨ofBeBytes seq, ofBeBytes cumulativeFrames, u32OfBe pageSize, u32OfBe salt1, u32OfBe salt2,
        frames⟩)

/-- `none` is a panic. -/
def WalSegment.decode (bytes : Bytes) : Option (ReplResult WalSegment) :=
  if bytes.length < fixedSize then
    some (.error (.malformed
      s!"segment is {bytes.length} bytes, shorter than the {fixedSize}-byte header"))
  else do
    let magic ← slice bytes 0 4
    if magic ≠ segmentMagic then some (.error (.malformed "segment magic mismatch"))
    else decodeBody bytes

/-! ## What is read -/

theorem slice_of_le {bytes : Bytes} {start stop : Nat} (h : start ≤ stop)
    (hle : stop ≤ bytes.length) :
    slice bytes start stop = some ((bytes.drop start).take (stop-start)) := by
  rw [slice, if_pos ⟨h, hle⟩]

def framesOf (pageSize : UInt32) : Nat → Bytes → List WalFrame
  | 0, _ => []
  | count+1, rest =>
    ⟨u32OfBe (rest.take 4), u32OfBe ((rest.drop 4).take 4), (rest.drop 8).take pageSize.toNat⟩ ::
      framesOf pageSize count (rest.drop (perFrame pageSize))

theorem decodeFrames_eq (bytes : Bytes) (pageSize : UInt32) (count : Nat) {offset : Nat}
    (h : offset ≤ bytes.length) :
    decodeFrames bytes pageSize count offset =
      some (if offset+count*perFrame pageSize ≤ bytes.length then
          .ok (framesOf pageSize count (bytes.drop offset))
        else .error (.malformed "segment truncated before declared frame count")) := by
  induction count generalizing offset with
  | zero => simp [decodeFrames, framesOf, h]
  | succ count ih =>
    rw [decodeFrames, Nat.succ_mul]
    by_cases hshort : bytes.length < offset+perFrame pageSize
    · rw [if_pos hshort, if_neg (by omega)]
    · have hsize : 8 ≤ perFrame pageSize := Nat.le_add_right _ _
      have hpage : offset+perFrame pageSize-(offset+8) = pageSize.toNat := by
        simp only [perFrame]
        omega
      rw [if_neg hshort, slice_of_le (by omega) (by omega), slice_of_le (by omega) (by omega),
        slice_of_le (by omega) (by omega), ih (by omega)]
      simp only [Option.bind_eq_bind, Option.bind_some]
      by_cases hfit : offset+perFrame pageSize+count*perFrame pageSize ≤ bytes.length
      · rw [if_pos hfit, if_pos (by omega)]
        simp [Except.map, framesOf, hpage]
      · rw [if_neg hfit, if_neg (by omega)]
        rfl

def declaredPageSize (bytes : Bytes) : UInt32 := u32OfBe ((bytes.drop 20).take 4)

def declaredCount (bytes : Bytes) : Nat := (u32OfBe ((bytes.drop 32).take 4)).toNat

def segmentOf (bytes : Bytes) : WalSegment :=
  ⟨ofBeBytes ((bytes.drop 4).take 8), ofBeBytes ((bytes.drop 12).take 8), declaredPageSize bytes,
    u32OfBe ((bytes.drop 24).take 4), u32OfBe ((bytes.drop 28).take 4),
    framesOf (declaredPageSize bytes) (declaredCount bytes) (bytes.drop fixedSize)⟩

/-- The magic, the page size and the declared count decide between the outcomes, and no read
is out of bounds. -/
theorem WalSegment.decode_eq (bytes : Bytes) :
    decode bytes = some (
      if bytes.length < fixedSize then
        .error (.malformed
          s!"segment is {bytes.length} bytes, shorter than the {fixedSize}-byte header")
      else if bytes.take 4 ≠ segmentMagic then .error (.malformed "segment magic mismatch")
      else if implausiblePageSize (declaredPageSize bytes) then
        .error (.malformed
          s!"segment declares implausible page size {declaredPageSize bytes}")
      else if fixedSize+declaredCount bytes*perFrame (declaredPageSize bytes) ≤ bytes.length then
        .ok (segmentOf bytes)
      else .error (.malformed "segment truncated before declared frame count")) := by
  unfold decode
  by_cases hshort : bytes.length < fixedSize
  · rw [if_pos hshort, if_pos hshort]
  · have hlong : 36 ≤ bytes.length := Nat.not_lt.mp hshort
    rw [if_neg hshort, if_neg hshort, slice_of_le (by omega) (by omega)]
    simp only [Option.bind_eq_bind, Option.bind_some, List.drop_zero, Nat.sub_zero]
    by_cases hmagic : bytes.take 4 ≠ segmentMagic
    · rw [if_pos hmagic, if_pos hmagic]
    · rw [if_neg hmagic, if_neg hmagic, decodeBody, slice_of_le (by omega) (by omega),
        slice_of_le (by omega) (by omega), slice_of_le (by omega) (by omega),
        slice_of_le (by omega) (by omega), slice_of_le (by omega) (by omega),
        slice_of_le (by omega) (by omega)]
      simp only [Option.bind_eq_bind, Option.bind_some, Nat.reduceSub]
      change (if implausiblePageSize (declaredPageSize bytes) = true then _ else _) = _
      split
      · rfl
      · have hfixed : fixedSize ≤ bytes.length := hlong
        rw [decodeFrames_eq _ _ _ hfixed]
        simp only [Option.bind_some]
        change some (Except.map _ (if fixedSize+declaredCount bytes*perFrame
          (declaredPageSize bytes) ≤ bytes.length then _ else _)) = _
        split <;> rfl

/-! ## What is written -/

theorem length_frameBytes (frame : WalFrame) :
    (frameBytes frame).length = 8+frame.pageData.length := by
  simp [frameBytes, frameStart]
  omega

theorem framesOf_frameBytes {pageSize : UInt32} {frames : List WalFrame}
    (hf : PagesFit pageSize frames) (rest : Bytes) :
    framesOf pageSize frames.length (frames.flatMap frameBytes ++ rest) = frames := by
  induction frames with
  | nil => rfl
  | cons frame frames ih =>
    have hp : frame.pageData.length = pageSize.toNat := hf frame List.mem_cons_self
    have htail := ih fun f h => hf f (List.mem_cons_of_mem frame h)
    have hlength : (frameBytes frame).length = perFrame pageSize := by
      rw [length_frameBytes, hp, perFrame]
    have hdrop : ((frame :: frames).flatMap frameBytes ++ rest).drop (perFrame pageSize) =
        frames.flatMap frameBytes ++ rest := by
      rw [List.flatMap_cons, List.append_assoc, ← hlength, List.drop_left]
    simp only [List.length_cons, framesOf, hdrop, htail]
    simp [frameBytes, frameStart, ← hp]

theorem frameBytes_framesOf (pageSize : UInt32) (count : Nat) {rest : Bytes}
    (h : count*perFrame pageSize ≤ rest.length) :
    (framesOf pageSize count rest).length = count ∧
      PagesFit pageSize (framesOf pageSize count rest) ∧
      (framesOf pageSize count rest).flatMap frameBytes =
        rest.take (count*perFrame pageSize) := by
  induction count generalizing rest with
  | zero => simp [framesOf, PagesFit]
  | succ count ih =>
    rw [Nat.succ_mul] at h ⊢
    obtain ⟨hlength, hfit, hbytes⟩ := @ih (rest.drop (perFrame pageSize)) (by
      rw [List.length_drop]
      omega)
    have hsize : perFrame pageSize = 8+pageSize.toNat := rfl
    refine ⟨by simp [framesOf, hlength], ?_, ?_⟩
    · intro frame hframe
      rcases List.mem_cons.mp hframe with rfl | hframe
      · simp only [List.length_take, List.length_drop]
        omega
      · exact hfit frame hframe
    · have hfour : 4 ≤ (rest.take 4).length := by
        rw [List.length_take]
        omega
      have hnext : 4 ≤ ((rest.drop 4).take 4).length := by
        rw [List.length_take, List.length_drop]
        omega
      rw [framesOf, List.flatMap_cons, hbytes, frameBytes, frameStart, u32ToBe_u32OfBe hfour,
        u32ToBe_u32OfBe hnext]
      simp only [List.take_take, Nat.min_self]
      rw [Nat.add_comm _ (perFrame pageSize), List.take_add, hsize, List.take_add]
      congr 2
      exact (List.take_add (i := 4) (j := 4)).symm

/-- The integers of a segment are of the widths the code keeps them in. -/
structure WalSegment.Wide (segment : WalSegment) : Prop where
  seq : segment.seq < 2^64
  cumulativeFrames : segment.cumulativeFrames < 2^64

theorem length_segmentHeader (segment : WalSegment) :
    (segmentHeader segment).length = fixedSize := by
  simp [segmentHeader, segmentMagic, fixedSize]

theorem segmentHeader_fields {segment : WalSegment} (hw : segment.Wide)
    (hcount : segment.frames.length < 2^32) (rest : Bytes) :
    let bytes := segmentHeader segment ++ rest
    bytes.take 4 = segmentMagic ∧ ofBeBytes ((bytes.drop 4).take 8) = segment.seq ∧
      ofBeBytes ((bytes.drop 12).take 8) = segment.cumulativeFrames ∧
      declaredPageSize bytes = segment.pageSize ∧
      u32OfBe ((bytes.drop 24).take 4) = segment.salt1 ∧
      u32OfBe ((bytes.drop 28).take 4) = segment.salt2 ∧
      declaredCount bytes = segment.frames.length ∧ bytes.drop fixedSize = rest := by
  have hseq := @ofBeBytes_toBeBytes 8 segment.seq hw.seq
  have hcum := @ofBeBytes_toBeBytes 8 segment.cumulativeFrames hw.cumulativeFrames
  -- whatever lies wholly before a field is dropped
  have hwide : ∀ x n, (toBeBytes 8 x).drop (n+8) = [] :=
    fun x n => List.drop_eq_nil_of_le (by simp)
  have hword : ∀ x n, (u32ToBe x).drop (n+4) = [] :=
    fun x n => List.drop_eq_nil_of_le (by simp)
  have hall : ∀ x, (u32ToBe x).take 4 = u32ToBe x := fun _ => rfl
  refine ⟨?_, ?_, ?_, ?_, ?_, ?_, ?_, ?_⟩
  · simp [segmentHeader, segmentMagic]
  · simp [segmentHeader, segmentMagic, List.drop_append, hseq]
  · simp [segmentHeader, segmentMagic, hcum]
  · simp [declaredPageSize, segmentHeader, segmentMagic, List.drop_append, List.take_append,
      hwide, hall]
  · simp [segmentHeader, segmentMagic, List.drop_append, List.take_append, hwide, hword, hall]
  · simp [segmentHeader, segmentMagic, List.drop_append, List.take_append, hwide, hword, hall]
  · simp [declaredCount, segmentHeader, segmentMagic, List.drop_append, List.take_append, hwide,
      hword, hall]
    exact hcount
  · rw [← length_segmentHeader segment, List.drop_left]

theorem segmentHeader_segmentOf {bytes : Bytes} (hmagic : bytes.take 4 = segmentMagic)
    (hlong : fixedSize ≤ bytes.length)
    (hcount : (segmentOf bytes).frames.length = declaredCount bytes) :
    segmentHeader (segmentOf bytes) = bytes.take fixedSize := by
  simp only [fixedSize] at hlong
  have hfield : ∀ n, n+4 ≤ 36 →
      u32ToBe (u32OfBe ((bytes.drop n).take 4)) = (bytes.drop n).take 4 := by
    intro n hn
    have hfour : ((bytes.drop n).take 4).length = 4 := by
      rw [List.length_take, List.length_drop]
      omega
    rw [u32ToBe_u32OfBe (Nat.le_of_eq hfour.symm), List.take_take, Nat.min_self]
  have hwide : ∀ n, n+8 ≤ 36 →
      toBeBytes 8 (ofBeBytes ((bytes.drop n).take 8)) = (bytes.drop n).take 8 := by
    intro n hn
    refine toBeBytes_ofBeBytes ?_
    rw [List.length_take, List.length_drop]
    omega
  have hdeclared : UInt32.ofNat (declaredCount bytes) = u32OfBe ((bytes.drop 32).take 4) :=
    UInt32.ofNat_toNat
  have hcut : bytes.take fixedSize = bytes.take 4 ++ (bytes.drop 4).take 8 ++
      (bytes.drop 12).take 8 ++ (bytes.drop 20).take 4 ++ (bytes.drop 24).take 4 ++
      (bytes.drop 28).take 4 ++ (bytes.drop 32).take 4 := by
    simp only [fixedSize, List.take_add]
  rw [segmentHeader, hcount, hdeclared, hcut, hmagic]
  simp only [segmentOf, declaredPageSize]
  rw [hwide 4 (by decide), hwide 12 (by decide), hfield 20 (by decide), hfield 24 (by decide),
    hfield 28 (by decide), hfield 32 (by decide)]

theorem WalSegment.decode_encode {segment : WalSegment} (hw : segment.Wide)
    (hs : PageSizeOk segment.pageSize) (hf : PagesFit segment.pageSize segment.frames)
    (hcount : segment.frames.length < 2^32) :
    ∃ bytes, segment.encode = some bytes ∧ decode bytes = some (.ok segment) := by
  refine ⟨_, if_pos hcount, ?_⟩
  have hfields := segmentHeader_fields hw hcount (segment.frames.flatMap frameBytes)
  have hframes := framesOf_frameBytes hf []
  have hpayload : (segment.frames.flatMap frameBytes).length =
      segment.frames.length*perFrame segment.pageSize := by
    rw [List.length_flatMap, List.map_congr_left (g := fun _ => perFrame segment.pageSize)]
    · simp
    · intro frame hframe
      rw [length_frameBytes, hf frame hframe, perFrame]
  have hlength : (segmentHeader segment ++ segment.frames.flatMap frameBytes).length =
      fixedSize+segment.frames.length*perFrame segment.pageSize := by
    rw [List.length_append, length_segmentHeader, hpayload]
  rw [List.append_nil] at hframes
  have hok : ¬implausiblePageSize segment.pageSize = true := Bool.eq_false_iff.mp hs
  revert hfields hlength
  generalize segmentHeader segment ++ segment.frames.flatMap frameBytes = bytes
  rintro ⟨hmagic, hseq, hcum, hpage, hsalt1, hsalt2, hdeclared, hdrop⟩ hlength
  rw [decode_eq, hpage, hdeclared, if_neg (by omega), if_neg (not_not_intro hmagic), if_neg hok,
    if_pos (by omega), segmentOf, hseq, hcum, hpage, hsalt1, hsalt2, hdeclared, hdrop, hframes]

/-- An accepted buffer starts with the segment's own encoding and holds every frame it
declares. -/
theorem WalSegment.decode_ok {bytes : Bytes} {segment : WalSegment}
    (h : decode bytes = some (.ok segment)) :
    (∃ written, segment.encode = some written ∧ written <+: bytes) ∧
      PageSizeOk segment.pageSize ∧ PagesFit segment.pageSize segment.frames ∧
      segment.frames.length = declaredCount bytes ∧ segment.pageSize = declaredPageSize bytes ∧
      fixedSize+declaredCount bytes*perFrame (declaredPageSize bytes) ≤ bytes.length := by
  rw [decode_eq] at h
  by_cases hshort : bytes.length < fixedSize
  · simp [hshort] at h
  by_cases hmagic : bytes.take 4 ≠ segmentMagic
  · simp [hshort, hmagic] at h
  by_cases hsize : implausiblePageSize (declaredPageSize bytes) = true
  · simp [hshort, not_not.mp hmagic, hsize] at h
  by_cases hfit : fixedSize+declaredCount bytes*perFrame (declaredPageSize bytes) ≤ bytes.length
  · rw [if_neg hshort, if_neg hmagic, if_neg hsize, if_pos hfit] at h
    obtain rfl := Except.ok.inj (Option.some.inj h)
    obtain ⟨hlength, hpages, hbytes⟩ := frameBytes_framesOf (declaredPageSize bytes)
      (declaredCount bytes) (show _ ≤ (bytes.drop fixedSize).length by
        rw [List.length_drop]
        omega)
    have hheader := segmentHeader_segmentOf (not_not.mp hmagic) (by omega) hlength
    have hcount : (segmentOf bytes).frames.length < 2^32 := by
      rw [show (segmentOf bytes).frames.length = declaredCount bytes from hlength]
      exact UInt32.toNat_lt _
    refine ⟨⟨_, if_pos hcount, ?_⟩, Bool.eq_false_iff.mpr hsize, hpages, hlength, rfl, hfit⟩
    have hframes : (segmentOf bytes).frames.flatMap frameBytes = (bytes.drop fixedSize).take
        (declaredCount bytes*perFrame (declaredPageSize bytes)) := hbytes
    rw [hheader, hframes, ← List.take_add]
    exact List.take_prefix _ _
  · simp [hshort, not_not.mp hmagic, hsize, hfit] at h

/-- Both directions of the codec, and what becomes of a forged header. -/
theorem segment_codec :
    (∀ (segment : WalSegment) (e : Nat), segment.Wide → segment.pageSize.toNat = 2^e →
        512 ≤ segment.pageSize → PagesFit segment.pageSize segment.frames →
        segment.frames.length < 2^32 →
        ∃ bytes, segment.encode = some bytes ∧ decode bytes = some (.ok segment)) ∧
      (∀ (bytes : Bytes) (segment : WalSegment), decode bytes = some (.ok segment) →
        (∃ written, segment.encode = some written ∧ written <+: bytes) ∧
          PagesFit segment.pageSize segment.frames ∧
          segment.frames.length = declaredCount bytes) ∧
      ∀ bytes : Bytes, decode bytes ≠ none ∧
        (bytes.length < fixedSize+declaredCount bytes*perFrame (declaredPageSize bytes) →
          ∃ e, decode bytes = some (.error e)) := by
  refine ⟨?_, ?_, ?_⟩
  · intro segment e hw hpow hlarge hf hcount
    exact decode_encode hw (pageSizeOk_of_two_pow hpow hlarge) hf hcount
  · intro bytes segment h
    obtain ⟨hwritten, _, hpages, hlength, _⟩ := decode_ok h
    exact ⟨hwritten, hpages, hlength⟩
  · intro bytes
    have htotal : decode bytes ≠ none := by simp [decode_eq]
    refine ⟨htotal, ?_⟩
    intro hforged
    obtain ⟨result, hr⟩ := Option.ne_none_iff_exists'.mp htotal
    cases result with
    | error e => exact ⟨e, hr⟩
    | ok segment =>
      have hfit := (decode_ok hr).2.2.2.2.2
      omega

theorem segment_codec_sample :
    ∃ bytes, encode ⟨1, 1, 512, 7, 8, [samplePage 1 1 9]⟩ = some bytes ∧
      decode bytes = some (.ok ⟨1, 1, 512, 7, 8, [samplePage 1 1 9]⟩) := by
  have hf : PagesFit 512 [samplePage 1 1 9] := by
    intro frame hframe
    obtain rfl := List.mem_singleton.mp hframe
    exact List.length_replicate
  exact segment_codec.1 ⟨1, 1, 512, 7, 8, [samplePage 1 1 9]⟩ 9 ⟨by decide, by decide⟩ rfl
    (by decide) hf (by decide)

end Knowledge.Replication
