import Knowledge.Replication.WalFormat

/-!
A sidecar that is cut off anywhere behind its header reads as the frames that are whole.
-/

set_option autoImplicit false

namespace Knowledge.Replication
open Knowledge.Machine

theorem isPowerOfTwo_of_toNat {x : UInt32} {k : Nat} (h : x.toNat = 2^k) :
    isPowerOfTwo x = true := by
  have hpos : 0 < x.toNat := by rw [h]; exact Nat.two_pow_pos k
  have hsub : (x-1).toNat = 2^k-1 := by
    rw [UInt32.toNat_sub_of_le x 1 (UInt32.le_iff_toNat_le.mpr hpos), h]
    rfl
  have hand : x &&& (x-1) = 0 := by
    apply UInt32.toNat_inj.mp
    rw [UInt32.toNat_and, h, hsub, Nat.and_two_pow_sub_one_eq_mod, Nat.mod_self]
    rfl
  have hne : x ≠ 0 := by
    rintro rfl
    exact Nat.lt_irrefl 0 hpos
  simp [isPowerOfTwo, hand, hne]

theorem pageSizeOk_of_two_pow {pageSize : UInt32} {k : Nat} (h : pageSize.toNat = 2^k)
    (hlarge : 512 ≤ pageSize) : PageSizeOk pageSize := by
  have hsmall : ¬ pageSize < 512 := UInt32.not_lt.mpr hlarge
  simp [PageSizeOk, implausiblePageSize, isPowerOfTwo_of_toNat h, hsmall]

/-- The bytes of frames, cut off behind the `k`-th, hold the first `k` of them. -/
theorem encodeFrames_truncated {header : WalHeader} {frames : List WalFrame}
    (hf : PagesFit header.pageSize frames) (running : Checksum) {bytes : Bytes}
    (hb : encodeFrames header running frames = .ok bytes) {k m : Nat} (hk : k ≤ frames.length)
    (hm : k*frameSize header ≤ m) (checksum : Checksum) :
    parseFrames { header with checksum } k running (bytes.take m) = frames.take k := by
  induction frames generalizing running bytes k m with
  | nil =>
    obtain rfl := Nat.le_zero.mp hk
    rfl
  | cons frame frames ih =>
    cases k with
    | zero => rfl
    | succ k =>
      have hp : frame.pageData.length = header.pageSize.toNat := hf frame List.mem_cons_self
      have hf' : PagesFit header.pageSize frames := fun f h => hf f (List.mem_cons_of_mem frame h)
      obtain ⟨rest, hrest, hlength, _⟩ :=
        encodeFrames_spec hf' (frameChecksum header running frame)
      have hwritten : bytes = frameHeader header (frameChecksum header running frame) frame ++
          frame.pageData ++ rest := by
        simp only [encodeFrames, if_neg (not_not_intro hp), hrest, ok_bind] at hb
        exact (Except.ok.inj hb).symm
      have hhead : (frameHeader header (frameChecksum header running frame) frame ++
          frame.pageData).length = frameSize header := by
        rw [List.length_append, hp]
        rfl
      rw [Nat.succ_mul] at hm
      rw [hwritten, List.take_append, hhead, List.take_of_length_le (by omega)]
      have hcons := parseFrames_cons { header with checksum } running hp k
        (rest.take (m-frameSize header))
      have htail := ih hf' _ hrest (Nat.le_of_succ_le_succ hk)
        (show k*frameSize header ≤ m-frameSize header by omega)
      exact hcons.trans (congrArg (frame :: ·) htail)

/-- `recovered header frames` is the header written, under its computed checksum, with these
frames. Cut at `n` bytes, the `k` frames that are whole within `n` are left. -/
theorem parseWal_truncated {header : WalHeader} {frames : List WalFrame} {e : Nat}
    (hpow : header.pageSize.toNat = 2^e) (hlarge : 512 ≤ header.pageSize)
    (hf : PagesFit header.pageSize frames) :
    ∃ bytes, encodeWal header frames = .ok bytes ∧
      bytes.length = walHeaderSize+frames.length*frameSize header ∧
      parseWal bytes = .ok (recovered header frames) ∧
      ∀ n, walHeaderSize ≤ n → n ≤ bytes.length →
        ∃ k ≤ frames.length,
          parseWal (bytes.take n) = .ok (recovered header (frames.take k)) ∧
          walHeaderSize+k*frameSize header ≤ n ∧ n < walHeaderSize+(k+1)*frameSize header := by
  have hs := pageSizeOk_of_two_pow hpow hlarge
  generalize hc : walChecksum header.order (0, 0) (encodeHeader header) = hdrCk
  obtain ⟨rest, he, hl, hparse⟩ := encodeFrames_spec hf hdrCk
  have hhead : (encodeHeader header ++ u32ToBe hdrCk.1 ++ u32ToBe hdrCk.2).length =
      walHeaderSize := by
    simp only [encodeHeader, List.length_append, length_u32ToBe, walHeaderSize]
  have hpos := frameSize_pos header
  refine ⟨encodeHeader header ++ u32ToBe hdrCk.1 ++ u32ToBe hdrCk.2 ++ rest, ?_, ?_, ?_, ?_⟩
  · simp only [encodeWal, hc, he]
    rfl
  · rw [List.length_append, hhead, hl]
  · rw [parseWal_header hs hc, hl, Nat.mul_div_cancel _ hpos, hparse, recovered, hc]
  · intro n hn hle
    rw [List.length_append, hhead, hl] at hle
    have hk : (n-walHeaderSize)/frameSize header ≤ frames.length := by
      rw [Nat.div_le_iff_le_mul_add_pred hpos, Nat.mul_comm]
      omega
    have hfits := Nat.div_mul_le_self (n-walHeaderSize) (frameSize header)
    have hnext := Nat.lt_mul_div_succ (n-walHeaderSize) hpos
    rw [Nat.mul_comm] at hnext
    refine ⟨(n-walHeaderSize)/frameSize header, hk, ?_, by omega, by omega⟩
    have hcut : (rest.take (n-walHeaderSize)).length = n-walHeaderSize := by
      rw [List.length_take, hl]
      omega
    have hframes := encodeFrames_truncated hf hdrCk he hk hfits hdrCk
    rw [List.take_append, hhead, List.take_of_length_le (by omega), parseWal_header hs hc, hcut,
      hframes, recovered, hc]

/-- Two frames of which the second is cut through. -/
theorem parseWal_truncated_second :
    ∃ bytes, encodeWal (sampleHeader (1, 2)) [samplePage 1 0 7, samplePage 2 2 8] = .ok bytes ∧
      parseWal (bytes.take 1000) = .ok (recovered (sampleHeader (1, 2)) [samplePage 1 0 7]) := by
  have hf : PagesFit (sampleHeader (1, 2)).pageSize [samplePage 1 0 7, samplePage 2 2 8] := by
    intro frame hframe
    rcases List.mem_pair.mp hframe with rfl | rfl <;> exact List.length_replicate
  have hsize : frameSize (sampleHeader (1, 2)) = 536 := rfl
  obtain ⟨bytes, he, hl, _, hcut⟩ := parseWal_truncated (show _ = 2^9 from rfl) (by decide) hf
  rw [hsize] at hl hcut
  obtain ⟨k, _, hparse, hlow, hhigh⟩ := hcut 1000 (by decide) (by rw [hl]; decide)
  simp only [walHeaderSize] at hlow hhigh
  obtain rfl : k = 1 := by omega
  exact ⟨bytes, he, hparse⟩

end Knowledge.Replication
