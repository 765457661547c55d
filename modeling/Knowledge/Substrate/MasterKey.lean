import Knowledge.Lib.Hex

/-!
`crates/substrate_server/src/config.rs`: the master key as text. A key is the list of its
bytes, filled from the left.
-/

set_option autoImplicit false

namespace Knowledge.Substrate
open Knowledge.Hex

def masterKeyHexLen : Nat := 64

def plusSign : UInt8 := 0x2B
def minusSign : UInt8 := 0x2D

/-- One digit of `u8::from_str_radix(_, 16)`, which stops at a value that no `u8` holds. -/
def pushDigit (acc : Nat) (b : UInt8) : Option Nat := do
  let digit ← toDigit b
  if acc*16+digit < 256 then some (acc*16+digit) else none

/-- `u8::from_str_radix(_, 16)`: an unsigned type takes a leading plus sign and no minus sign. -/
def fromStrRadix16 : List UInt8 → Option UInt8
  | [] => none
  | first :: digits =>
    if (first = plusSign ∨ first = minusSign) ∧ digits = [] then none
    else
      let digits := if first = plusSign then digits else first :: digits
      (digits.foldlM pushDigit 0).map UInt8.ofNat

def fromUtf8 (chunk : List UInt8) : Option (List UInt8) :=
  if chunk.toByteArray.validateUTF8 then some chunk else none

def chunks2 : List UInt8 → List (List UInt8)
  | [] => []
  | [a] => [[a]]
  | a :: b :: rest => [a, b] :: chunks2 rest

def parseChunk (chunk : List UInt8) : Option UInt8 := fromUtf8 chunk >>= fromStrRadix16

def decodeMasterKey (hex : String) : Option (List UInt8) :=
  if (utf8 hex).length ≠ masterKeyHexLen then none
  else (chunks2 (utf8 hex)).mapM parseChunk

def isValidMasterKeyHex (s : String) : Bool :=
  (utf8 s).length == masterKeyHexLen && (utf8 s).all isHexDigit

def keyPair : List UInt8 → Bool
  | [a, b] => (a == plusSign || isHexDigit a) && isHexDigit b
  | _ => false

def pairValue (a b : UInt8) : Option UInt8 := do
  let low ← toDigit b
  if a = plusSign then some (UInt8.ofNat low)
  else do
    let high ← toDigit a
    some (UInt8.ofNat (high*16+low))

theorem plus_not_digit : isHexDigit plusSign = false := by decide

theorem pushDigit_digit {acc d : Nat} {b : UInt8} (h : toDigit b = some d) (hacc : acc < 16) :
    pushDigit acc b = some (acc*16+d) := by
  have := (toDigit_lower h).1
  simp [pushDigit, h]
  omega

theorem pushDigit_none {acc : Nat} {b : UInt8} (h : toDigit b = none) : pushDigit acc b = none := by
  simp [pushDigit, h]

theorem radix_pair (a b : UInt8) : fromStrRadix16 [a, b] = pairValue a b := by
  rw [fromStrRadix16, if_neg (by simp), pairValue]
  by_cases ha : a = plusSign
  · cases hb : toDigit b with
    | none => simp [ha, pushDigit_none hb]
    | some e => simp [ha, pushDigit_digit hb]
  · cases hd : toDigit a with
    | none => cases toDigit b <;> simp [ha, pushDigit_none hd]
    | some d =>
      have hsmall := (toDigit_lower hd).1
      cases hb : toDigit b with
      | none => simp [ha, pushDigit_digit hd, pushDigit_none hb]
      | some e => simp [ha, pushDigit_digit hd, pushDigit_digit hb hsmall]

theorem pairValue_isSome (a b : UInt8) : (pairValue a b).isSome = keyPair [a, b] := by
  rw [keyPair, ← toDigit_isSome, ← toDigit_isSome, pairValue]
  by_cases ha : a = plusSign <;> cases toDigit a <;> cases toDigit b <;> simp [ha]

theorem parse_pair (a b : UInt8) : parseChunk [a, b] = pairValue a b := by
  rw [parseChunk, fromUtf8]
  split_ifs with hutf
  · exact radix_pair a b
  · cases hpair : pairValue a b with
    | none => rfl
    | some v =>
      have hkey : keyPair [a, b] = true := by rw [← pairValue_isSome, hpair]; rfl
      refine absurd (validate_ascii fun x hx => ?_) hutf
      simp only [keyPair, Bool.and_eq_true, Bool.or_eq_true, beq_iff_eq] at hkey
      simp only [List.mem_cons, List.not_mem_nil, or_false] at hx
      rcases hx with rfl | rfl
      · rcases hkey.1 with rfl | hdigit
        · decide
        · exact isHexDigit_ascii hdigit
      · exact isHexDigit_ascii hkey.2

theorem parse_isSome (bytes : List UInt8) (h : bytes.length % 2 = 0) :
    ((chunks2 bytes).mapM parseChunk).isSome = (chunks2 bytes).all keyPair := by
  induction bytes using chunks2.induct with
  | case1 => rfl
  | case2 a => simp at h
  | case3 a b rest ih =>
    rw [chunks2, List.mapM_cons, List.all_cons, ← ih (by simp at h; omega), ← pairValue_isSome,
      ← parse_pair]
    cases parseChunk [a, b] <;> cases (chunks2 rest).mapM parseChunk <;> rfl

theorem digits_pairs (bytes : List UInt8) (h : bytes.length % 2 = 0) :
    bytes.all isHexDigit = ((chunks2 bytes).all keyPair && !bytes.contains plusSign) := by
  induction bytes using chunks2.induct with
  | case1 => rfl
  | case2 a => simp at h
  | case3 a b rest ih =>
    have hrest := ih (by simp at h; omega)
    rw [chunks2, List.all_cons, List.all_cons, List.all_cons, List.contains_cons,
      List.contains_cons, hrest, keyPair, @BEq.comm _ _ _ plusSign a, @BEq.comm _ _ _ plusSign b]
    have hsign : ∀ x, (x == plusSign) = true → isHexDigit x = false := by simp [plus_not_digit]
    cases ha : a == plusSign <;> cases hb : b == plusSign <;>
      simp [ha, hb, hsign, Bool.and_assoc]

theorem parse_digits (bytes : List UInt8) {key : List UInt8} (h : bytes.length % 2 = 0)
    (hdigits : bytes.all isHexDigit = true) (hkey : (chunks2 bytes).mapM parseChunk = some key) :
    key.length*2 = bytes.length ∧ encode key = bytes.map toLower := by
  induction bytes using chunks2.induct generalizing key with
  | case1 =>
    obtain rfl := Option.some.inj hkey
    exact ⟨rfl, rfl⟩
  | case2 a => simp at h
  | case3 a b rest ih =>
    simp only [List.all_cons, Bool.and_eq_true, ← toDigit_isSome, Option.isSome_iff_exists]
      at hdigits
    obtain ⟨⟨d, ha⟩, ⟨e, hb⟩, hrest⟩ := hdigits
    have hsign : a ≠ plusSign := by
      rintro rfl
      have := toDigit_isSome plusSign
      simp [ha, plus_not_digit] at this
    simp only [chunks2, List.mapM_cons, parse_pair, pairValue, ha, hb, hsign, if_false] at hkey
    cases htail : (chunks2 rest).mapM parseChunk with
    | none => simp [htail] at hkey
    | some tail =>
      obtain ⟨hlength, hencode⟩ := ih (by simp at h; omega) hrest htail
      simp only [htail] at hkey
      obtain rfl := Option.some.inj hkey
      rw [encode_pair ha hb, hencode]
      exact ⟨by simp; omega, rfl⟩

def HexKey (s : String) : Prop := s.toList.length = 64 ∧ ∀ c ∈ s.toList, isHexChar c = true

def SignedKey (s : String) : Prop :=
  (utf8 s).length = 64 ∧ (chunks2 (utf8 s)).all keyPair = true ∧ plusSign ∈ utf8 s

theorem isValid_iff (s : String) : isValidMasterKeyHex s = true ↔ HexKey s := by
  rw [HexKey, ← digits_iff, isValidMasterKeyHex, Bool.and_eq_true, beq_iff_eq, List.all_eq_true]
  rfl

theorem decode_iff (s : String) :
    (decodeMasterKey s).isSome = true ↔ HexKey s ∨ SignedKey s := by
  rw [decodeMasterKey, HexKey, ← digits_iff, SignedKey, masterKeyHexLen]
  by_cases hlength : (utf8 s).length = 64
  · have hpairs := digits_pairs (utf8 s) (by omega)
    rw [if_neg (not_not.2 hlength), parse_isSome (utf8 s) (by omega), ← List.all_eq_true, hpairs]
    by_cases hsign : plusSign ∈ utf8 s <;> simp [hlength, hsign]
  · simp [hlength]

theorem signed_not_hex {s : String} (h : SignedKey s) : ¬HexKey s := by
  rw [HexKey, ← digits_iff]
  rintro ⟨-, hdigits⟩
  exact absurd (hdigits plusSign h.2.2) (by decide)

theorem decode_hex {s : String} {key : List UInt8} (hs : HexKey s)
    (h : decodeMasterKey s = some key) :
    key.length = 32 ∧ encode key = (utf8 s).map toLower := by
  rw [HexKey, ← digits_iff] at hs
  obtain ⟨hlength, hdigits⟩ := hs
  rw [decodeMasterKey, masterKeyHexLen, if_neg (not_not.2 hlength)] at h
  obtain ⟨hkey, hencode⟩ := parse_digits (utf8 s) (by omega) (List.all_eq_true.2 hdigits) h
  exact ⟨by omega, hencode⟩

/-- Both validators take the texts of 64 digits, and no others, unless a sign leads a pair. -/
theorem masterKey_agree_iff (s : String) :
    (((decodeMasterKey s).isSome = true ↔ HexKey s)
      ∧ (∀ key, decodeMasterKey s = some key →
          key.length = 32 ∧ encode key = (utf8 s).map toLower)
      ∧ isValidMasterKeyHex s = (decodeMasterKey s).isSome)
    ↔ ¬SignedKey s := by
  constructor
  · rintro ⟨haccept, -, -⟩ hsigned
    exact signed_not_hex hsigned (haccept.1 ((decode_iff s).2 (.inr hsigned)))
  · intro hsigned
    have haccept : (decodeMasterKey s).isSome = true ↔ HexKey s := by
      rw [decode_iff, or_iff_left hsigned]
    refine ⟨haccept, fun key hkey => ?_, ?_⟩
    · exact decode_hex (haccept.1 (by rw [hkey]; rfl)) hkey
    · rw [Bool.eq_iff_iff, isValid_iff, haccept]

/-- Thirty-two times `+f` decodes, as the key of thirty-two times `0f`, and no server boots with
it. -/
theorem signed_key_accepted :
    decodeMasterKey "+f+f+f+f+f+f+f+f+f+f+f+f+f+f+f+f+f+f+f+f+f+f+f+f+f+f+f+f+f+f+f+f"
        = some (List.replicate 32 15)
      ∧ isValidMasterKeyHex "+f+f+f+f+f+f+f+f+f+f+f+f+f+f+f+f+f+f+f+f+f+f+f+f+f+f+f+f+f+f+f+f"
        = false
      ∧ ¬HexKey "+f+f+f+f+f+f+f+f+f+f+f+f+f+f+f+f+f+f+f+f+f+f+f+f+f+f+f+f+f+f+f+f" := by
  refine ⟨by decide +kernel, by decide +kernel, ?_⟩
  rw [← isValid_iff]
  decide +kernel

end Knowledge.Substrate
