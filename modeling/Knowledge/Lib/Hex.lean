import Mathlib.Data.List.Basic

/-!
Hexadecimal text as bytes: the value of a digit, the text of a byte, and the bytes of a string
of digits.
-/

set_option autoImplicit false

namespace Knowledge.Hex
open UInt8

def toDigit (b : UInt8) : Option Nat :=
  if 0x30 ≤ b ∧ b ≤ 0x39 then some (b.toNat-0x30)
  else if 0x61 ≤ b ∧ b ≤ 0x66 then some (b.toNat-0x61+10)
  else if 0x41 ≤ b ∧ b ≤ 0x46 then some (b.toNat-0x41+10)
  else none

def isHexDigit (b : UInt8) : Bool :=
  (0x30 ≤ b && b ≤ 0x39) || (0x61 ≤ b && b ≤ 0x66) || (0x41 ≤ b && b ≤ 0x46)

def toLower (b : UInt8) : UInt8 := if 0x41 ≤ b ∧ b ≤ 0x5A then b+0x20 else b

def lowerDigit (d : Nat) : UInt8 := if d < 10 then UInt8.ofNat (0x30+d) else UInt8.ofNat (0x57+d)

def encode (bytes : List UInt8) : List UInt8 :=
  bytes.flatMap fun b => [lowerDigit (b.toNat/16), lowerDigit (b.toNat%16)]

def isHexChar (c : Char) : Bool :=
  ('0' ≤ c && c ≤ '9') || ('a' ≤ c && c ≤ 'f') || ('A' ≤ c && c ≤ 'F')

def utf8 (s : String) : List UInt8 := s.toUTF8.data.toList

theorem toDigit_isSome (b : UInt8) : (toDigit b).isSome = isHexDigit b := by
  unfold toDigit isHexDigit
  grind

theorem toDigit_lower {b : UInt8} {d : Nat} (h : toDigit b = some d) :
    d < 16 ∧ lowerDigit d = toLower b := by
  have hb := b.toNat_lt
  simp only [toDigit, UInt8.le_iff_toNat_le, UInt8.reduceToNat] at h
  simp only [lowerDigit, toLower, UInt8.le_iff_toNat_le, ← UInt8.toNat_inj, UInt8.reduceToNat]
  split_ifs at h <;> obtain rfl := Option.some.inj h <;> split_ifs <;>
    simp only [UInt8.toNat_add, UInt8.toNat_ofNat', UInt8.reduceToNat] <;> omega

theorem encode_cons (b : UInt8) (rest : List UInt8) :
    encode (b :: rest) = lowerDigit (b.toNat/16) :: lowerDigit (b.toNat%16) :: encode rest := rfl

/-- Two digits denote one byte, whose text is the two digits again in lower case. -/
theorem encode_pair {a b : UInt8} {d e : Nat} (ha : toDigit a = some d) (hb : toDigit b = some e)
    (rest : List UInt8) :
    encode (ofNat (d*16+e) :: rest) = toLower a :: toLower b :: encode rest := by
  obtain ⟨hd, hla⟩ := toDigit_lower ha
  obtain ⟨he, hlb⟩ := toDigit_lower hb
  have hsmall : (ofNat (d*16+e)).toNat = d*16+e := by
    rw [toNat_ofNat']
    omega
  rw [encode_cons, hsmall, show (d*16+e)/16 = d by omega, show (d*16+e)%16 = e by omega, hla, hlb]

theorem utf8_eq (s : String) : utf8 s = s.toList.flatMap String.utf8EncodeChar := by
  rw [utf8, String.toUTF8, ← String.utf8Encode_toList, List.utf8Encode]
  simp

theorem not_isHexDigit {b : UInt8} (h : 0x80 ≤ b.toNat) : isHexDigit b = false := by
  simp only [isHexDigit, le_iff_toNat_le, reduceToNat, Bool.or_eq_false_iff,
    Bool.and_eq_false_iff, decide_eq_false_iff_not]
  omega

/-- A character is a digit when its bytes are, and then it is one byte. -/
theorem isHexChar_bytes (c : Char) :
    isHexChar c = (String.utf8EncodeChar c).all isHexDigit
      ∧ (isHexChar c = true → (String.utf8EncodeChar c).length = 1) := by
  by_cases hc : c.toNat ≤ 0x7f
  · have hone : String.utf8EncodeChar c = [ofNat c.toNat] := if_pos hc
    have hsmall : c.toNat % 256 = c.toNat := by omega
    simp [hone, isHexChar, isHexDigit, Char.le_def, UInt32.le_iff_toNat_le, le_iff_toNat_le, hsmall]
  · have hchar : isHexChar c = false := by
      simp [isHexChar, Char.le_def, UInt32.le_iff_toNat_le]
      omega
    have hfirst : ∃ b ∈ String.utf8EncodeChar c, isHexDigit b = false := by
      rw [String.utf8EncodeChar, if_neg (show ¬c.val.toNat ≤ 0x7f from hc)]
      split_ifs <;> refine ⟨_, List.mem_cons_self, not_isHexDigit ?_⟩ <;>
        rw [toNat_ofNat'] <;> omega
    obtain ⟨b, hb, hfalse⟩ := hfirst
    refine ⟨?_, fun h => absurd (h.symm.trans hchar) (by decide)⟩
    rw [hchar, eq_comm, List.all_eq_false]
    exact ⟨b, hb, by simp [hfalse]⟩

theorem isHexDigit_ascii {b : UInt8} (h : isHexDigit b = true) : b.toNat < 0x80 := by
  by_contra hlarge
  rw [not_isHexDigit (by omega)] at h
  exact Bool.noConfusion h

theorem encode_ascii {b : UInt8} (h : b.toNat < 0x80) :
    String.utf8EncodeChar (Char.ofNat b.toNat) = [b] := by
  have hval : (Char.ofNat b.toNat).toNat = b.toNat := by
    rw [Char.ofNat, dif_pos (show b.toNat.isValidChar from .inl (by omega))]
    rfl
  have hone : String.utf8EncodeChar (Char.ofNat b.toNat)
      = [ofNat (Char.ofNat b.toNat).toNat] :=
    if_pos (show (Char.ofNat b.toNat).toNat ≤ 0x7f by omega)
  rw [hone, hval, UInt8.ofNat_toNat]

/-- ASCII bytes are valid UTF-8, each the text of its own character. -/
theorem validate_ascii {bytes : List UInt8} (h : ∀ b ∈ bytes, b.toNat < 0x80) :
    bytes.toByteArray.validateUTF8 = true := by
  refine ByteArray.validateUTF8_eq_true_iff.2 ⟨bytes.map fun b => Char.ofNat b.toNat, ?_⟩
  rw [List.utf8Encode]
  congr 1
  induction bytes with
  | nil => rfl
  | cons b rest ih =>
    rw [List.map_cons, List.flatMap_cons, encode_ascii (h b List.mem_cons_self),
      ← ih fun x hx => h x (List.mem_cons_of_mem b hx)]
    rfl

/-- A text has `n` bytes, all digits, exactly when it has `n` characters, all digits. -/
theorem digits_iff (s : String) (n : Nat) :
    ((utf8 s).length = n ∧ ∀ b ∈ utf8 s, isHexDigit b = true) ↔
      s.toList.length = n ∧ ∀ c ∈ s.toList, isHexChar c = true := by
  rw [utf8_eq]
  generalize s.toList = chars
  have hall : (∀ b ∈ chars.flatMap String.utf8EncodeChar, isHexDigit b = true) ↔
      ∀ c ∈ chars, isHexChar c = true := by
    simp only [(isHexChar_bytes _).1, List.all_eq_true, List.mem_flatMap]
    grind
  rw [hall]
  refine and_congr_left fun hc => ?_
  suffices (chars.flatMap String.utf8EncodeChar).length = chars.length by rw [this]
  induction chars with
  | nil => rfl
  | cons c rest ih =>
    have hrest := ih (by simp at hall ⊢; grind) fun x hx => hc x (List.mem_cons_of_mem c hx)
    rw [List.flatMap_cons, List.length_append, (isHexChar_bytes c).2 (hc c List.mem_cons_self),
      hrest, List.length_cons, Nat.add_comm]

end Knowledge.Hex
