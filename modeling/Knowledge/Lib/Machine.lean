import Mathlib.Algebra.Group.Nat.Defs
import Mathlib.Order.Basic

/-!
Bounds of the fixed-width integers the modelled code counts with. Counters are
natural numbers here; where the code saturates or refuses a value, it does so at
one of these bounds.
-/

set_option autoImplicit false

namespace Knowledge.Machine

def u64Max : Nat := 2^64-1

def usizeMax : Nat := 2^64-1

def i64Max : Nat := 2^63-1

/-- No Rust allocation is larger, so no `Vec` of a type with a size is longer. -/
def isizeMax : Nat := 2^63-1

/-- `u64::saturating_add(1)`. -/
def saturatingSucc (n : Nat) : Nat := min (n+1) u64Max

theorem saturatingSucc_of_lt {n : Nat} (h : n < u64Max) : saturatingSucc n = n+1 :=
  Nat.min_eq_left h

theorem le_saturatingSucc {n : Nat} (h : n ≤ u64Max) : n ≤ saturatingSucc n :=
  Nat.le_min.mpr ⟨Nat.le_succ n, h⟩

theorem saturatingSucc_le (n : Nat) : saturatingSucc n ≤ u64Max := Nat.min_le_right _ _

/-- The `width` low bytes of `n`, least significant first. -/
def toLeBytes : Nat → Nat → List UInt8
  | 0, _ => []
  | width+1, n => UInt8.ofNat n :: toLeBytes width (n/256)

def toBeBytes (width n : Nat) : List UInt8 := (toLeBytes width n).reverse

theorem length_toLeBytes (width n : Nat) : (toLeBytes width n).length = width := by
  induction width generalizing n with
  | zero => rfl
  | succ width ih => simp [toLeBytes, ih]

def ofLeBytes : List UInt8 → Nat
  | [] => 0
  | b :: bytes => b.toNat + 256 * ofLeBytes bytes

def ofBeBytes (bytes : List UInt8) : Nat := ofLeBytes bytes.reverse

/-- A number that fits into the width is read back from its bytes. -/
theorem ofLeBytes_toLeBytes {width n : Nat} (h : n < 256^width) :
    ofLeBytes (toLeBytes width n) = n := by
  induction width generalizing n with
  | zero =>
    rw [pow_zero] at h
    simp only [toLeBytes, ofLeBytes]
    omega
  | succ width ih =>
    rw [pow_succ] at h
    have hrest := ih (n := n/256) (by omega)
    simp only [toLeBytes, ofLeBytes, hrest, UInt8.toNat_ofNat']
    omega

theorem ofBeBytes_toBeBytes {width n : Nat} (h : n < 256^width) :
    ofBeBytes (toBeBytes width n) = n := by
  rw [ofBeBytes, toBeBytes, List.reverse_reverse, ofLeBytes_toLeBytes h]

theorem toLeBytes_ofLeBytes (bytes : List UInt8) :
    toLeBytes bytes.length (ofLeBytes bytes) = bytes := by
  induction bytes with
  | nil => rfl
  | cons b bytes ih =>
    have hb := b.toNat_lt
    have hlow : UInt8.ofNat (b.toNat+256*ofLeBytes bytes) = b := by
      apply UInt8.toNat_inj.mp
      rw [UInt8.toNat_ofNat']
      omega
    have hrest : (b.toNat+256*ofLeBytes bytes)/256 = ofLeBytes bytes := by omega
    simp only [List.length_cons, toLeBytes, ofLeBytes, hlow, hrest, ih]

/-- Bytes of the width are written back as they were read. -/
theorem toBeBytes_ofBeBytes {width : Nat} {bytes : List UInt8} (h : bytes.length = width) :
    toBeBytes width (ofBeBytes bytes) = bytes := by
  have hback := toLeBytes_ofLeBytes bytes.reverse
  rw [List.length_reverse, h] at hback
  rw [toBeBytes, ofBeBytes, hback, List.reverse_reverse]

@[simp] theorem length_toBeBytes (width n : Nat) : (toBeBytes width n).length = width := by
  rw [toBeBytes, List.length_reverse, length_toLeBytes]

theorem toLeBytes_injective {width a b : Nat} (ha : a < 256^width) (hb : b < 256^width)
    (h : toLeBytes width a = toLeBytes width b) : a = b := by
  rw [← ofLeBytes_toLeBytes ha, h, ofLeBytes_toLeBytes hb]

/-- `u32::to_be_bytes`. -/
def u32ToBe (x : UInt32) : List UInt8 :=
  [UInt8.ofNat (x.toNat/2^24), UInt8.ofNat (x.toNat/2^16), UInt8.ofNat (x.toNat/2^8),
    UInt8.ofNat x.toNat]

/-- `u32::from_be_bytes` of the first four bytes. -/
def u32OfBe : List UInt8 → UInt32
  | a :: b :: c :: d :: _ =>
    UInt32.ofNat (a.toNat*2^24+b.toNat*2^16+c.toNat*2^8+d.toNat)
  | _ => 0

/-- `u32::from_le_bytes` of the first four bytes. -/
def u32OfLe : List UInt8 → UInt32
  | a :: b :: c :: d :: _ =>
    UInt32.ofNat (d.toNat*2^24+c.toNat*2^16+b.toNat*2^8+a.toNat)
  | _ => 0

@[simp] theorem length_u32ToBe (x : UInt32) : (u32ToBe x).length = 4 := rfl

@[simp] theorem drop_u32ToBe (x : UInt32) (rest : List UInt8) (n : Nat) :
    (u32ToBe x ++ rest).drop (n+4) = rest.drop n := rfl

@[simp] theorem take_u32ToBe (x : UInt32) (rest : List UInt8) (n : Nat) :
    (u32ToBe x ++ rest).take (n+4) = u32ToBe x ++ rest.take n := rfl

@[simp] theorem u32OfBe_u32ToBe (x : UInt32) (rest : List UInt8) : u32OfBe (u32ToBe x ++ rest) = x := by
  have := x.toNat_lt
  apply UInt32.toNat_inj.mp
  simp only [u32ToBe, u32OfBe, List.cons_append, List.nil_append, UInt8.toNat_ofNat',
    UInt32.toNat_ofNat']
  omega

@[simp] theorem u32OfBe_u32ToBe_self (x : UInt32) : u32OfBe (u32ToBe x) = x := by
  simpa using u32OfBe_u32ToBe x []

theorem u32ToBe_u32OfBe {bytes : List UInt8} (h : 4 ≤ bytes.length) :
    u32ToBe (u32OfBe bytes) = bytes.take 4 := by
  match bytes, h with
  | a :: b :: c :: d :: rest, _ =>
    have ha := a.toNat_lt
    have hb := b.toNat_lt
    have hc := c.toNat_lt
    have hd := d.toNat_lt
    simp only [u32OfBe, u32ToBe, List.take_succ_cons, List.take_zero, List.cons.injEq, and_true,
      ← UInt8.toNat_inj, UInt8.toNat_ofNat', UInt32.toNat_ofNat']
    omega

/-- `u32::is_power_of_two`. -/
def isPowerOfTwo (x : UInt32) : Bool := x != 0 && (x &&& (x-1)) == 0

/-- A time in nanoseconds as a column of whole microseconds keeps it. -/
def wholeMicros (t : Int) : Int := t/1000*1000

@[simp] theorem wholeMicros_wholeMicros (t : Int) : wholeMicros (wholeMicros t) = wholeMicros t := by
  simp only [wholeMicros]
  omega

theorem wholeMicros_eq_self_iff {t : Int} : wholeMicros t = t ↔ t % 1000 = 0 := by
  simp only [wholeMicros]
  omega

end Knowledge.Machine
