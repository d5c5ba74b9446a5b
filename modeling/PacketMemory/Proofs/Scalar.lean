import Mathlib.Algebra.Group.Nat.Defs
import PacketMemory.Scalar

/-!
# Scalars and their bytes, back and forth

A number that is small enough is read back from its digits (`ofDigits_digits`), and digits from their
number (`digits_ofDigits`). So in either byte order, laying a scalar out and reading it are inverse to
each other: a scalar is read back bit for bit (`Scalar.ofBytes_bytes`), and bytes that were read as a
scalar are the bytes of it (`Scalar.bytes_ofBytes`).
-/

namespace PacketMemory

/-! ## Numbers and their digits -/

theorem ofDigits_digits (w n : Nat) : ofDigits (digits w n) = n % 256 ^ w := by
  induction w generalizing n with
  | zero => simp [digits, ofDigits, Nat.mod_one]
  | succ w ih =>
    rw [digits, ofDigits, ih, Nat.pow_succ', Nat.mod_mul]
    simp

theorem digits_ofDigits (bs : List UInt8) : digits bs.length (ofDigits bs) = bs := by
  induction bs with
  | nil => rfl
  | cons b bs ih =>
    have hb : b.toNat < 256 := b.toNat_lt
    have hd : (b.toNat + 256 * ofDigits bs) / 256 = ofDigits bs := by omega
    have hm : (b.toNat + 256 * ofDigits bs) % 256 = b.toNat := by omega
    rw [List.length_cons, ofDigits, digits, hd, hm, ih, UInt8.ofNat_toNat]

theorem ofDigits_lt (bs : List UInt8) : ofDigits bs < 256 ^ bs.length := by
  induction bs with
  | nil => simp [ofDigits]
  | cons b bs ih =>
    have hb : b.toNat < 256 := b.toNat_lt
    rw [ofDigits, List.length_cons, Nat.pow_succ]
    omega

/-! ## Scalars and their bytes -/

namespace Scalar

variable {order : ByteOrder} {t : ScalarType} {bs : List UInt8}

/-- The digits of a scalar have as many values as its bits. -/
theorem base_pow (w : Nat) : 256 ^ w = 2 ^ (8 * w) := by
  rw [Nat.pow_mul]

/-- Bits, written as digits, are read back. -/
theorem ofDigits_digits_bits (w : Nat) (bits : BitVec (8 * w)) :
    BitVec.ofNat (8 * w) (ofDigits (digits w bits.toNat)) = bits := by
  rw [ofDigits_digits, base_pow, Nat.mod_eq_of_lt bits.isLt, BitVec.ofNat_toNat,
    BitVec.setWidth_eq]

/-- Digits, read as bits, are written back. -/
theorem digits_bits_ofDigits {w : Nat} (h : bs.length = w) :
    digits w (BitVec.ofNat (8 * w) (ofDigits bs)).toNat = bs := by
  subst h
  rw [BitVec.toNat_ofNat, ← base_pow, Nat.mod_eq_of_lt (ofDigits_lt bs), digits_ofDigits]

/-- **A scalar is read back from its bytes**, whatever its bits are. -/
theorem ofBytes_bytes (order : ByteOrder) (v : Scalar) :
    ofBytes v.type order (v.bytes order) = v := by
  cases order with
  | big => simp only [ofBytes, bytes, List.reverse_reverse, ofDigits_digits_bits]
  | little => simp only [ofBytes, bytes, ofDigits_digits_bits]

/-- **Bytes that were read as a scalar are its bytes.** -/
theorem bytes_ofBytes (order : ByteOrder) (h : bs.length = t.size) :
    (ofBytes t order bs).bytes order = bs := by
  cases order with
  | big =>
    have hr : bs.reverse.length = t.size := by rw [List.length_reverse, h]
    simp only [ofBytes, bytes, digits_bits_ofDigits hr, List.reverse_reverse]
  | little => simp only [ofBytes, bytes, digits_bits_ofDigits h]

theorem length_bytes_ofWord (order : ByteOrder) (word : BitVec 32) :
    ((ofWord word).bytes order).length = 4 :=
  length_bytes order (ofWord word)

/-- A number of 32 bits is read back from its scalar. -/
theorem ofNat_toNat_ofWord (word : BitVec 32) : BitVec.ofNat 32 (ofWord word).toNat = word :=
  (BitVec.ofNat_toNat 32 word).trans (BitVec.setWidth_eq word)

theorem ofWord_ofNat_toNat {v : Scalar} (h : v.type = .uint32) :
    ofWord (BitVec.ofNat 32 v.toNat) = v := by
  obtain ⟨t, bits⟩ := v
  simp only at h
  subst h
  exact congrArg ofWord (ofNat_toNat_ofWord bits)

/-- A single byte is the same in both orders. -/
theorem bytes_ofByte (order : ByteOrder) (b : UInt8) : (ofByte b).bytes order = [b] := by
  have hdigits : digits 1 b.toBitVec.toNat = [b] := digits_ofDigits [b]
  cases order with
  | big => exact congrArg List.reverse hdigits
  | little => exact hdigits

end Scalar

end PacketMemory
