import Mathlib.Algebra.BigOperators.Intervals
import Mathlib.Algebra.BigOperators.Ring.Finset
import Mathlib.Tactic.Ring
import PacketMemory.Proofs.Scalar

/-!
# Numbers as bytes

A scalar stands for an integer (`Scalar.value`): in two's complement if its type is signed, and for its
pattern if it is a floating point number. Its bytes are the base-256 notation of this integer modulo
the number of patterns, with the most or the least significant byte first
(`Scalar.ofDigits_bytes_little`, `Scalar.ofDigits_bytes_big`).

Storing and loading a scalar at the start of a longer piece of memory concerns the bytes that the
scalar takes, and no others. Main statement: `Scalar.encoding_bijective`.
-/

namespace PacketMemory

/-! ## Positional notation -/

/-- Each digit counts as much as its place says. -/
theorem ofDigits_eq_sum (bs : List UInt8) :
    ofDigits bs = ∑ k ∈ Finset.range bs.length, (bs.getD k 0).toNat * 256 ^ k := by
  induction bs with
  | nil => rfl
  | cons b bs ih =>
    rw [List.length_cons, Finset.sum_range_succ', ofDigits, ih, Finset.mul_sum, Nat.add_comm]
    congr 1
    · refine Finset.sum_congr rfl fun k _ => ?_
      rw [List.getD_cons_succ, Nat.pow_succ]
      ring
    · rw [List.getD_cons_zero, Nat.pow_zero, Nat.mul_one]

/-- The same digits, the most significant one first. -/
theorem ofDigits_reverse_eq_sum (bs : List UInt8) :
    ofDigits bs.reverse =
      ∑ k ∈ Finset.range bs.length, (bs.getD k 0).toNat * 256 ^ (bs.length - 1 - k) := by
  rw [ofDigits_eq_sum, List.length_reverse, ← Finset.sum_range_reflect]
  refine Finset.sum_congr rfl fun k hk => ?_
  have hk := Finset.mem_range.1 hk
  have hplace : bs.length - 1 - (bs.length - 1 - k) = k := by omega
  rw [List.getD_eq_getElem?_getD, List.getElem?_reverse (by omega), hplace,
    ← List.getD_eq_getElem?_getD]

/-! ## The integers that scalars stand for -/

/-- Numbers of this type are signed. -/
def ScalarType.isSigned : ScalarType → Bool
  | int8 | int16 | int32 | int64 => true
  | uint8 | uint16 | uint32 | uint64 | float32 | float64 => false

namespace Scalar

variable {order : ByteOrder} {t : ScalarType} {v : Scalar} {bs room : List UInt8}

/-- The integer that a scalar stands for; of a floating point number, its pattern. -/
def value (v : Scalar) : Int := if v.type.isSigned then v.bits.toInt else v.bits.toNat

/-- Whether the number is signed or not, its bits are its residue. -/
theorem value_emod (v : Scalar) : v.value % (2 ^ (8 * v.type.size) : Nat) = v.bits.toNat := by
  have hbits : (v.bits.toNat : Int) % (2 ^ (8 * v.type.size) : Nat) = v.bits.toNat := by
    rw [← Int.natCast_emod, Nat.mod_eq_of_lt v.bits.isLt]
  unfold value
  split
  · rw [BitVec.toInt_eq_toNat_bmod, Int.bmod_emod, hbits]
  · exact hbits

/-- The bytes of a scalar, read as an unsigned number with the least significant byte first. -/
theorem ofDigits_bytes_little (v : Scalar) :
    (ofDigits (v.bytes .little) : Int) = v.value % (2 ^ (8 * v.type.size) : Nat) := by
  rw [value_emod, bytes, ofDigits_digits, base_pow, Nat.mod_eq_of_lt v.bits.isLt]

/-- The bytes of a scalar, read as an unsigned number with the most significant byte first. -/
theorem ofDigits_bytes_big (v : Scalar) :
    (ofDigits (v.bytes .big).reverse : Int) = v.value % (2 ^ (8 * v.type.size) : Nat) := by
  rw [bytes_big, List.reverse_reverse, ofDigits_bytes_little]

/-! ## At the start of a longer piece of memory -/

theorem store?_of_le (h : v.type.size ≤ room.length) :
    store? order v room = some (v.bytes order ++ room.drop v.type.size) := if_pos h

/-- Whatever follows the bytes of a scalar, it is read back. -/
theorem load?_of_prefix (h : v.bytes order <+: bs) : load? v.type order bs = some v := by
  have hlen := h.length_le
  rw [length_bytes] at hlen
  have htake : bs.take v.type.size = v.bytes order := by
    rw [← length_bytes order v]
    exact (List.prefix_iff_eq_take.1 h).symm
  rw [load?, if_pos hlen, htake, ofBytes_bytes]

/-- Bytes of the right number are those of a scalar. -/
theorem exists_bytes_eq (order : ByteOrder) (h : bs.length = t.size) :
    ∃ bits, bytes order ⟨t, bits⟩ = bs := by
  obtain ⟨u, hu⟩ : ∃ u, u = ofBytes t order bs := ⟨_, rfl⟩
  have htype : u.type = t := by rw [hu, type_ofBytes]
  have hbytes : u.bytes order = bs := by rw [hu, bytes_ofBytes order h]
  obtain ⟨type, bits⟩ := u
  cases htype
  exact ⟨bits, hbytes⟩

/-- **Encoding and decoding are inverse to each other**, for every type and in both orders. A number
that is stored takes as many bytes at the start of what it is stored in as its type says and leaves
the rest alone, and it is what is loaded from any bytes that start with these. The other way round,
any bytes of this number are loaded as some number, which is stored as these bytes. In the one order
the bytes are those of the other order reversed, and they are the base-256 notation of the number
modulo the number of patterns. -/
theorem encoding_bijective (t : ScalarType) :
    (∀ (order : ByteOrder) (bits : BitVec (8 * t.size)) (room : List UInt8),
      t.size ≤ room.length →
      let v : Scalar := ⟨t, bits⟩
      ∃ room', store? order v room = some room' ∧ room'.length = room.length ∧
        room'.take t.size = v.bytes order ∧ room'.drop t.size = room.drop t.size ∧
        ∀ bs, room'.take t.size <+: bs → load? t order bs = some v) ∧
    (∀ (order : ByteOrder) (bs room : List UInt8), bs.length = t.size → t.size ≤ room.length →
      ∃ bits, load? t order bs = some ⟨t, bits⟩ ∧
        store? order ⟨t, bits⟩ room = some (bs ++ room.drop t.size)) ∧
    ∀ bits : BitVec (8 * t.size),
      let v : Scalar := ⟨t, bits⟩
      let residue := v.value % (2 ^ (8 * t.size) : Nat)
      v.bytes .big = (v.bytes .little).reverse ∧
      ((∑ k ∈ Finset.range t.size,
        ((v.bytes .big).getD k 0).toNat * 256 ^ (t.size - 1 - k) : Nat) : Int) = residue ∧
      ((∑ k ∈ Finset.range t.size,
        ((v.bytes .little).getD k 0).toNat * 256 ^ k : Nat) : Int) = residue := by
  refine ⟨fun order bits room hroom => ?_, fun order bs room hlen hroom => ?_, fun bits => ?_⟩
  · intro v
    have hsize : (v.bytes order).length = t.size := length_bytes order v
    have htake : (v.bytes order ++ room.drop t.size).take t.size = v.bytes order := by
      rw [← hsize, List.take_left]
    refine ⟨_, store?_of_le (v := v) hroom, ?_, htake, ?_, fun bs hbs => ?_⟩
    · rw [List.length_append, List.length_drop, hsize]
      show t.size + (room.length - t.size) = room.length
      omega
    · exact List.drop_left' hsize
    · rw [show room.drop v.type.size = room.drop t.size from rfl, htake] at hbs
      exact load?_of_prefix hbs
  · obtain ⟨bits, rfl⟩ := exists_bytes_eq order hlen
    have hload : load? t order (bytes order ⟨t, bits⟩) = some ⟨t, bits⟩ :=
      load?_of_prefix (v := ⟨t, bits⟩) (List.prefix_refl _)
    exact ⟨bits, hload, store?_of_le hroom⟩
  · intro v residue
    have hbig := ofDigits_reverse_eq_sum (v.bytes .big)
    have hlittle := ofDigits_eq_sum (v.bytes .little)
    rw [length_bytes] at hbig hlittle
    exact ⟨bytes_big v, by rw [← hbig]; exact ofDigits_bytes_big v,
      by rw [← hlittle]; exact ofDigits_bytes_little v⟩

/-- A negative number, stored before a third byte. It is what these two bytes are loaded as, whatever
follows, and the unsigned number that they make up is 65534. -/
theorem encoding_bijective_negative :
    let v : Scalar := ⟨.int16, BitVec.ofInt 16 (-2)⟩
    v.value = -2 ∧ store? .big v [1, 2, 3] = some [255, 254, 3] ∧
      load? .int16 .big [255, 254, 7] = some v ∧
      ((∑ k ∈ Finset.range 2, ((v.bytes .big).getD k 0).toNat * 256 ^ (1 - k) : Nat) : Int) =
        65534 := by
  intro v
  obtain ⟨hstore, -, hsum⟩ := encoding_bijective .int16
  have hvalue : v.value = -2 := by decide
  obtain ⟨room', hroom', -, htake, hdrop, hback⟩ :=
    hstore .big (BitVec.ofInt 16 (-2)) [1, 2, 3] (by decide)
  have hbytes : v.bytes .big = [255, 254] := by decide
  rw [hbytes] at htake
  refine ⟨hvalue, ?_, hback _ ?_, (hsum (BitVec.ofInt 16 (-2))).2.1⟩
  · rw [hroom', ← List.take_append_drop ScalarType.int16.size room', htake, hdrop]
    rfl
  · rw [htake]
    exact ⟨[7], rfl⟩

end Scalar

end PacketMemory
