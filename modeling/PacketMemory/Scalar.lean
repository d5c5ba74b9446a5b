import PacketMemory.ByteOrder

/-!
# Scalars: numbers of fixed width and their bytes

A scalar is a type together with as many bits as the type has; integers are held in two's
complement and floating point numbers by their bit pattern, so nothing is rounded and no
payload is lost.

* `digits w n` are the `w` base-256 digits of `n`, least significant first, and `ofDigits`
  reads them back.
* `Scalar.bytes` lays a scalar out in a byte order, `Scalar.ofBytes` reads one.
* `Scalar.store?` and `Scalar.load?` do the same at the start of a longer piece of memory and
  need room for the whole scalar.
-/

namespace PacketMemory

/-- The types of numbers that can be stored in packet memory. -/
inductive ScalarType where
  | int8 | uint8 | int16 | uint16 | int32 | uint32 | int64 | uint64 | float32 | float64
  deriving DecidableEq, Repr

/-- The number of bytes a scalar of this type takes. -/
def ScalarType.size : ScalarType → Nat
  | int8 | uint8 => 1
  | int16 | uint16 => 2
  | int32 | uint32 | float32 => 4
  | int64 | uint64 | float64 => 8

/-- A number and its type. -/
structure Scalar where
  /-- the type -/
  type : ScalarType
  /-- the bits, in two's complement or as a floating point pattern -/
  bits : BitVec (8 * type.size)
  deriving DecidableEq, Repr

/-! ## Base-256 digits -/

/-- The `w` lowest base-256 digits of a number, least significant first. -/
def digits : Nat → Nat → List UInt8
  | 0, _ => []
  | w + 1, n => UInt8.ofNat (n % 256) :: digits w (n / 256)

/-- The number with these base-256 digits, least significant first. -/
def ofDigits : List UInt8 → Nat
  | [] => 0
  | b :: bs => b.toNat + 256 * ofDigits bs

@[simp] theorem length_digits (w n : Nat) : (digits w n).length = w := by
  induction w generalizing n with
  | zero => rfl
  | succ w ih => simp [digits, ih]

/-! ## Layout -/

namespace Scalar

/-- The bytes of a scalar in memory. -/
def bytes (order : ByteOrder) (v : Scalar) : List UInt8 :=
  match order with
  | .little => digits v.type.size v.bits.toNat
  | .big => (digits v.type.size v.bits.toNat).reverse

/-- The scalar of type `t` that these bytes hold. -/
def ofBytes (t : ScalarType) (order : ByteOrder) (bs : List UInt8) : Scalar :=
  match order with
  | .little => ⟨t, BitVec.ofNat _ (ofDigits bs)⟩
  | .big => ⟨t, BitVec.ofNat _ (ofDigits bs.reverse)⟩

/-- Overwrite the start of `room` with a scalar, if the scalar fits. -/
def store? (order : ByteOrder) (v : Scalar) (room : List UInt8) : Option (List UInt8) :=
  if v.type.size ≤ room.length then
    some (v.bytes order ++ room.drop v.type.size)
  else
    none

/-- Read a scalar from the start of `bs`, if there are enough bytes. -/
def load? (t : ScalarType) (order : ByteOrder) (bs : List UInt8) : Option Scalar :=
  if t.size ≤ bs.length then
    some (ofBytes t order (bs.take t.size))
  else
    none

/-- The byte `b` as a scalar. -/
def ofByte (b : UInt8) : Scalar := ⟨.uint8, b.toBitVec⟩

/-- A 32-bit number as a scalar. -/
def ofWord (w : BitVec 32) : Scalar := ⟨.uint32, w⟩

/-- The value of an unsigned scalar. -/
def toNat (v : Scalar) : Nat := v.bits.toNat

@[simp] theorem length_bytes (order : ByteOrder) (v : Scalar) :
    (v.bytes order).length = v.type.size := by
  cases order <;> simp [bytes]

@[simp] theorem type_ofBytes (t : ScalarType) (order : ByteOrder) (bs : List UInt8) :
    (ofBytes t order bs).type = t := by
  cases order <;> rfl

theorem bytes_big (v : Scalar) : v.bytes .big = (v.bytes .little).reverse := rfl

end Scalar

end PacketMemory
