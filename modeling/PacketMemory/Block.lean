import PacketMemory.Word

/-!
# Blocks of memory

The bytes an owner holds. A block starts as zeros and keeps its common start when it is
resized. `Block.read?` and `Block.write?` are the raw accesses: they answer nothing at all if a
byte outside of the block is touched.
-/

namespace PacketMemory

/-- A piece of memory. -/
abbrev Block : Type := List UInt8

namespace Block

/-- The largest block that can be allocated. -/
def largest : Nat := (1 <<< 63) - 1

/-- A new block. -/
def zeros (capacity : Nat) : Block := List.replicate capacity 0

/-- Move the bytes to a block of another size: the common start is kept, and added bytes are
zero. -/
def resize (b : Block) (capacity : Nat) : Block :=
  b.take capacity ++ List.replicate (capacity - b.length) 0

/-- The `length` bytes at `start`, if all of them are in the block. -/
def read? (b : Block) (start length : Nat) : Option (List UInt8) :=
  if start + length ≤ b.length then some ((b.drop start).take length) else none

/-- Put `bytes` at `start`, if all of them fall into the block. -/
def write? (b : Block) (start : Nat) (bytes : List UInt8) : Option Block :=
  if start + bytes.length ≤ b.length then
    some (b.take start ++ (bytes ++ b.drop (start + bytes.length)))
  else
    none

@[simp] theorem length_zeros (capacity : Nat) : (zeros capacity).length = capacity := by
  simp [zeros]

@[simp] theorem length_resize (b : Block) (capacity : Nat) :
    (b.resize capacity).length = capacity := by
  simp [resize]
  omega

theorem read?_eq_some {b : Block} {start length : Nat} (h : start + length ≤ b.length) :
    b.read? start length = some ((b.drop start).take length) := if_pos h

theorem write?_eq_some {b : Block} {start : Nat} {bytes : List UInt8}
    (h : start + bytes.length ≤ b.length) :
    b.write? start bytes =
      some (b.take start ++ (bytes ++ b.drop (start + bytes.length))) := if_pos h

end Block

end PacketMemory
