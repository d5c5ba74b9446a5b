/-!
# Byte order

The order in which the bytes of a number lie in memory. A handle starts with the most
significant byte first.
-/

namespace PacketMemory

/-- Which end of a number comes first in memory. -/
inductive ByteOrder where
  /-- most significant byte first, the order of the network -/
  | big
  /-- least significant byte first -/
  | little
  deriving DecidableEq, Repr

namespace ByteOrder

/-- The order every new owner starts with. -/
instance : Inhabited ByteOrder := ⟨big⟩

/-- The order of the machine. -/
def native : ByteOrder := little

/-- The opposite order. -/
def opposite : ByteOrder → ByteOrder
  | big => little
  | little => big

/-- The order as it is spelled in descriptions of handles. -/
def describe : ByteOrder → String
  | big => "BigEndian"
  | little => "LittleEndian"

@[simp] theorem opposite_opposite (o : ByteOrder) : o.opposite.opposite = o := by
  cases o <;> rfl

end ByteOrder

end PacketMemory
