/-!
# Leaks

An owner that goes away without being released has leaked its allocation. The memory is gone by
then, so its address and the place of its allocation serve only to find the culprit; both stand
in the description as placeholders.
-/

namespace PacketMemory

/-- An allocation that became unreachable without being released. -/
structure Leak where
  /-- the number of the allocation, in the order in which a detector saw them -/
  allocation : Nat
  /-- the capacity when the owner went away -/
  capacity : Nat
  /-- whether the place of the allocation was captured -/
  site : Bool
  deriving DecidableEq, Repr

namespace Leak

/-- The description in one line, without the place of the allocation. -/
def summary (leak : Leak) : String :=
  "buffer of " ++ toString leak.capacity ++ " bytes at ADDR was dropped without being released"

/-- The full description. -/
def describe (leak : Leak) : String :=
  if leak.site then leak.summary ++ "; allocated at:\nSITE" else leak.summary

end Leak

end PacketMemory
