import PacketMemory.Overlay.Basic

/-!
# Sample overlays

One overlay for each way in which a check can come out: with no check, of fixed and of variable
size; a check of one byte; a check that reads beyond what the handle holds; and a type with an
argument. What it takes for each of them to be accepted is `World.Reachable.probe_marked` and
`World.Reachable.probe_in_words`.
-/

namespace PacketMemory

/-- Accept if the byte at an index has this value, and refuse with words otherwise. -/
def Check.marked (index value : Nat) (words : String) : Check :=
  .number .uint8 index fun byte => .insist (byte = value) words

namespace Overlay

/-- Two bytes of any value. -/
def pair : Overlay := ⟨"samples::Pair<'_>", 2, .accept⟩

/-- Everything, whatever it is. -/
def whole : Overlay := ⟨"samples::Whole<'_>", 0, .accept⟩

/-- One byte, which is zero. -/
def zeroLed : Overlay where
  typeName := "samples::ZeroLed<'_>"
  size := 1
  check := .marked 0 0 "first byte must be zero"

/-- Everything, behind the delimiter of a frame. -/
def framed : Overlay where
  typeName := "samples::Framed<'_>"
  size := 0
  check := .marked 0 0x7E "missing frame delimiter"

/-- Four bytes, the first of which says where in them a number is. -/
def indirect : Overlay where
  typeName := "samples::Indirect<'_>"
  size := 4
  check := .number .uint8 0 fun index => .number .uint16 index fun _ => .accept

/-- Three bytes with a tag behind them, for a type with an argument. -/
def tagged : Overlay where
  typeName := "samples::Tagged<u8>"
  size := 3
  check := .marked 2 0 "tag must be zero"

end Overlay

end PacketMemory
