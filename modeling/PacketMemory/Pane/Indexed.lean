import PacketMemory.Pane.Basic
import PacketMemory.Text.Codec

/-!
# Panes: access at an index

Numbers, truth values, bytes and text at an index that the caller names. The range has to lie in
the window; where the handle reads and writes has no influence and does not change.
-/

namespace PacketMemory

namespace Pane

/-- The `length` bytes at `index`. -/
def peekBytes (index length : Nat) : Task (List UInt8) := do
  checkRange index length
  fetch index length

/-- Overwrite the bytes at `index`. -/
def pokeBytes (index : Nat) (bytes : List UInt8) : Task Unit := do
  checkRange index bytes.length
  put index bytes

/-- Overwrite `length` bytes at `index` with zero. -/
def pokeZero (index length : Nat) : Task Unit := do
  checkRange index length
  put index (List.replicate length 0)

/-- The byte order of natural access, or the opposite one. -/
def effectiveOrder (reversed : Bool) : Task ByteOrder := do
  let p ← Action.state
  pure (if reversed then p.order.opposite else p.order)

/-- The scalar at `index`. -/
def peekScalar (type : ScalarType) (index : Nat) (reversed : Bool) : Task Scalar := do
  let order ← effectiveOrder reversed
  checkRange index type.size
  let bytes ← fetch index type.size
  pure (Scalar.ofBytes type order bytes)

/-- Write a scalar at `index`. -/
def pokeScalar (index : Nat) (value : Scalar) (reversed : Bool) : Task Unit := do
  let order ← effectiveOrder reversed
  checkRange index value.type.size
  put index (value.bytes order)

/-- The byte at `index` as a truth value; only zero is false. -/
def peekFlag (index : Nat) : Task Bool := do
  let byte ← peekScalar .uint8 index false
  pure (decide (byte.toNat ≠ 0))

/-- Write a truth value as one or zero. -/
def pokeFlag (index : Nat) (value : Bool) : Task Unit :=
  pokeScalar index (Scalar.ofByte (if value then 1 else 0)) false

/-- Find a byte in the half-open range between two bounds. The search starts at the first
bound, so it runs backwards from just below it if the bounds are in descending order. -/
def find (start stop : Nat) (value : UInt8) : Task (Option Nat) := do
  let low := min start stop
  let length := max start stop - low
  checkRange low length
  let bytes ← fetch low length
  let position :=
    if start ≤ stop then bytes.idxOf? value
    else (bytes.reverse.idxOf? value).map fun i => length - 1 - i
  match position with
  | none => pure none
  | some i => do
    let found ← Word.add i low
    pure (some found)

/-- The text of the `length` bytes at `index`. A length that is too large is out of bounds here, whatever it
is. A reader that puts memory aside for the bytes before it looks at the range traps at lengths above
`Block.largest`, for which nothing can be put aside; the exact bounds (`Call.Allocatable`) leave these
lengths out. -/
def peekText (index length : Nat) (codec : Codec) : Task String := do
  let bytes ← peekBytes index length
  Action.ofExcept ((codec.decode bytes).mapError (Failure.codec codec.name))

/-- The bytes of a text. -/
def encoded (text : String) (codec : Codec) : Task (List UInt8) :=
  Action.ofExcept ((codec.encode text).mapError (Failure.codec codec.name))

/-- Write a text at `index`; the answer is the number of its bytes. -/
def pokeText (index : Nat) (text : String) (codec : Codec) : Task Nat := do
  let bytes ← encoded text codec
  pokeBytes index bytes
  pure bytes.length

end Pane

end PacketMemory
