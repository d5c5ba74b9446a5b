import PacketMemory.Pane.Indexed
import PacketMemory.Pane.Position

/-!
# Panes: access at the cursor

Reads take the bytes behind the reader, as far as they are written, and move the reader over
them. Writes go behind the written bytes, as far as there is room, and move the writer. Each
checks the cursor first and then goes through access at an index.
-/

namespace PacketMemory

namespace Pane

/-- Read bytes. -/
def readBytes (length : Nat) : Task (List UInt8) := do
  let index ← readingAt length
  let bytes ← peekBytes index length
  onCursor (Cursor.consume length)
  pure bytes

/-- Append bytes. -/
def appendBytes (bytes : List UInt8) : Task Unit := do
  let index ← writingAt bytes.length
  pokeBytes index bytes
  onCursor (Cursor.produce bytes.length)

/-- Append zeros. -/
def appendZero (length : Nat) : Task Unit := do
  let index ← writingAt length
  pokeZero index length
  onCursor (Cursor.produce length)

/-- Read a scalar. -/
def readScalar (type : ScalarType) (reversed : Bool) : Task Scalar := do
  let index ← readingAt type.size
  let value ← peekScalar type index reversed
  onCursor (Cursor.consume type.size)
  pure value

/-- Append a scalar. -/
def appendScalar (value : Scalar) (reversed : Bool) : Task Unit := do
  let index ← writingAt value.type.size
  pokeScalar index value reversed
  onCursor (Cursor.produce value.type.size)

/-- Read a truth value. -/
def readFlag : Task Bool := do
  let byte ← readScalar .uint8 false
  pure (decide (byte.toNat ≠ 0))

/-- Append a truth value. -/
def appendFlag (value : Bool) : Task Unit :=
  appendScalar (Scalar.ofByte (if value then 1 else 0)) false

/-- Read a text of `length` bytes. -/
def readText (length : Nat) (codec : Codec) : Task String := do
  let index ← readingAt length
  let text ← peekText index length codec
  onCursor (Cursor.consume length)
  pure text

/-- Append a text; the answer is the number of its bytes. -/
def appendText (text : String) (codec : Codec) : Task Nat := do
  let bytes ← encoded text codec
  appendBytes bytes
  pure bytes.length

/-- The readable bytes, which stay unread. -/
def contents : Task (List UInt8) := do
  let length ← readable
  let p ← Action.state
  peekBytes p.cursor.reader length

end Pane

end PacketMemory
