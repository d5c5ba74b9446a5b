import PacketMemory.Failure
import PacketMemory.Word

/-!
# Cursors

A handle reads and writes at two indices that cut its capacity into three parts, and remembers
one earlier position of each:

    discardable bytes | readable bytes | writable bytes
    0       ≤       reader    ≤     writer       ≤      capacity

The capacity belongs to the handle, so an operation that depends on it is told. An operation
that would break the order above is refused. The moves that follow a check of their own
(`consume`, `produce`, `compact`) do not repeat it; what they rely on is stated as a trap.
-/

namespace PacketMemory

/-- The reader and the writer index of a handle, and the mark of each. -/
structure Cursor where
  /-- the next byte to read -/
  reader : Nat
  /-- the next byte to write -/
  writer : Nat
  /-- the reader index to come back to -/
  markedReader : Nat
  /-- the writer index to come back to -/
  markedWriter : Nat
  deriving DecidableEq, Repr

namespace Cursor

/-- The cursor of an empty handle. -/
def empty : Cursor := ⟨0, 0, 0, 0⟩

/-- The cursor of a handle with `length` readable bytes. -/
def holding (length : Nat) : Cursor := ⟨0, length, 0, 0⟩

/-- Cut all indices and marks to a capacity. -/
def clampTo (c : Cursor) (capacity : Nat) : Cursor :=
  ⟨min c.reader capacity, min c.writer capacity, min c.markedReader capacity,
    min c.markedWriter capacity⟩

variable {ε : Type}

/-! ## Queries -/

/-- The number of bytes between the reader and the writer. -/
def readable : Action Cursor ε Nat := do
  let c ← Action.state
  Word.sub c.writer c.reader

/-- The number of bytes between the writer and the capacity. -/
def writable (capacity : Nat) : Action Cursor ε Nat := do
  let c ← Action.state
  Word.sub capacity c.writer

/-- Whether `length` bytes can be read. -/
def canRead (length : Nat) : Action Cursor ε Bool := do
  let room ← readable
  pure (decide (length ≤ room))

/-- Whether `length` bytes can be written. -/
def canWrite (length capacity : Nat) : Action Cursor ε Bool := do
  let room ← writable capacity
  pure (decide (length ≤ room))

/-- Refuse unless `length` bytes can be read. -/
def checkReadable (length : Nat) : Action Cursor Failure Unit := do
  let enough ← canRead length
  let c ← Action.state
  Action.require (enough = true) (.outOfBounds (.unreadable c.reader length c.writer))

/-- Refuse unless `length` bytes can be written. -/
def checkWritable (length capacity : Nat) : Action Cursor Failure Unit := do
  let enough ← canWrite length capacity
  let c ← Action.state
  Action.require (enough = true) (.outOfBounds (.unwritable c.writer length capacity))

/-! ## Moves -/

/-- Put the reader at an index up to the writer. -/
def seekReader (index : Nat) : Action Cursor Failure Unit := do
  let c ← Action.state
  Action.require (index ≤ c.writer) (.outOfBounds (.reader index c.writer))
  Action.update fun c => { c with reader := index }

/-- Put the writer at an index between the reader and the capacity. -/
def seekWriter (index capacity : Nat) : Action Cursor Failure Unit := do
  let c ← Action.state
  Action.require (c.reader ≤ index ∧ index ≤ capacity)
    (.outOfBounds (.writer index c.reader capacity))
  Action.update fun c => { c with writer := index }

/-- Put both, in any direction. -/
def seek (reader writer capacity : Nat) : Action Cursor Failure Unit := do
  Action.require (reader ≤ writer ∧ writer ≤ capacity)
    (.outOfBounds (.indices reader writer capacity))
  Action.update fun c => { c with reader := reader, writer := writer }

/-- Put both to the start; the marks stay. -/
def rewind : Action Cursor ε Unit :=
  Action.update fun c => { c with reader := 0, writer := 0 }

/-- Remember the reader. -/
def saveReader : Action Cursor ε Unit :=
  Action.update fun c => { c with markedReader := c.reader }

/-- Put the reader where it was remembered. -/
def recallReader : Action Cursor Failure Unit := do
  let c ← Action.state
  seekReader c.markedReader

/-- Remember the writer. -/
def saveWriter : Action Cursor ε Unit :=
  Action.update fun c => { c with markedWriter := c.writer }

/-- Put the writer where it was remembered. -/
def recallWriter (capacity : Nat) : Action Cursor Failure Unit := do
  let c ← Action.state
  seekWriter c.markedWriter capacity

/-- Move the reader over bytes that are known to be readable. -/
def consume (length : Nat) : Action Cursor ε Unit := do
  let enough ← canRead length
  Action.assert (enough = true) .assertion
  let c ← Action.state
  let reader ← Word.add c.reader length
  Action.update fun c => { c with reader := reader }

/-- Move the writer over bytes that are known to be writable. -/
def produce (length : Nat) : Action Cursor ε Unit := do
  let c ← Action.state
  let writer ← Word.add c.writer length
  Action.update fun c => { c with writer := writer }

/-- Move the reader over bytes without reading them. -/
def skip (length : Nat) : Action Cursor Failure Unit := do
  checkReadable length
  consume length

/-- Shift everything down by the reader index, as if the bytes before it were gone. A mark
that lies before the reader goes to the start. -/
def compact : Action Cursor ε Unit := do
  let c ← Action.state
  let writer ← Word.sub c.writer c.reader
  Action.update fun c =>
    ⟨0, writer, c.markedReader - c.reader, c.markedWriter - c.reader⟩

end Cursor

end PacketMemory
