import PacketMemory.Pane.Basic

/-!
# Panes: where a handle reads and writes

The operations of `Cursor`, on the cursor of a pane and with its capacity. Questions are
answered for released memory too, but everything that moves an index or relies on room for more
bytes needs the memory to be live.
-/

namespace PacketMemory

namespace Pane

/-- The number of readable bytes. -/
def readable : Task Nat := onCursor Cursor.readable

/-- The number of writable bytes. -/
def writable : Task Nat := do
  let p ← Action.state
  onCursor (Cursor.writable p.capacity)

/-- Whether `length` bytes are readable. -/
def canRead (length : Nat) : Task Bool := onCursor (Cursor.canRead length)

/-- Whether `length` bytes are writable. -/
def canWrite (length : Nat) : Task Bool := do
  let p ← Action.state
  onCursor (Cursor.canWrite length p.capacity)

/-- Put the reader at an index. -/
def seekReader (index : Nat) : Task Unit := do
  checkLive
  onCursor (Cursor.seekReader index)

/-- Put the writer at an index. -/
def seekWriter (index : Nat) : Task Unit := do
  checkLive
  let p ← Action.state
  onCursor (Cursor.seekWriter index p.capacity)

/-- Put both. -/
def seek (reader writer : Nat) : Task Unit := do
  checkLive
  let p ← Action.state
  onCursor (Cursor.seek reader writer p.capacity)

/-- Put both to the start. -/
def rewind : Task Unit := do
  checkLive
  onCursor Cursor.rewind

/-- Remember the reader. -/
def saveReader : Task Unit := do
  checkLive
  onCursor Cursor.saveReader

/-- Put the reader where it was remembered. -/
def recallReader : Task Unit := do
  checkLive
  onCursor Cursor.recallReader

/-- Remember the writer. -/
def saveWriter : Task Unit := do
  checkLive
  onCursor Cursor.saveWriter

/-- Put the writer where it was remembered. -/
def recallWriter : Task Unit := do
  checkLive
  let p ← Action.state
  onCursor (Cursor.recallWriter p.capacity)

/-- Refuse unless `length` bytes can be written. A handle never grows. -/
def checkWritable (length : Nat) : Task Unit := do
  checkLive
  let p ← Action.state
  onCursor (Cursor.checkWritable length p.capacity)

/-- Move the reader over bytes without reading them. -/
def skip (length : Nat) : Task Unit := do
  checkLive
  onCursor (Cursor.skip length)

/-- Move the readable bytes to the start and the cursor with them. -/
def compact : Task Unit := do
  checkLive
  let p ← Action.state
  if 0 < p.cursor.reader then
    let length ← readable
    let bytes ← fetch p.cursor.reader length
    put 0 bytes
  onCursor Cursor.compact

end Pane

end PacketMemory
