import PacketMemory.World.View

/-!
# Between handles: copies, transfers, equality

Bytes move between handles as if they were first put aside, so it does not matter whether the
two handles alias each other. Of two handles the source is checked first.

A copy is a new owner from the same allocator. After its allocation nothing can go wrong any
more; if it did, the half-built owner would be dropped.
-/

namespace PacketMemory

namespace World

/-- Copy bytes at an index of one handle to an index of another one. -/
def copyBytes (source : Handle) (index : Nat) (target : Handle) (targetIndex length : Nat) :
    Task Unit := do
  through source (Pane.checkRange index length)
  through target (Pane.checkRange targetIndex length)
  let bytes ← through source (Pane.fetch index length)
  through target (Pane.put targetIndex bytes)

/-- Move readable bytes of one handle behind the written bytes of another one. -/
def transfer (source target : Handle) (length : Nat) : Task Unit := do
  let index ← through source (Pane.readingAt length)
  let targetIndex ← through target (Pane.writingAt length)
  copyBytes source index target targetIndex length
  through source (Pane.onCursor (Cursor.consume length))
  through target (Pane.onCursor (Cursor.produce length))

/-- Copy bytes into a new owner, all of them readable. -/
def copy (h : Handle) (offset length : Nat) : Task Nat := do
  through h Pane.checkLive
  Action.require (length ≠ 0) (.illegalArgument .emptyCopy)
  through h (Pane.checkRange offset length)
  let p ← paneOf h
  let o ← ownerAt (← rootOf h)
  let i ← allocate o.detector length
  let fill : Task Unit := do
    through (.owner i) (Pane.setOrder p.order)
    copyBytes h offset (.owner i) 0 length
    through (.owner i) (Pane.seekWriter length)
  Action.onFailure fill (dropOwner i)
  pure i

/-- Copy the readable bytes into a new owner. -/
def copyUnread (h : Handle) : Task Nat := do
  let p ← paneOf h
  let length ← through h Pane.readable
  copy h p.cursor.reader length

/-- A copy of the readable bytes that leaves packet memory and is measured. -/
def exportBytes (h : Handle) : Task (List UInt8) := do
  let bytes ← through h Pane.contents
  tell fun t => t.observeExport bytes.length
  pure bytes

/-- Whether two handles have the same readable bytes. Handles without readable bytes are equal
to nothing, and neither are released ones. -/
def sameContents (a b : Handle) : Task Bool := do
  let length ← through a Pane.readable
  let other ← through b Pane.readable
  if length = 0 ∨ length ≠ other then
    pure false
  else do
    let p ← paneOf a
    let q ← paneOf b
    let left ← Action.attempt (through a (Pane.checkRange p.cursor.reader length))
    let right ← Action.attempt (through b (Pane.checkRange q.cursor.reader length))
    match left, right with
    | .ok (), .ok () => do
      let xs ← through a (Pane.fetch p.cursor.reader length)
      let ys ← through b (Pane.fetch q.cursor.reader length)
      pure (xs == ys)
    | _, _ => pure false

/-- Whether the allocators of two owners report to the same detector. -/
def sameDetector (a b : Nat) : Task Bool := do
  let x ← ownerAt a
  let y ← ownerAt b
  pure (decide (x.detector = y.detector))

end World

end PacketMemory
