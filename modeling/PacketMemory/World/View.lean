import PacketMemory.World.Owner

/-!
# Views: duplicates and slices

Views are derived from owners and from other views, and always refer to the owner: slicing a
slice adds the offsets up. A duplicate starts where its source stands, a slice starts with all
of its bytes readable, and both inherit the byte order.
-/

namespace PacketMemory

namespace World

/-- What a handle can derive views from: its own view of the owner, or for the owner itself
the view of everything. -/
def basis (h : Handle) : Task View := do
  let w ← Action.state
  match h with
  | .owner i => do
    let o ← ownerAt i
    pure ⟨i, 0, o.capacity, o.cursor, o.order, .duplicate⟩
  | .view _ => Action.expect .misuse (w.derived? h)
  | .record _ => Action.trap .misuse

/-- A slice of what a handle sees. -/
def slicing (h : Handle) (offset length : Nat) : Task View := do
  let source ← basis h
  through h (Pane.checkRange offset length)
  let start ← Word.add source.offset offset
  pure ⟨source.root, start, length, Cursor.holding length, source.order, .slice⟩

/-- Derive a view of the same window, which shares the ownership if its source does. -/
def duplicate (h : Handle) : Task Nat := do
  let source ← basis h
  addView source

/-- Derive a view of `length` bytes at `offset`. -/
def slice (h : Handle) (offset length : Nat) : Task Nat := do
  let v ← slicing h offset length
  addView v

/-- Derive a view of the readable bytes. -/
def sliceUnread (h : Handle) : Task Nat := do
  let length ← through h Pane.readable
  let p ← paneOf h
  slice h p.cursor.reader length

/-- The owner that a handle leads to. -/
def rootOf (h : Handle) : Task Nat := do
  let w ← Action.state
  Action.expect .misuse (w.root? h)

/-- Release what a handle has a part in; the answer says whether it was this call that did. A
slice has none. -/
def release : Handle → Task Bool
  | .owner i => releaseOwner i
  | .view i => do
    let v ← viewAt i
    match v.kind with
    | .slice => pure false
    | .duplicate => releaseShared v.root
  | .record _ => Action.trap .misuse

/-- Give up a handle without releasing anything. -/
def drop : Handle → Task Unit
  | .owner i => dropOwner i
  | .view i => do
    let _ ← viewAt i
    Action.update fun w => w.setView i none
  | .record i => do
    let w ← Action.state
    let _ ← Action.expect .misuse (w.record? i)
    Action.update fun w => w.setRecord i none

/-- Release what a handle has a part in and give it up. A slice is given up as well, but this
counts as a failure. -/
def close : Handle → Task Unit
  | .owner i => closeOwner i
  | .view i => do
    let v ← viewAt i
    match v.kind with
    | .slice => do
      drop (.view i)
      Action.fail (.illegalState .sliceClosed)
    | .duplicate => do
      let _ ← releaseShared v.root
      drop (.view i)
  | .record _ => Action.trap .misuse

end World

end PacketMemory
