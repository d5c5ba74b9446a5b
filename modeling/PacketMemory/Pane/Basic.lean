import PacketMemory.Block
import PacketMemory.Cursor
import PacketMemory.Scalar

/-!
# Panes: memory as one handle sees it

A handle sees a window of a block, which may be gone, through a cursor and a byte order of its
own. All access to packet memory happens on such a `Pane`; whose block it is, and which other
handles look at it, is the business of `World`.

* `checkLive`, `checkRange`, `readingAt`, `writingAt` are the checks: release first, then bounds.
* `fetch` and `put` are the raw accesses. They trap outside of the window or of the block, and
  `fetch_of_le` and `put_of_le` say what they do inside.
-/

namespace PacketMemory

/-- A window of a block with a cursor and a byte order. -/
structure Pane where
  /-- the whole block, unless it has been returned -/
  block : Option Block
  /-- whether the memory has been released -/
  released : Bool
  /-- where the window starts in the block -/
  offset : Nat
  /-- the size of the window -/
  capacity : Nat
  /-- where the handle reads and writes -/
  cursor : Cursor
  /-- the order of the bytes of numbers -/
  order : ByteOrder
  deriving DecidableEq, Repr

namespace Pane

/-- An operation on a pane. -/
abbrev Task (α : Type) : Type := Action Pane Failure α

/-- Work on the cursor of the pane. -/
def onCursor {α : Type} (m : Action Cursor Failure α) : Task α :=
  Action.within Pane.cursor (fun c p => { p with cursor := c }) m

/-- Change the byte order, released or not. -/
def setOrder (order : ByteOrder) : Task Unit :=
  Action.update fun p => { p with order := order }

/-! ## Checks -/

/-- The memory can be reached: it was not released, and the block is there. -/
def Live (p : Pane) : Prop := p.released = false ∧ p.block.isSome = true

instance (p : Pane) : Decidable p.Live := inferInstanceAs (Decidable (_ ∧ _))

/-- Refuse if the memory has been released. -/
def checkLive : Task Unit := do
  let p ← Action.state
  Action.require p.Live .memoryAccess

/-- Refuse unless `length` bytes at `index` lie in the window. -/
def checkRange (index length : Nat) : Task Unit := do
  checkLive
  let p ← Action.state
  let refusal : Task Unit := Action.fail (.outOfBounds (.range index length p.capacity))
  match Word.add? index length with
  | none => refusal
  | some stop => if stop ≤ p.capacity then pure () else refusal

/-- The reader, if `length` bytes are readable. -/
def readingAt (length : Nat) : Task Nat := do
  checkLive
  onCursor (Cursor.checkReadable length)
  let p ← Action.state
  pure p.cursor.reader

/-- The writer, if `length` bytes are writable. -/
def writingAt (length : Nat) : Task Nat := do
  checkLive
  let p ← Action.state
  onCursor (Cursor.checkWritable length p.capacity)
  pure p.cursor.writer

/-! ## Raw access -/

/-- The `length` bytes at `index`. -/
def fetch (index length : Nat) : Task (List UInt8) := do
  let p ← Action.state
  Action.assert (index + length ≤ p.capacity) .outsideMemory
  let block ← Action.expect .outsideMemory p.block
  Action.expect .outsideMemory (block.read? (p.offset + index) length)

/-- Overwrite the bytes at `index`. -/
def put (index : Nat) (bytes : List UInt8) : Task Unit := do
  let p ← Action.state
  Action.assert (index + bytes.length ≤ p.capacity) .outsideMemory
  let block ← Action.expect .outsideMemory p.block
  let block ← Action.expect .outsideMemory (block.write? (p.offset + index) bytes)
  Action.update fun p => { p with block := some block }

/-! ## How the checks come out -/

theorem checkLive_of_live {p : Pane} (h : p.Live) : checkLive p = (.done (), p) := by
  unfold checkLive
  rw [Action.state_bind_apply, Action.require_true h, Action.pure_apply]

theorem checkLive_of_not_live {p : Pane} (h : ¬p.Live) :
    checkLive p = (.failed .memoryAccess, p) := by
  unfold checkLive
  rw [Action.state_bind_apply, Action.require_false h, Action.fail_apply]

/-- Release is checked before bounds. -/
theorem checkRange_of_not_live {p : Pane} (h : ¬p.Live) (index length : Nat) :
    checkRange index length p = (.failed .memoryAccess, p) :=
  Action.bind_failed (checkLive_of_not_live h)

/-- A range that ends in the window passes. -/
theorem checkRange_of_le {p : Pane} (hl : p.Live) (hw : p.capacity < Word.limit) {index length : Nat}
    (h : index + length ≤ p.capacity) : checkRange index length p = (.done (), p) := by
  have hs : Word.add? index length = some (index + length) :=
    Word.add?_eq_some_iff.2 ⟨by omega, rfl⟩
  unfold checkRange
  rw [Action.bind_done (checkLive_of_live hl), Action.state_bind_apply]
  simp only [hs, if_pos h, Action.pure_apply]

/-- A range that ends behind the window is refused, and so is one whose end does not fit a
word. -/
theorem checkRange_of_lt {p : Pane} (hl : p.Live) {index length : Nat}
    (h : p.capacity < index + length) :
    checkRange index length p = (.failed (.outOfBounds (.range index length p.capacity)), p) := by
  unfold checkRange
  rw [Action.bind_done (checkLive_of_live hl), Action.state_bind_apply]
  rcases hs : Word.add? index length with _ | stop
  · rfl
  · obtain ⟨-, rfl⟩ := Word.add?_eq_some_iff.1 hs
    simp only [if_neg (Nat.not_le.2 h), Action.fail_apply]

/-- Within the window and the block, a raw read answers the bytes that are there. -/
theorem fetch_of_le {p : Pane} {block : Block} (hb : p.block = some block) {index length : Nat}
    (hc : index + length ≤ p.capacity) (hl : p.offset + p.capacity ≤ block.length) :
    fetch index length p = (.done ((block.drop (p.offset + index)).take length), p) := by
  have hr : block.read? (p.offset + index) length =
      some ((block.drop (p.offset + index)).take length) := Block.read?_eq_some (by omega)
  unfold fetch
  rw [Action.state_bind_apply, Action.assert_true hc, hb]
  simp only [Action.expect_some, pure_bind, hr, Action.pure_apply]

/-- Within the window and the block, a raw write replaces exactly the bytes it is given. -/
theorem put_of_le {p : Pane} {block : Block} (hb : p.block = some block) {index : Nat}
    {bytes : List UInt8} (hc : index + bytes.length ≤ p.capacity)
    (hl : p.offset + p.capacity ≤ block.length) :
    put index bytes p = (.done (), { p with block := some (block.take (p.offset + index) ++
      (bytes ++ block.drop (p.offset + index + bytes.length))) }) := by
  have hr : block.write? (p.offset + index) bytes = some (block.take (p.offset + index) ++
      (bytes ++ block.drop (p.offset + index + bytes.length))) :=
    Block.write?_eq_some (by omega)
  unfold put
  rw [Action.state_bind_apply, Action.assert_true hc, hb]
  simp only [Action.expect_some, pure_bind, hr, Action.update_apply]

end Pane

end PacketMemory
