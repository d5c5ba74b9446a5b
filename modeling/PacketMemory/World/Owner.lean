import PacketMemory.World.Basic

/-!
# Owners: allocation, resizing, release

An allocation gets a block of zeros and is tracked by the detector of its allocator. It ends
in one of these ways.

* `release` and `close` return the block at once and forget the detector's record.
* A duplicate releases on behalf of the owner (`releaseShared`). No handle can reach the memory
  any more, but block and record stay until the owner itself is released or dropped.
* `dropOwner` returns the block, but without a release the record stays behind: a leak.
-/

namespace PacketMemory

namespace World

/-- Have a detector track an allocation. The leaks of a periodic sweep are announced. -/
def track (d capacity : Nat) : Task (Option Nat) := do
  let detector ← detectorAt d
  let tracking := detector.track capacity
  setDetector d tracking.detector
  tell fun t => t.announce tracking.found
  pure tracking.number

/-- Change what the detector knows of an owner, if it tracks it. -/
def amendTracking (o : Owner) (f : Detector → Nat → Detector) : Task Unit :=
  match o.tracker with
  | none => pure ()
  | some n => do
    let detector ← detectorAt o.detector
    setDetector o.detector (f detector n)

/-- Allocate an owner. -/
def allocate (d capacity : Nat) : Task Nat := do
  let _ ← detectorAt d
  Action.require (capacity ≠ 0) (.illegalArgument .zeroCapacity)
  Action.require (capacity ≤ Block.largest) (.illegalArgument (.oversize capacity))
  tell fun t => t.observeAllocation capacity
  let tracker ← track d capacity
  addOwner ⟨some (Block.zeros capacity), capacity, Cursor.empty, default, false, d, tracker, true⟩

/-- Return the memory of an owner and give up the owner. Without a release before, its record
stays with the detector. -/
def dropOwner (i : Nat) : Task Unit := do
  withoutViews i
  let o ← ownerAt i
  amendTracking o (if o.released then Detector.forget else Detector.abandon)
  Action.update fun w =>
    w.setOwner i { o with block := none, tracker := none, inUse := false }

/-- Allocate an owner that holds a copy of some bytes, all of them readable. -/
def allocateCopy (d : Nat) (bytes : List UInt8) : Task Nat := do
  let i ← allocate d bytes.length
  Action.onFailure (through (.owner i) (Pane.appendBytes bytes)) (dropOwner i)
  pure i

/-- Change the capacity of an owner. -/
def resize (i capacity : Nat) : Task Unit := do
  withoutViews i
  let o ← ownerAt i
  Action.require (capacity ≠ 0) (.illegalArgument .zeroCapacity)
  Action.require o.pane.Live .memoryAccess
  Action.require (capacity ≤ Block.largest) (.illegalArgument (.oversize capacity))
  amendTracking o fun d n => d.resize n capacity
  Action.update fun w => w.setOwner i { o with
    block := o.block.map fun b => b.resize capacity
    capacity := capacity
    cursor := o.cursor.clampTo capacity }
  tell fun t => t.publish (.reallocated o.capacity capacity)

/-- Release the memory of an owner; the answer says whether it was this call that did. -/
def releaseOwner (i : Nat) : Task Bool := do
  withoutViews i
  let o ← ownerAt i
  amendTracking o Detector.forget
  Action.update fun w => w.setOwner i { o with released := true, block := none, tracker := none }
  pure (!o.released && o.block.isSome)

/-- Release the memory of an owner and give up the owner. -/
def closeOwner (i : Nat) : Task Unit := do
  let _ ← releaseOwner i
  dropOwner i

/-- Release the memory of an owner on behalf of a duplicate. -/
def releaseShared (i : Nat) : Task Bool := do
  let o ← ownerAt i
  Action.update fun w => w.setOwner i { o with released := true }
  pure (!o.released && o.block.isSome)

end World

end PacketMemory
