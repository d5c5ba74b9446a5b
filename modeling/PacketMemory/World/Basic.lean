import PacketMemory.Leak.Detector
import PacketMemory.Pane.Relative
import PacketMemory.Telemetry

/-!
# The world: owners, views, records, detectors

Everything that exists, in tables that only grow, so that a number once handed out stands for
the same thing for good and freshness is free.

* An `Owner` holds a block. It is in use until it is closed or dropped; its entry stays.
* A `View` aliases a window of an owner's block: a *slice* has no part in the ownership, a
  *duplicate* shares it. A record is a view that a capture record header was laid over; it has
  a table of its own. A view that was dropped leaves a hole.
* A detector watches the owners that were allocated with it.

`World.through` performs a `Pane` task through a handle: the handle's cursor and byte order
and the owner's block are put together into a pane, and what the task leaves there is stored
where it came from. This is where views of one owner alias each other.
-/

namespace PacketMemory

/-- What holds a block. -/
structure Owner where
  /-- the memory, until the owner returns it -/
  block : Option Block
  /-- the size of the block, also after it was returned -/
  capacity : Nat
  /-- where the owner reads and writes -/
  cursor : Cursor
  /-- the order of the bytes of numbers -/
  order : ByteOrder
  /-- whether the memory was released, by the owner or by a duplicate -/
  released : Bool
  /-- the detector that watches the allocations of this owner's allocator -/
  detector : Nat
  /-- the number under which that detector tracks the owner, if it does -/
  tracker : Option Nat
  /-- whether the owner was neither closed nor dropped -/
  inUse : Bool
  deriving DecidableEq, Repr

/-- What part a view has in the ownership. -/
inductive ViewKind where
  /-- none -/
  | slice
  /-- it can release the memory for everyone -/
  | duplicate
  deriving DecidableEq, Repr

/-- What aliases a window of a block. -/
structure View where
  /-- the owner of the block -/
  root : Nat
  /-- where the window starts in the block -/
  offset : Nat
  /-- the size of the window -/
  capacity : Nat
  /-- where the view reads and writes -/
  cursor : Cursor
  /-- the order of the bytes of numbers -/
  order : ByteOrder
  /-- its part in the ownership -/
  kind : ViewKind
  deriving DecidableEq, Repr

/-- The name of something through which memory can be reached. -/
inductive Handle where
  | owner (number : Nat)
  | view (number : Nat)
  | record (number : Nat)
  deriving DecidableEq, Repr

/-- Everything that exists. -/
structure World where
  /-- all owners ever allocated -/
  owners : List Owner
  /-- all views ever derived -/
  views : List (Option View)
  /-- all record headers ever laid over memory -/
  records : List (Option View)
  /-- all detectors -/
  detectors : List Detector
  /-- what an observer was told -/
  telemetry : Telemetry
  deriving DecidableEq, Repr

/-! ## Panes of handles -/

/-- What an owner sees. -/
def Owner.pane (o : Owner) : Pane := ⟨o.block, o.released, 0, o.capacity, o.cursor, o.order⟩

/-- The owner after work on its pane. -/
def Owner.absorb (o : Owner) (p : Pane) : Owner :=
  { o with block := p.block, cursor := p.cursor, order := p.order }

/-- What a view of this owner sees. -/
def View.pane (v : View) (root : Owner) : Pane :=
  ⟨root.block, root.released, v.offset, v.capacity, v.cursor, v.order⟩

/-- The view after work on its pane. -/
def View.absorb (v : View) (p : Pane) : View := { v with cursor := p.cursor, order := p.order }

namespace World

/-- An operation on the world. -/
abbrev Task (α : Type) : Type := Action World Failure α

/-- A world with nothing but detectors. -/
def start (settings : List LeakSettings) : World :=
  ⟨[], [], [], settings.map Detector.start, Telemetry.start⟩

/-! ## Look-up -/

/-- The owner of this number, unless it was closed or dropped. -/
def owner? (w : World) (i : Nat) : Option Owner :=
  w.owners[i]?.filter fun o => o.inUse

/-- The view of this number, unless it was closed or dropped. -/
def view? (w : World) (i : Nat) : Option View := w.views[i]?.join

/-- The record of this number, unless it was dropped. -/
def record? (w : World) (i : Nat) : Option View := w.records[i]?.join

/-- The view behind a handle that is not an owner. -/
def derived? (w : World) : Handle → Option View
  | .owner _ => none
  | .view i => w.view? i
  | .record i => w.record? i

/-- The number of the owner behind a handle. -/
def root? (w : World) : Handle → Option Nat
  | .owner i => (w.owner? i).map fun _ => i
  | h => (w.derived? h).map View.root

/-- What a view sees. -/
def viewPane? (w : World) (v : View) : Option Pane := (w.owner? v.root).map v.pane

/-- What a handle sees. -/
def pane? (w : World) : Handle → Option Pane
  | .owner i => (w.owner? i).map Owner.pane
  | h => (w.derived? h).bind w.viewPane?

/-- Whether a view or a record of this owner exists. -/
def hasViews (w : World) (i : Nat) : Bool :=
  (w.views ++ w.records).any fun slot => slot.any fun v => decide (v.root = i)

/-! ## Storing -/

/-- Replace an owner. -/
def setOwner (w : World) (i : Nat) (o : Owner) : World := { w with owners := w.owners.set i o }

/-- Replace the block of an owner. -/
def setBlock (w : World) (i : Nat) (block : Option Block) : World :=
  match w.owner? i with
  | none => w
  | some o => w.setOwner i { o with block := block }

/-- Replace or remove a view. -/
def setView (w : World) (i : Nat) (v : Option View) : World := { w with views := w.views.set i v }

/-- Replace or remove a record. -/
def setRecord (w : World) (i : Nat) (v : Option View) : World :=
  { w with records := w.records.set i v }

/-- Store what work on the pane of a handle left there. -/
def store (w : World) (h : Handle) (p : Pane) : World :=
  match h with
  | .owner i =>
    match w.owner? i with
    | none => w
    | some o => w.setOwner i (o.absorb p)
  | .view i =>
    match w.view? i with
    | none => w
    | some v => (w.setBlock v.root p.block).setView i (some (v.absorb p))
  | .record i =>
    match w.record? i with
    | none => w
    | some v => (w.setBlock v.root p.block).setRecord i (some (v.absorb p))

/-! ## Tasks -/

/-- The owner of this number, which has to exist. -/
def ownerAt (i : Nat) : Task Owner := do
  let w ← Action.state
  Action.expect .misuse (w.owner? i)

/-- The view of this number, which has to exist. -/
def viewAt (i : Nat) : Task View := do
  let w ← Action.state
  Action.expect .misuse (w.view? i)

/-- What a handle sees; the handle has to exist. -/
def paneOf (h : Handle) : Task Pane := do
  let w ← Action.state
  Action.expect .misuse (w.pane? h)

/-- The detector of this number, which has to exist. -/
def detectorAt (d : Nat) : Task Detector := do
  let w ← Action.state
  Action.expect .misuse w.detectors[d]?

/-- Perform a task on the pane of a handle. -/
def through {α : Type} (h : Handle) (m : Pane.Task α) : Task α := fun w =>
  match w.pane? h with
  | none => (.trapped .misuse, w)
  | some p =>
    let r := m p
    (r.1, w.store h r.2)

/-- Replace a detector. -/
def setDetector (d : Nat) (detector : Detector) : Task Unit :=
  Action.update fun w => { w with detectors := w.detectors.set d detector }

/-- Tell the observer something. -/
def tell (f : Telemetry → Telemetry) : Task Unit :=
  Action.update fun w => { w with telemetry := f w.telemetry }

/-- Add an owner. -/
def addOwner (o : Owner) : Task Nat := do
  let w ← Action.state
  Action.update fun w => { w with owners := w.owners ++ [o] }
  pure w.owners.length

/-- Add a view. -/
def addView (v : View) : Task Nat := do
  let w ← Action.state
  Action.update fun w => { w with views := w.views ++ [some v] }
  pure w.views.length

/-- Add a record. -/
def addRecord (v : View) : Task Nat := do
  let w ← Action.state
  Action.update fun w => { w with records := w.records ++ [some v] }
  pure w.records.length

/-- Stop if views of this owner exist. They rely on its block staying where it is. -/
def withoutViews (i : Nat) : Task Unit := do
  let w ← Action.state
  Action.assert (w.hasViews i = false) .misuse

end World

end PacketMemory
