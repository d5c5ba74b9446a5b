import PacketMemory.World.Basic

/-!
# Descriptions of handles

One line per handle, with its indices and whether its memory was released. The description of a
record contains the one of its view.
-/

namespace PacketMemory

/-- A truth value as it stands in descriptions. -/
def describeFlag (b : Bool) : String := if b then "true" else "false"

/-- The part of the ownership as it stands in descriptions. -/
def ViewKind.describe : ViewKind → String
  | slice => "Slice"
  | duplicate => "Duplicate"

/-- The fields that every handle has. -/
def Pane.describe (p : Pane) : String :=
  "capacity: " ++ toString p.capacity ++
  ", reader_index: " ++ toString p.cursor.reader ++
  ", writer_index: " ++ toString p.cursor.writer ++
  ", byte_order: " ++ p.order.describe ++
  ", released: " ++ describeFlag (decide (¬p.Live)) ++ ", .."

/-- The description of an owner. -/
def Owner.describe (o : Owner) : String := "PacketBuffer \x7b " ++ o.pane.describe ++ " \x7d"

/-- The description of a view. -/
def View.describe (v : View) (root : Owner) : String :=
  "PacketView \x7b kind: " ++ v.kind.describe ++ ", offset: " ++ toString v.offset ++ ", " ++
    (v.pane root).describe ++ " \x7d"

namespace World

/-- The description of a handle. -/
def describe (h : Handle) : Task String := do
  let w ← Action.state
  match h with
  | .owner i => do
    let o ← ownerAt i
    pure o.describe
  | .view _ => do
    let v ← Action.expect .misuse (w.derived? h)
    let o ← ownerAt v.root
    pure (v.describe o)
  | .record _ => do
    let v ← Action.expect .misuse (w.derived? h)
    let o ← ownerAt v.root
    pure ("RecordHeader \x7b view: " ++ v.describe o ++ " \x7d")

end World

end PacketMemory
