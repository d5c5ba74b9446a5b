import PacketMemory.Overlay.Basic
import PacketMemory.World.View

/-!
# Casts: overlays on handles

A cast checks how much is written, then takes a slice of the bytes that the overlay covers,
which needs the memory to be live, and then asks the overlay. Only an accepted slice becomes a
view or a record.
-/

namespace PacketMemory

namespace World

/-- Let an overlay decide about a view that has no handle yet. The answer is the view as the
overlay leaves it. -/
def acceptance (o : Overlay) (v : View) : Action World Cause View := fun w =>
  match w.viewPane? v with
  | none => (.trapped .misuse, w)
  | some p =>
    let r := o.check.run p
    (r.1.map fun _ => v.absorb r.2, w.setBlock v.root r.2.block)

/-- Lay a type with the name and the size of an overlay over the start of a handle. What becomes of
the bytes is up to `wrap`, which is handed a slice of them. -/
def castWith {α : Type} (h : Handle) (o : Overlay) (wrap : View → Action World Cause α) :
    Task α := do
  let p ← paneOf h
  let length ← Action.ofExcept (o.length p.cursor.writer p.capacity)
  let v ← slicing h 0 length
  (wrap v).mapError (Failure.cast o.name)

/-- Lay an overlay over the start of a handle. -/
def overlaid (h : Handle) (o : Overlay) : Task View := castWith h o (acceptance o)

/-- Lay an overlay over a handle and keep the view. -/
def lay (h : Handle) (o : Overlay) : Task Nat := do
  let v ← overlaid h o
  addView v

/-- Lay an overlay over a handle to see whether it is accepted. -/
def probe (h : Handle) (o : Overlay) : Task Unit := do
  let _ ← overlaid h o
  pure ()

end World

end PacketMemory
