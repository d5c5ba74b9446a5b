import PacketMemory.Capture.Header
import PacketMemory.World.Overlay
import PacketMemory.World.Transfer

/-!
# Capturing packets

The engine that captures packets lends each one to a handler, with its header. The handler sees
the readable bytes; to keep them beyond the call, it copies them.
-/

namespace PacketMemory

namespace World

/-- Lay a capture record over the start of a handle. -/
def layRecord (h : Handle) : Task Nat := do
  let v ← overlaid h CaptureRecord.overlay
  addRecord v

/-- What a handler sees of a packet. -/
structure Sighting where
  /-- what the engine recorded -/
  header : CaptureInfo
  /-- the number of readable bytes -/
  readable : Nat
  deriving DecidableEq, Repr

/-- Look at a packet. -/
def sight (i : Nat) (header : CaptureInfo) : Task Sighting := do
  let readable ← through (.owner i) Pane.readable
  pure ⟨header, readable⟩

/-- Keep a copy of a packet that is complete. -/
def keep (i : Nat) (header : CaptureInfo) : Task Nat := do
  through (.owner i) header.checkComplete
  copyUnread (.owner i)

end World

end PacketMemory
