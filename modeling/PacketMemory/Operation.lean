import PacketMemory.Call
import PacketMemory.World.Capture
import PacketMemory.World.Describe
import PacketMemory.World.Watch

/-!
# Operations: what can be asked of the world

`Operation` lists everything a user of packet memory can do, with handles as arguments, and
`Operation.run` does it. A history is a list of operations; `World.after` is the world that it
leads to, in which later operations see whatever earlier ones left, failed or not.
-/

namespace PacketMemory

/-- A call on a record in memory. -/
inductive RecordCall where
  | timestamp
  | captured
  | wire
  | header
  | setTimestamp (value : Timestamp)
  | setCaptured (value : BitVec 32)
  | setWire (value : BitVec 32)
  deriving DecidableEq, Repr

/-- Something that can be done. Owners and detectors are given by number. -/
inductive Operation where
  | allocate (detector capacity : Nat)
  | allocateCopy (detector : Nat) (bytes : List UInt8)
  | resize (owner capacity : Nat)
  | release (handle : Handle)
  | close (handle : Handle)
  | drop (handle : Handle)
  | duplicate (handle : Handle)
  | slice (handle : Handle) (offset length : Nat)
  | sliceUnread (handle : Handle)
  | rootOf (handle : Handle)
  | copy (handle : Handle) (offset length : Nat)
  | copyUnread (handle : Handle)
  | lay (handle : Handle) (overlay : Overlay)
  | probe (handle : Handle) (overlay : Overlay)
  | layRecord (handle : Handle)
  | call (handle : Handle) (request : Call)
  | recordCall (record : Nat) (request : RecordCall)
  | writeRecord (handle : Handle) (header : CaptureInfo)
  | checkComplete (handle : Handle) (header : CaptureInfo)
  | sight (owner : Nat) (header : CaptureInfo)
  | keep (owner : Nat) (header : CaptureInfo)
  | copyBytes (source : Handle) (index : Nat) (target : Handle) (targetIndex length : Nat)
  | transfer (source target : Handle) (length : Nat)
  | exportBytes (handle : Handle)
  | sameContents (left right : Handle)
  | sameDetector (left right : Nat)
  | describe (handle : Handle)
  | outstanding (detector : Nat)
  | sweep (detector : Nat)
  | check (detector : Nat)
  | settings (detector : Nat)
  | configure (detector : Nat) (value : LeakSettings)

/-- What an operation answers. -/
inductive Reply where
  /-- what a call through one handle answers -/
  | answer (value : Answer)
  /-- a new handle, or the one asked for -/
  | handle (value : Handle)
  | timestamp (value : Timestamp)
  | word (value : BitVec 32)
  | header (value : CaptureInfo)
  | sighting (value : World.Sighting)
  | leaks (value : List Leak)
  | settings (value : LeakSettings)
  deriving DecidableEq, Repr

/-- Nothing but success. -/
def Reply.unit : Reply := .answer .unit

namespace RecordCall

/-- Perform a call on a record. -/
def run : RecordCall → Pane.Task Reply
  | timestamp => do pure (.timestamp (← CaptureRecord.timestamp))
  | captured => do pure (.word (← CaptureRecord.captured))
  | wire => do pure (.word (← CaptureRecord.wire))
  | header => do pure (.header (← CaptureRecord.header))
  | setTimestamp value => do CaptureRecord.setTimestamp value; pure .unit
  | setCaptured value => do CaptureRecord.setCaptured value; pure .unit
  | setWire value => do CaptureRecord.setWire value; pure .unit

end RecordCall

namespace Operation

/-- Do it. -/
def run : Operation → World.Task Reply
  | allocate d capacity => do pure (.handle (.owner (← World.allocate d capacity)))
  | allocateCopy d bytes => do pure (.handle (.owner (← World.allocateCopy d bytes)))
  | resize i capacity => do World.resize i capacity; pure .unit
  | release h => do pure (.answer (.flag (← World.release h)))
  | close h => do World.close h; pure .unit
  | drop h => do World.drop h; pure .unit
  | duplicate h => do pure (.handle (.view (← World.duplicate h)))
  | slice h offset length => do pure (.handle (.view (← World.slice h offset length)))
  | sliceUnread h => do pure (.handle (.view (← World.sliceUnread h)))
  | rootOf h => do pure (.handle (.owner (← World.rootOf h)))
  | copy h offset length => do pure (.handle (.owner (← World.copy h offset length)))
  | copyUnread h => do pure (.handle (.owner (← World.copyUnread h)))
  | lay h overlay => do pure (.handle (.view (← World.lay h overlay)))
  | probe h overlay => do World.probe h overlay; pure .unit
  | layRecord h => do pure (.handle (.record (← World.layRecord h)))
  | call h request => do pure (.answer (← World.through h request.run))
  | recordCall i request => World.through (.record i) request.run
  | writeRecord h header => do World.through h header.write; pure .unit
  | checkComplete h header => do World.through h header.checkComplete; pure .unit
  | sight i header => do pure (.sighting (← World.sight i header))
  | keep i header => do pure (.handle (.owner (← World.keep i header)))
  | copyBytes source index target targetIndex length => do
    World.copyBytes source index target targetIndex length
    pure .unit
  | transfer source target length => do World.transfer source target length; pure .unit
  | exportBytes h => do pure (.answer (.bytes (← World.exportBytes h)))
  | sameContents a b => do pure (.answer (.flag (← World.sameContents a b)))
  | sameDetector a b => do pure (.answer (.flag (← World.sameDetector a b)))
  | describe h => do pure (.answer (.text (← World.describe h)))
  | outstanding d => do pure (.answer (.count (← World.outstanding d)))
  | sweep d => do pure (.leaks (← World.sweep d))
  | check d => do pure (.answer (.count (← World.check d)))
  | settings d => do pure (.settings (← World.settings d))
  | configure d value => do World.configure d value; pure .unit

end Operation

/-- The world after a history, whatever each operation of it ended with. -/
def World.after (w : World) (history : List Operation) : World :=
  history.foldl (fun w op => (op.run w).2) w

@[simp] theorem World.after_nil (w : World) : w.after [] = w := rfl

@[simp] theorem World.after_cons (w : World) (op : Operation) (rest : List Operation) :
    w.after (op :: rest) = World.after (op.run w).2 rest := rfl

end PacketMemory
