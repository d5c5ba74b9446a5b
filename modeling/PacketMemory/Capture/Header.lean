import PacketMemory.Capture.Time
import PacketMemory.Overlay.Basic

/-!
# Capture headers and records

A capture header says when a packet was captured, how many of its bytes were captured, and how
long it was on the wire. In a capture file it stands in front of the packet as a record of
sixteen bytes, four numbers of 32 bits in the byte order of the handle:

    0  seconds since the epoch
    4  microseconds
    8  captured length
    12 length on the wire

`CaptureInfo.write` appends a record, and `CaptureRecord` reads and changes the fields of one
in memory. The microseconds of a record are below one second when it is laid over memory, but
other handles may change them afterwards, so reading them relies on nothing.
-/

namespace PacketMemory

/-- What is known of a captured packet. -/
structure CaptureInfo where
  /-- when it was captured -/
  timestamp : Timestamp
  /-- how many bytes were captured -/
  captured : BitVec 32
  /-- how many bytes it had -/
  wire : BitVec 32
  deriving DecidableEq, Repr

/-- The seconds and microseconds of a timestamp that a record can hold. -/
def Timestamp.fields (t : Timestamp) : Except Failure (BitVec 32 × BitVec 32) :=
  if t.nanos < 0 then
    .error (.illegalArgument (.beforeEpoch (-t.nanos).toNat))
  else
    let seconds := t.seconds.toNat
    if seconds < secondsLimit then
      .ok (BitVec.ofNat 32 seconds, BitVec.ofNat 32 (t.subsecond / 1000))
    else
      .error (.illegalArgument .secondsRange)

namespace CaptureRecord

/-- The number of bytes of a record. -/
def size : Nat := 16

/-- Where the seconds are. -/
def secondsAt : Nat := 0

/-- Where the microseconds are. -/
def microsAt : Nat := 4

/-- Where the captured length is. -/
def capturedAt : Nat := 8

/-- Where the length on the wire is. -/
def wireAt : Nat := 12

/-- The field at an index. -/
def field (index : Nat) : Pane.Task (BitVec 32) := do
  let value ← Pane.peekScalar .uint32 index false
  pure (BitVec.ofNat 32 value.toNat)

/-- Change the field at an index. -/
def setField (index : Nat) (value : BitVec 32) : Pane.Task Unit :=
  Pane.pokeScalar index (Scalar.ofWord value) false

/-- When the packet was captured. -/
def timestamp : Pane.Task Timestamp := do
  let seconds ← field secondsAt
  let micros ← field microsAt
  pure (Timestamp.ofFields seconds.toNat micros.toNat)

/-- How many bytes were captured. -/
def captured : Pane.Task (BitVec 32) := field capturedAt

/-- How many bytes the packet had. -/
def wire : Pane.Task (BitVec 32) := field wireAt

/-- All fields. -/
def header : Pane.Task CaptureInfo := do
  let t ← timestamp
  let c ← captured
  let l ← wire
  pure ⟨t, c, l⟩

/-- Change when the packet was captured. -/
def setTimestamp (t : Timestamp) : Pane.Task Unit := do
  let (seconds, micros) ← Action.ofExcept t.fields
  setField secondsAt seconds
  setField microsAt micros

/-- Change how many bytes were captured. -/
def setCaptured (value : BitVec 32) : Pane.Task Unit := setField capturedAt value

/-- Change how many bytes the packet had. -/
def setWire (value : BitVec 32) : Pane.Task Unit := setField wireAt value

/-- Records as an overlay: the microseconds must not exceed a second. -/
def overlay : Overlay where
  typeName := "capture::RecordHeader<'_>"
  size := size
  check := .number .uint32 microsAt fun micros =>
    .insist (micros < microsPerSecond)
      ("timestamp microseconds " ++ toString micros ++ " exceed one second")

end CaptureRecord

namespace CaptureInfo

/-- Append the header as a record. The room for all of it is checked before anything is
written. -/
def write (header : CaptureInfo) : Pane.Task Unit := do
  let (seconds, micros) ← Action.ofExcept header.timestamp.fields
  Pane.checkWritable CaptureRecord.size
  Pane.appendScalar (Scalar.ofWord seconds) false
  Pane.appendScalar (Scalar.ofWord micros) false
  Pane.appendScalar (Scalar.ofWord header.captured) false
  Pane.appendScalar (Scalar.ofWord header.wire) false

/-- Refuse unless the written bytes are exactly the captured ones. -/
def checkComplete (header : CaptureInfo) : Pane.Task Unit := do
  let p ← Action.state
  Action.require (header.captured.toNat = p.cursor.writer)
    (.illegalArgument (.notDumpable p.cursor.writer header.captured.toNat))

end CaptureInfo

end PacketMemory
