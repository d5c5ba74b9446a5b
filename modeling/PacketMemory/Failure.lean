import PacketMemory.Capture.Time
import PacketMemory.Leak.Basic
import PacketMemory.Text.Utf8

/-!
# Failures

Every reason for which an operation is refused, and its wording. A failure is one of five
kinds. Two failures wrap a `Cause` that a collaborator gave, a text codec or the check of a
typed view; such a cause may itself be a failure of this library, which keeps its own text.
-/

namespace PacketMemory

/-- A call-site argument that is never right. -/
inductive IllegalArgument where
  /-- a capacity of zero -/
  | zeroCapacity
  /-- a capacity that no allocation can have -/
  | oversize (capacity : Nat)
  /-- a copy of nothing -/
  | emptyCopy
  /-- a view of variable size over memory that is not completely written -/
  | notFull (view : String) (written capacity : Nat)
  /-- a view of fixed size over too few written bytes -/
  | tooShort (view : String) (needed written : Nat)
  /-- a packet that is not exactly as long as its header says -/
  | notDumpable (writer captured : Nat)
  /-- a timestamp this many nanoseconds before the epoch -/
  | beforeEpoch (nanos : Nat)
  /-- a timestamp whose seconds need more than 32 bits -/
  | secondsRange
  /-- any other argument, in the words of the caller -/
  | other (text : String)
  deriving DecidableEq, Repr

/-- An index or a length that does not fit. -/
inductive OutOfBounds where
  /-- a range that ends behind the limit -/
  | range (index length limit : Nat)
  /-- a reader index behind the writer index -/
  | reader (index writer : Nat)
  /-- a writer index before the reader index or behind the capacity -/
  | writer (index reader capacity : Nat)
  /-- a pair of indices out of order or behind the capacity -/
  | indices (reader writer capacity : Nat)
  /-- more bytes than there are to read -/
  | unreadable (reader length writer : Nat)
  /-- more bytes than there is room for -/
  | unwritable (writer length capacity : Nat)
  /-- anything else, in the words of the caller -/
  | other (text : String)
  deriving DecidableEq, Repr

/-- An operation that this kind of handle does not have. -/
inductive IllegalState where
  /-- a slice cannot be closed -/
  | sliceClosed
  /-- anything else, in the words of the caller -/
  | other (text : String)
  deriving DecidableEq, Repr

mutual

/-- Why a collaborator refused. -/
inductive Cause where
  /-- in its own words -/
  | words (text : String)
  /-- the bytes are not UTF-8 -/
  | malformed (fault : Utf8.Malformed)
  /-- an operation of this library failed inside the collaborator -/
  | failure (failure : Failure)

/-- Why an operation is refused. -/
inductive Failure where
  | illegalArgument (why : IllegalArgument)
  | outOfBounds (why : OutOfBounds)
  /-- the memory has been released -/
  | memoryAccess
  /-- a leak was found -/
  | memoryLeak (leak : Leak)
  | illegalState (why : IllegalState)
  /-- a typed view does not accept the bytes -/
  | cast (view : String) (source : Cause)
  /-- a codec cannot convert a text -/
  | codec (name : String) (source : Cause)

end

deriving instance DecidableEq for Cause, Failure

/-- The coarse classification of failures. -/
inductive FailureKind where
  | illegalArgument
  | outOfBounds
  | memoryAccess
  | memoryLeak
  | illegalState
  deriving DecidableEq, Repr

/-! ## Wording -/

/-- The text of a bad argument. -/
def IllegalArgument.message : IllegalArgument → String
  | zeroCapacity => "capacity must be greater than zero"
  | oversize capacity =>
    "a packet buffer of " ++ toString capacity ++ " bytes exceeds the maximum allocation size"
  | emptyCopy => "cannot copy zero bytes"
  | notFull view written capacity =>
    "cannot cast to variable-size " ++ view ++ ": only " ++ toString written ++ " of " ++
      toString capacity ++ " bytes written"
  | tooShort view needed written =>
    "cannot cast to " ++ view ++ ": it needs " ++ toString needed ++ " bytes but only " ++
      toString written ++ " are written"
  | notDumpable writer captured =>
    "writer index " ++ toString writer ++ " does not match capture length " ++ toString captured
  | beforeEpoch nanos => "timestamp precedes the Unix epoch by " ++ describeDuration nanos
  | secondsRange =>
    "timestamp exceeds the range of 32-bit seconds: number too large to fit in target type"
  | other text => text

/-- The text of a bad index or length. -/
def OutOfBounds.message : OutOfBounds → String
  | range index length limit =>
    "index " ++ toString index ++ " with length " ++ toString length ++ " exceeds limit " ++
      toString limit
  | reader index w =>
    "reader index " ++ toString index ++ " exceeds writer index " ++ toString w
  | writer index r capacity =>
    "writer index " ++ toString index ++ " is outside of " ++ toString r ++ "..=" ++
      toString capacity
  | indices r w capacity =>
    "reader index " ++ toString r ++ " and writer index " ++ toString w ++
      " violate 0 <= reader <= writer <= " ++ toString capacity
  | unreadable r length w =>
    "reader index " ++ toString r ++ " with length " ++ toString length ++
      " exceeds writer index " ++ toString w
  | unwritable w length capacity =>
    "writer index " ++ toString w ++ " with length " ++ toString length ++
      " exceeds capacity " ++ toString capacity
  | other text => text

/-- The text of an operation on the wrong kind of handle. -/
def IllegalState.message : IllegalState → String
  | sliceClosed => "a slice does not own its memory and cannot be closed"
  | other text => text

mutual

/-- The text of a cause. -/
def Cause.message : Cause → String
  | .words text => text
  | .malformed fault => fault.message
  | .failure f => f.message

/-- The text of a failure. -/
def Failure.message : Failure → String
  | .illegalArgument why => "illegal argument: " ++ why.message
  | .outOfBounds why => "index out of bounds: " ++ why.message
  | .memoryAccess => "buffer memory has been released"
  | .memoryLeak leak => "memory leak: " ++ leak.describe
  | .illegalState why => "illegal state: " ++ why.message
  | .cast view source => "cannot cast buffer to " ++ view ++ ": " ++ source.message
  | .codec name source => "text codec '" ++ name ++ "' failed: " ++ source.message

end

/-- The kind of a failure; what a collaborator refused counts as a bad argument. -/
def Failure.kind : Failure → FailureKind
  | .illegalArgument _ | .cast _ _ | .codec _ _ => .illegalArgument
  | .outOfBounds _ => .outOfBounds
  | .memoryAccess => .memoryAccess
  | .memoryLeak _ => .memoryLeak
  | .illegalState _ => .illegalState

/-- The collaborator's reason inside a failure, if there is one. -/
def Failure.source : Failure → Option Cause
  | .cast _ source | .codec _ source => some source
  | _ => none

end PacketMemory
