import PacketMemory.Call
import PacketMemory.Overlay.TypeName

/-!
# Overlays: typed views on packet memory

An overlay lays a type over the written bytes at the start of a handle. A size of zero stands
for a view of variable size, which covers a whole handle and asks for all of it to be written.

The overlay is handed a slice of exactly the bytes it covers and decides by a `Check`: a tree
of calls through that slice, each followed by whatever the answer suggests, and at the leaves
acceptance or a refusal. What is absent is any other way to get at memory, so a check keeps
every law that calls through a handle keep.
-/

namespace PacketMemory

/-- The number in an answer, or zero if there is none. -/
def Answer.number : Answer → Nat
  | .scalar v => v.toNat
  | .count n => n
  | _ => 0

/-- A decision about a slice. -/
inductive Check where
  /-- the bytes are fine -/
  | accept
  /-- they are not, for this cause -/
  | refuse (cause : Cause)
  /-- it depends on what a call through the slice comes to -/
  | call (access : Call) (next : Except Failure Answer → Check)

namespace Check

/-- Come to the decision. -/
def run : Check → Action Pane Cause Unit
  | accept => pure ()
  | refuse cause => Action.fail cause
  | call access next => do
    let result ← Action.attempt access.run
    (next result).run

/-- Go on with the number of this type at an index; not being able to read it is a cause for
refusal. -/
def number (type : ScalarType) (index : Nat) (next : Nat → Check) : Check :=
  call (.peekScalar type index false) fun
    | .ok answer => next answer.number
    | .error failure => refuse (.failure failure)

/-- Accept if `p` holds, and refuse with words otherwise. -/
def insist (p : Prop) [Decidable p] (words : String) : Check :=
  if p then accept else refuse (.words words)

end Check

/-- A type that can be laid over memory. -/
structure Overlay where
  /-- the full name of the type -/
  typeName : String
  /-- the number of bytes it covers, or zero if it covers everything -/
  size : Nat
  /-- its own decision about the bytes -/
  check : Check

namespace Overlay

/-- The name that failures mention. -/
def name (o : Overlay) : String := TypeName.short o.typeName

/-- The number of bytes that the overlay covers on a handle, if enough are written. -/
def length (o : Overlay) (writer capacity : Nat) : Except Failure Nat :=
  if o.size = 0 then
    if writer ≠ capacity then
      .error (.illegalArgument (.notFull o.name writer capacity))
    else
      .ok capacity
  else if writer < o.size then
    .error (.illegalArgument (.tooShort o.name o.size writer))
  else
    .ok o.size

end Overlay

end PacketMemory
