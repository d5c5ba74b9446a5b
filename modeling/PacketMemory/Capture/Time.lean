/-!
# Points in time

A timestamp is a number of nanoseconds since the Unix epoch, negative before it. Capture
records hold whole seconds and microseconds, 32 bits each, so a timestamp is split into the
two, and only one between the epoch and 2³² seconds behind it can be (`Timestamp.split`).

`describeDuration` writes a length of time in the largest unit it fills, exactly and without
trailing zeros.
-/

namespace PacketMemory

/-- The nanoseconds of a second. -/
def nanosPerSecond : Nat := 1000000000

/-- The microseconds of a second. -/
def microsPerSecond : Nat := 1000000

/-- The number of seconds that fit a 32-bit field. -/
def secondsLimit : Nat := 1 <<< 32

/-- A point in time. -/
structure Timestamp where
  /-- nanoseconds since the epoch -/
  nanos : Int
  deriving DecidableEq, Repr

namespace Timestamp

/-- The whole seconds since the epoch, rounded down. -/
def seconds (t : Timestamp) : Int := t.nanos.fdiv nanosPerSecond

/-- The nanoseconds since the last whole second. -/
def subsecond (t : Timestamp) : Nat := (t.nanos.fmod nanosPerSecond).toNat

/-- Seconds since the epoch, and nanoseconds that count forward from there. -/
def ofSeconds (seconds : Int) (nanos : Nat) : Timestamp :=
  ⟨seconds * nanosPerSecond + nanos⟩

/-- The point in time that the fields of a record stand for. The microseconds carry into the
seconds if they exceed one. -/
def ofFields (seconds micros : Nat) : Timestamp :=
  ⟨(seconds * nanosPerSecond + micros * 1000 : Nat)⟩

end Timestamp

/-! ## Lengths of time -/

/-- The digits of `fraction / 10 ^ places` behind the point, without trailing zeros. -/
def fractionDigits (places fraction : Nat) : String :=
  let shown := Nat.toDigits 10 fraction
  let padded := List.replicate (places - shown.length) '0' ++ shown
  String.ofList (padded.reverse.dropWhile (· == '0')).reverse

/-- The number `n / 10 ^ places` and a unit; there is no point if nothing stands behind it. -/
def describeDecimal (places n : Nat) (unit : String) : String :=
  let whole := toString (n / Nat.pow 10 places)
  let fraction := n % Nat.pow 10 places
  if fraction = 0 then whole ++ unit
  else whole ++ "." ++ fractionDigits places fraction ++ unit

/-- A number of nanoseconds in the largest unit that it fills. -/
def describeDuration (nanos : Nat) : String :=
  if 1000000000 ≤ nanos then describeDecimal 9 nanos "s"
  else if 1000000 ≤ nanos then describeDecimal 6 nanos "ms"
  else if 1000 ≤ nanos then describeDecimal 3 nanos "µs"
  else describeDecimal 0 nanos "ns"

end PacketMemory
