import PacketMemory.Pane.Relative

/-!
# Calls: what can be asked of one handle

`Call` lists every call that goes through a single handle and concerns only what that handle
sees, so that statements about "any sequence of calls" have something to range over.
`Call.run` performs one on a pane and `Call.runAll` a sequence of them, going on after
failures like a caller that reports them and continues.
-/

namespace PacketMemory

/-- What a call answers. -/
inductive Answer where
  /-- nothing but success -/
  | unit
  | flag (value : Bool)
  /-- a number of bytes -/
  | count (bytes : Nat)
  /-- where a byte was found, if anywhere -/
  | position (index : Option Nat)
  | scalar (value : Scalar)
  | bytes (value : List UInt8)
  | text (value : String)
  /-- how much can be read and written -/
  | room (readable writable : Nat)
  deriving DecidableEq, Repr

/-- A call through one handle. -/
inductive Call where
  | setOrder (order : ByteOrder)
  | seekReader (index : Nat)
  | seekWriter (index : Nat)
  | seek (reader writer : Nat)
  | rewind
  | saveReader
  | recallReader
  | saveWriter
  | recallWriter
  | skip (length : Nat)
  | compact
  | checkWritable (length : Nat)
  | canRead (length : Nat)
  | canWrite (length : Nat)
  | room
  | peekScalar (type : ScalarType) (index : Nat) (reversed : Bool)
  | pokeScalar (index : Nat) (value : Scalar) (reversed : Bool)
  | readScalar (type : ScalarType) (reversed : Bool)
  | appendScalar (value : Scalar) (reversed : Bool)
  | peekFlag (index : Nat)
  | pokeFlag (index : Nat) (value : Bool)
  | readFlag
  | appendFlag (value : Bool)
  | peekBytes (index length : Nat)
  | pokeBytes (index : Nat) (bytes : List UInt8)
  | readBytes (length : Nat)
  | appendBytes (bytes : List UInt8)
  | pokeZero (index length : Nat)
  | appendZero (length : Nat)
  | find (start stop : Nat) (value : UInt8)
  | peekText (index length : Nat) (codec : Codec)
  | pokeText (index : Nat) (text : String) (codec : Codec)
  | readText (length : Nat) (codec : Codec)
  | appendText (text : String) (codec : Codec)
  | contents

namespace Call

/-- Perform a call on a pane. -/
def run : Call → Pane.Task Answer
  | setOrder order => do Pane.setOrder order; pure .unit
  | seekReader index => do Pane.seekReader index; pure .unit
  | seekWriter index => do Pane.seekWriter index; pure .unit
  | seek reader writer => do Pane.seek reader writer; pure .unit
  | rewind => do Pane.rewind; pure .unit
  | saveReader => do Pane.saveReader; pure .unit
  | recallReader => do Pane.recallReader; pure .unit
  | saveWriter => do Pane.saveWriter; pure .unit
  | recallWriter => do Pane.recallWriter; pure .unit
  | skip length => do Pane.skip length; pure .unit
  | compact => do Pane.compact; pure .unit
  | checkWritable length => do Pane.checkWritable length; pure .unit
  | canRead length => do pure (.flag (← Pane.canRead length))
  | canWrite length => do pure (.flag (← Pane.canWrite length))
  | room => do
    let readable ← Pane.readable
    let writable ← Pane.writable
    pure (.room readable writable)
  | peekScalar type index reversed => do pure (.scalar (← Pane.peekScalar type index reversed))
  | pokeScalar index value reversed => do Pane.pokeScalar index value reversed; pure .unit
  | readScalar type reversed => do pure (.scalar (← Pane.readScalar type reversed))
  | appendScalar value reversed => do Pane.appendScalar value reversed; pure .unit
  | peekFlag index => do pure (.flag (← Pane.peekFlag index))
  | pokeFlag index value => do Pane.pokeFlag index value; pure .unit
  | readFlag => do pure (.flag (← Pane.readFlag))
  | appendFlag value => do Pane.appendFlag value; pure .unit
  | peekBytes index length => do pure (.bytes (← Pane.peekBytes index length))
  | pokeBytes index bytes => do Pane.pokeBytes index bytes; pure .unit
  | readBytes length => do pure (.bytes (← Pane.readBytes length))
  | appendBytes bytes => do Pane.appendBytes bytes; pure .unit
  | pokeZero index length => do Pane.pokeZero index length; pure .unit
  | appendZero length => do Pane.appendZero length; pure .unit
  | find start stop value => do pure (.position (← Pane.find start stop value))
  | peekText index length codec => do pure (.text (← Pane.peekText index length codec))
  | pokeText index text codec => do pure (.count (← Pane.pokeText index text codec))
  | readText length codec => do pure (.text (← Pane.readText length codec))
  | appendText text codec => do pure (.count (← Pane.appendText text codec))
  | contents => do pure (.bytes (← Pane.contents))

/-- Perform calls one after the other, whatever each of them ends with. -/
def runAll : List Call → Pane → List (Outcome Failure Answer) × Pane
  | [], p => ([], p)
  | a :: rest, p =>
    let (outcome, p) := a.run p
    let (outcomes, p) := runAll rest p
    (outcome :: outcomes, p)

@[simp] theorem runAll_nil (p : Pane) : runAll [] p = ([], p) := rfl

theorem runAll_cons (a : Call) (rest : List Call) (p : Pane) :
    runAll (a :: rest) p =
      ((a.run p).1 :: (runAll rest (a.run p).2).1, (runAll rest (a.run p).2).2) := rfl

theorem runAll_append (calls rest : List Call) (p : Pane) :
    runAll (calls ++ rest) p =
      ((runAll calls p).1 ++ (runAll rest (runAll calls p).2).1,
        (runAll rest (runAll calls p).2).2) := by
  induction calls generalizing p with
  | nil => rfl
  | cons call calls ih => rw [List.cons_append, runAll_cons, ih, runAll_cons, List.cons_append]

end Call

end PacketMemory
