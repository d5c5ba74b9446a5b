/-!
# UTF-8

Text as bytes and back. `Utf8.encode` is the concatenation of the encodings of the characters.
`Utf8.decode` accepts exactly the well-formed byte strings: no overlong forms, no surrogates,
nothing above U+10FFFF. It reads one byte at a time and is either between two characters or
inside one (`Pending`); the first byte of a character fixes how many bytes follow and narrows
the range of the second, which is all that well-formedness asks for.

A refusal (`Malformed`) says how many bytes at the start are whole characters and how long the
sequence behind them is that cannot be continued, if the input does not simply end inside one.
-/

namespace PacketMemory.Utf8

/-- Why bytes are not the encoding of a text. -/
structure Malformed where
  /-- the number of bytes at the start that are whole characters -/
  accepted : Nat
  /-- the length of the invalid sequence behind them, or none if the input ends too early -/
  rejected : Option Nat
  deriving DecidableEq, Repr

/-- The text of a refusal. -/
def Malformed.message (m : Malformed) : String :=
  match m.rejected with
  | some n => "invalid utf-8 sequence of " ++ toString n ++ " bytes from index " ++
      toString m.accepted
  | none => "incomplete utf-8 byte sequence from index " ++ toString m.accepted

/-- The bytes of a text. -/
def encode (text : String) : List UInt8 :=
  text.toList.flatMap String.utf8EncodeChar

/-- A character that is still being read. -/
structure Pending where
  /-- the bytes of it that were read -/
  seen : Nat
  /-- the bytes of it behind the next one -/
  left : Nat
  /-- the least byte that may come next -/
  low : Nat
  /-- the greatest byte that may come next -/
  high : Nat
  /-- the bits read so far -/
  value : Nat
  deriving DecidableEq, Repr

/-- What the first byte of a character says about it. -/
inductive Lead where
  /-- it is the whole character -/
  | whole
  /-- more bytes have to follow -/
  | more (pending : Pending)
  /-- no character starts with it -/
  | invalid
  deriving DecidableEq, Repr

/-- The first byte of a character. Overlong forms, surrogates and values above U+10FFFF are
ruled out by the range of the byte that follows. -/
def lead (b : Nat) : Lead :=
  if b < 0x80 then .whole
  else if b < 0xC2 then .invalid
  else if b < 0xE0 then .more ⟨1, 0, 0x80, 0xBF, b - 0xC0⟩
  else if b = 0xE0 then .more ⟨1, 1, 0xA0, 0xBF, 0⟩
  else if b = 0xED then .more ⟨1, 1, 0x80, 0x9F, 0xD⟩
  else if b < 0xF0 then .more ⟨1, 1, 0x80, 0xBF, b - 0xE0⟩
  else if b = 0xF0 then .more ⟨1, 2, 0x90, 0xBF, 0⟩
  else if b < 0xF4 then .more ⟨1, 2, 0x80, 0xBF, b - 0xF0⟩
  else if b = 0xF4 then .more ⟨1, 2, 0x80, 0x8F, 4⟩
  else .invalid

/-- Read bytes on, with `valid` bytes of whole characters behind, which are `done` with the
last one first, and possibly inside a character. -/
def scan (valid : Nat) (done : List Char) :
    Option Pending → List UInt8 → Except Malformed (List Char)
  | none, [] => .ok done.reverse
  | some _, [] => .error ⟨valid, none⟩
  | none, b :: rest =>
    match lead b.toNat with
    | .whole => scan (valid + 1) (Char.ofNat b.toNat :: done) none rest
    | .more pending => scan valid done (some pending) rest
    | .invalid => .error ⟨valid, some 1⟩
  | some p, b :: rest =>
    if p.low ≤ b.toNat ∧ b.toNat ≤ p.high then
      let value := p.value * 64 + (b.toNat - 0x80)
      match p.left with
      | 0 => scan (valid + p.seen + 1) (Char.ofNat value :: done) none rest
      | left + 1 => scan valid done (some ⟨p.seen + 1, left, 0x80, 0xBF, value⟩) rest
    else
      .error ⟨valid, some p.seen⟩

/-- The text that these bytes encode. -/
def decode (bytes : List UInt8) : Except Malformed String :=
  (scan 0 [] none bytes).map String.ofList

end PacketMemory.Utf8
