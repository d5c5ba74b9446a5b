import PacketMemory.Failure

/-!
# Text codecs

A codec turns text into bytes and back and may refuse either way. Handles take the codec as an
argument, so that packet memory itself knows nothing about text. UTF-8 comes with the library. Two
other codecs stand for those that a user brings along: US-ASCII, which refuses to encode and decodes
like UTF-8, and ISO-8859-1, in which every byte is a character.
-/

namespace PacketMemory

/-- A conversion between text and bytes. -/
structure Codec where
  /-- the name by which failures mention it -/
  name : String
  /-- the bytes of a text -/
  encode : String → Except Cause (List UInt8)
  /-- the text of some bytes -/
  decode : List UInt8 → Except Cause String

namespace Codec

/-- UTF-8, which encodes every text. -/
def utf8 : Codec where
  name := "UTF-8"
  encode text := .ok (Utf8.encode text)
  decode bytes := (Utf8.decode bytes).mapError Cause.malformed

/-- US-ASCII: only characters up to U+007F can be written, and bytes are read as UTF-8. -/
def ascii : Codec where
  name := "US-ASCII"
  encode text :=
    if text.toList.all (fun c => decide (c.toNat ≤ 0x7F)) then
      .ok (text.toList.map fun c => UInt8.ofNat c.toNat)
    else
      .error (.words "text is not ASCII")
  decode := utf8.decode

/-- A code point the way character tables write it: `U+` and at least four digits. -/
def codePoint (c : Char) : String :=
  let shown := (Nat.toDigits 16 c.toNat).map Char.toUpper
  "U+" ++ String.ofList (List.replicate (4 - shown.length) '0' ++ shown)

/-- ISO-8859-1: a byte is the character of the same number. -/
def latin1 : Codec where
  name := "ISO-8859-1"
  encode text :=
    match text.toList.find? (fun c => decide (0xFF < c.toNat)) with
    | some c => .error (.words (codePoint c ++ " is not Latin-1"))
    | none => .ok (text.toList.map fun c => UInt8.ofNat c.toNat)
  decode bytes := .ok (String.ofList (bytes.map fun b => Char.ofNat b.toNat))

end Codec

end PacketMemory
