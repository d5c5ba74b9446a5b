import PacketMemory.Text.Codec
import PacketMemory.Proofs.Text.Utf8

/-!
# Codecs that read back what they write

A text that goes through packet memory comes back only if its codec decodes what it encodes
(`Codec.Inverts`). UTF-8 does, since its decoder is exact. US-ASCII does because it encodes no text
otherwise than UTF-8, by which it decodes, and ISO-8859-1 because every byte is a character of its own.
-/

namespace PacketMemory.Codec

variable {text : String} {bytes : List UInt8}

/-- What the codec encodes, it decodes to the same text. -/
def Inverts (codec : Codec) : Prop :=
  ∀ text bytes, codec.encode text = .ok bytes → codec.decode bytes = .ok text

/-- UTF-8 decodes what it encodes. -/
theorem utf8_inverts : utf8.Inverts := by
  intro text bytes h
  obtain rfl := Except.ok.inj h
  simp only [utf8, Utf8.decode_encode]
  rfl

/-- **US-ASCII is a part of UTF-8**: the text that it encodes has these bytes in UTF-8, too. -/
theorem utf8_encode_of_ascii (h : ascii.encode text = .ok bytes) : utf8.encode text = .ok bytes := by
  simp only [ascii] at h
  split at h
  · next hsmall =>
    have hsingle : ∀ c ∈ text.toList, String.utf8EncodeChar c = [UInt8.ofNat c.toNat] := by
      intro c hc
      have hle : c.toNat ≤ 0x7F := of_decide_eq_true (List.all_eq_true.1 hsmall c hc)
      rw [Utf8.utf8EncodeChar_eq, Utf8.trailing, if_pos (by omega)]
      rfl
    obtain rfl := Except.ok.inj h
    refine congrArg Except.ok ?_
    rw [Utf8.encode, List.flatMap_congr hsingle, ← List.map_eq_flatMap]
  · cases h

/-- What is encoded in US-ASCII is read back by UTF-8. -/
theorem ascii_inverts : ascii.Inverts := fun text bytes h =>
  utf8_inverts text bytes (utf8_encode_of_ascii h)

/-- Every character of ISO-8859-1 is read back from its byte. -/
theorem latin1_inverts : latin1.Inverts := by
  intro text bytes h
  simp only [latin1] at h ⊢
  split at h
  · cases h
  · rename_i hsmall
    rw [List.find?_eq_none] at hsmall
    have hback : ∀ c ∈ text.toList, Char.ofNat (UInt8.ofNat c.toNat).toNat = c := by
      intro c hc
      have hlt : c.toNat < 256 := by
        have hle := hsmall c hc
        simp only [decide_eq_true_eq] at hle
        omega
      rw [UInt8.toNat_ofNat', Nat.mod_eq_of_lt hlt, Char.ofNat_toNat]
    obtain rfl := Except.ok.inj h
    rw [List.map_map, Function.comp_def, List.map_congr_left hback, List.map_id',
      String.ofList_toList]

end PacketMemory.Codec
