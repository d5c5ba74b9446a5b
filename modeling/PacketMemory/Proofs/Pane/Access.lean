import PacketMemory.Proofs.Pane.Search

/-!
# Access to a sound pane

Each access by its contract. Reading at an index observes the bytes of the range, writing there
overwrites them; access at the cursor does the same behind the reader or the writer, and moves it
over the bytes. All of it is refused before the first effect or not at all: what follows the
check at the cursor cannot fail any more, because its range lies in the window.
-/

namespace PacketMemory

/-- The bytes of a text, or none if the text cannot be encoded. -/
def Codec.bytes (codec : Codec) (text : String) : List UInt8 :=
  match codec.encode text with
  | .ok bytes => bytes
  | .error _ => []

namespace Pane

variable {T : Trap → Prop} {p p' : Pane} {index length : Nat}

/-- The byte order of natural access to this pane, or the opposite one. -/
def orderFor (p : Pane) (reversed : Bool) : ByteOrder :=
  if reversed then p.order.opposite else p.order

/-- Which byte order is used is no matter of what is in memory. -/
theorem effectiveOrder_apply (reversed : Bool) :
    effectiveOrder reversed p = (.done (p.orderFor reversed), p) := by
  unfold effectiveOrder
  rw [Action.state_bind_apply, Action.pure_apply, orderFor]

/-! ## At an index -/

/-- What is read at an index was there, in the window of live memory. -/
theorem peekBytes_observes (hp : p.Sound) (index length : Nat) :
    Action.Observes T (peekBytes index length) p fun bytes =>
      p.Live ∧ index + length ≤ p.capacity ∧ bytes = p.bytesAt index length := by
  refine (checkRange_observes hp index length).bind ?_
  intro _ h
  exact Action.Stays.of_apply_done (fetch_apply hp h.1 h.2) ⟨rfl, h.1, h.2, rfl⟩

/-- A number is what its bytes are, in the byte order of the handle or in the opposite one. -/
theorem peekScalar_observes (hp : p.Sound) (type : ScalarType) (index : Nat) (reversed : Bool) :
    Action.Observes T (peekScalar type index reversed) p fun value =>
      p.Live ∧ index + type.size ≤ p.capacity ∧
        value = Scalar.ofBytes type (p.orderFor reversed) (p.bytesAt index type.size) := by
  refine Action.Careful.after (effectiveOrder_apply reversed) ?_
  refine (checkRange_observes hp index type.size).bind ?_
  intro _ h
  exact Action.Careful.after (fetch_apply hp h.1 h.2) (Action.Observes.pure ⟨h.1, h.2, rfl⟩)

theorem peekFlag_observes (hp : p.Sound) (index : Nat) :
    Action.Observes T (peekFlag index) p fun _ => p.Live ∧ index < p.capacity :=
  (peekScalar_observes hp .uint8 index false).bind fun _ h =>
    Action.Observes.pure ⟨h.1, h.2.1⟩

theorem peekText_observes (hp : p.Sound) (index length : Nat) (codec : Codec) :
    Action.Observes T (peekText index length codec) p fun _ =>
      p.Live ∧ index + length ≤ p.capacity :=
  (peekBytes_observes hp index length).bind fun _ h =>
    Action.Observes.ofExcept.mono fun _ _ => ⟨h.1, h.2.1⟩

/-- To encode a text is no matter of memory at all. -/
theorem encoded_observes (text : String) (codec : Codec) :
    Action.Observes T (encoded text codec) p fun bytes => bytes = codec.bytes text := by
  refine Action.Observes.ofExcept.mono fun bytes h => ?_
  unfold Codec.bytes
  cases hencode : codec.encode text <;> rw [hencode] at h <;> cases h
  rfl

/-- A search comes back from within the window only. -/
theorem find_observes (hp : p.Sound) (start stop : Nat) (value : UInt8) :
    Action.Observes T (find start stop value) p fun _ =>
      p.Live ∧ max start stop ≤ p.capacity := by
  by_cases hl : p.Live
  · rcases Nat.lt_or_ge p.capacity (max start stop) with h | h
    · exact Action.Stays.of_apply_failed (find_of_lt hl h) rfl
    · exact Action.Stays.of_apply_done (find_apply hp hl h) ⟨rfl, hl, h⟩
  · exact Action.Stays.of_apply_failed (Action.bind_failed (checkRange_of_not_live hl _ _)) rfl

/-- **Bytes that fit are put**, all of them. -/
theorem pokeBytes_succeeds (hp : p.Sound) (hl : p.Live) {bytes : List UInt8}
    (h : index + bytes.length ≤ p.capacity) :
    Action.Succeeds (pokeBytes index bytes) p fun _ p' => p' = p.overwrite index bytes := by
  have hs := hp.small
  exact Action.Succeeds.after (checkRange_of_le hl (by omega) h) (put_succeeds hp hl h)

/-- Zeros are put like any other bytes. -/
theorem pokeZero_succeeds (hp : p.Sound) (hl : p.Live) (h : index + length ≤ p.capacity) :
    Action.Succeeds (pokeZero index length) p fun _ p' =>
      p' = p.overwrite index (List.replicate length 0) := by
  have hs := hp.small
  exact Action.Succeeds.after (checkRange_of_le hl (by omega) h)
    (put_succeeds hp hl (by rw [List.length_replicate]; exact h))

theorem pokeScalar_succeeds (hp : p.Sound) (hl : p.Live) {value : Scalar} {reversed : Bool}
    (h : index + value.type.size ≤ p.capacity) :
    Action.Succeeds (pokeScalar index value reversed) p fun _ p' =>
      p' = p.overwrite index (value.bytes (p.orderFor reversed)) := by
  have hs := hp.small
  exact Action.Succeeds.after (effectiveOrder_apply reversed)
    (Action.Succeeds.after (checkRange_of_le hl (by omega) h)
      (put_succeeds hp hl (by rw [Scalar.length_bytes]; exact h)))

/-- What `pokeBytes_succeeds` says, if it is not known whether the bytes fit. -/
theorem pokeBytes_careful (hp : p.Sound) (index : Nat) (bytes : List UInt8) :
    Action.Careful T (pokeBytes index bytes) p fun _ p' =>
      p' = p.overwrite index bytes ∧ p.Evolves p' := by
  refine Action.Careful.of_check (checkRange_observes hp index bytes.length) fun h => ?_
  refine (pokeBytes_succeeds hp h.1 h.2).mono ?_
  rintro _ _ rfl
  exact ⟨rfl, hp.evolves_overwrite h.2⟩

theorem pokeZero_careful (hp : p.Sound) (index length : Nat) :
    Action.Careful T (pokeZero index length) p fun _ p' =>
      p' = p.overwrite index (List.replicate length 0) ∧ p.Evolves p' := by
  refine Action.Careful.of_check (checkRange_observes hp index length) fun h => ?_
  refine (pokeZero_succeeds hp h.1 h.2).mono ?_
  rintro _ _ rfl
  exact ⟨rfl, hp.evolves_overwrite (by rw [List.length_replicate]; exact h.2)⟩

theorem pokeScalar_careful (hp : p.Sound) (index : Nat) (value : Scalar) (reversed : Bool) :
    Action.Careful T (pokeScalar index value reversed) p fun _ p' =>
      p.Live ∧ p' = p.overwrite index (value.bytes (p.orderFor reversed)) ∧ p.Evolves p' := by
  refine Action.Careful.after (effectiveOrder_apply reversed) ?_
  refine (checkRange_observes hp index value.type.size).bind ?_
  intro _ h
  have hlen : index + (value.bytes (p.orderFor reversed)).length ≤ p.capacity := by
    rw [Scalar.length_bytes]
    exact h.2
  refine ((put_succeeds hp h.1 hlen).mono ?_).careful
  rintro _ _ rfl
  exact ⟨h.1, rfl, hp.evolves_overwrite hlen⟩

/-- A text is put as the bytes that its codec makes of it. -/
theorem pokeText_careful (hp : p.Sound) (index : Nat) (text : String) (codec : Codec) :
    Action.Careful T (pokeText index text codec) p fun _ p' =>
      p' = p.overwrite index (codec.bytes text) ∧ p.Evolves p' := by
  refine (encoded_observes text codec).bind ?_
  rintro _ rfl
  exact (pokeBytes_careful hp index _).bind fun _ _ h => Action.Succeeds.pure h

/-! ## At the cursor -/

/-- Reading at the reader and moving over what was read. -/
theorem read_careful {α : Type} {peek : Nat → Task α} {R : α → Prop} (hp : p.Sound)
    (length : Nat) (hpeek : Action.Observes T (peek p.cursor.reader) p R) :
    Action.Careful T
      (do
        let index ← readingAt length
        let a ← peek index
        onCursor (Cursor.consume length)
        pure a) p fun a p' => R a ∧ p' = p.consumed length ∧ p.Evolves p' := by
  refine (readingAt_observes hp length).bind ?_
  rintro _ ⟨-, h, rfl⟩
  refine hpeek.bind ?_
  intro a ha
  refine (Action.Succeeds.bind (consume_succeeds hp h) ?_).careful
  rintro _ _ rfl
  exact Action.Succeeds.pure ⟨ha, rfl, hp.evolves_consumed h⟩

/-- Writing at the writer and moving over what was written. -/
theorem append_succeeds (poke : Nat → Task Unit) (bytes : List UInt8) (hp : p.Sound)
    (hl : p.Live) (h : bytes.length ≤ p.capacity - p.cursor.writer)
    (hpoke : p.cursor.writer + bytes.length ≤ p.capacity →
      Action.Succeeds (poke p.cursor.writer) p fun _ p' =>
        p' = p.overwrite p.cursor.writer bytes) :
    Action.Succeeds
      (do
        let index ← writingAt bytes.length
        poke index
        onCursor (Cursor.produce bytes.length)) p fun _ p' =>
      p' = (p.overwrite p.cursor.writer bytes).produced bytes.length ∧ p.Evolves p' := by
  have hw := hp.cursor.writer_le
  refine Action.Succeeds.after (writingAt_of_le hp hl h) ?_
  refine (hpoke (by omega)).bind ?_
  rintro _ _ rfl
  have hq : (p.overwrite p.cursor.writer bytes).Sound :=
    hp.of_evolves (hp.evolves_overwrite (by omega))
  refine (produce_succeeds hq h).mono ?_
  rintro _ _ rfl
  exact ⟨rfl, hp.evolves_appended h⟩

/-- What `append_succeeds` says, if the room is not known. -/
theorem append_careful (poke : Nat → Task Unit) (bytes : List UInt8) (hp : p.Sound)
    (hpoke : p.Live → p.cursor.writer + bytes.length ≤ p.capacity →
      Action.Succeeds (poke p.cursor.writer) p fun _ p' =>
        p' = p.overwrite p.cursor.writer bytes) :
    Action.Careful T
      (do
        let index ← writingAt bytes.length
        poke index
        onCursor (Cursor.produce bytes.length)) p fun _ p' =>
      p' = (p.overwrite p.cursor.writer bytes).produced bytes.length ∧ p.Evolves p' :=
  Action.Careful.of_check ((writingAt_observes hp bytes.length).mono fun _ h => And.intro h.1 h.2.1)
    fun h => append_succeeds poke bytes hp h.1 h.2 (hpoke h.1)

/-- What is read are the next readable bytes. -/
theorem readBytes_careful (hp : p.Sound) (length : Nat) :
    Action.Careful T (readBytes length) p fun bytes p' =>
      bytes = p.bytesAt p.cursor.reader length ∧ p' = p.consumed length ∧ p.Evolves p' :=
  read_careful hp length ((peekBytes_observes hp p.cursor.reader length).mono fun _ h => h.2.2)

theorem readScalar_careful (hp : p.Sound) (type : ScalarType) (reversed : Bool) :
    Action.Careful T (readScalar type reversed) p fun value p' =>
      value = Scalar.ofBytes type (p.orderFor reversed) (p.bytesAt p.cursor.reader type.size) ∧
        p' = p.consumed type.size ∧ p.Evolves p' :=
  read_careful hp type.size
    ((peekScalar_observes hp type p.cursor.reader reversed).mono fun _ h => h.2.2)

theorem readFlag_careful (hp : p.Sound) :
    Action.Careful T readFlag p fun _ p' => p' = p.consumed 1 ∧ p.Evolves p' :=
  (readScalar_careful hp .uint8 false).bind fun _ _ h => Action.Succeeds.pure h.2

/-- The reader moves over bytes only if they are a text. -/
theorem readText_careful (hp : p.Sound) (length : Nat) (codec : Codec) :
    Action.Careful T (readText length codec) p fun _ p' =>
      p' = p.consumed length ∧ p.Evolves p' :=
  (read_careful hp length (peekText_observes hp p.cursor.reader length codec)).mono
    fun _ _ h => h.2

theorem appendBytes_succeeds (hp : p.Sound) (hl : p.Live) {bytes : List UInt8}
    (h : bytes.length ≤ p.capacity - p.cursor.writer) :
    Action.Succeeds (appendBytes bytes) p fun _ p' =>
      p' = (p.overwrite p.cursor.writer bytes).produced bytes.length ∧ p.Evolves p' :=
  append_succeeds (pokeBytes · bytes) bytes hp hl h fun h => pokeBytes_succeeds hp hl h

/-- What is appended is put at the writer, as a whole or not at all. -/
theorem appendBytes_careful (hp : p.Sound) (bytes : List UInt8) :
    Action.Careful T (appendBytes bytes) p fun _ p' =>
      p' = (p.overwrite p.cursor.writer bytes).produced bytes.length ∧ p.Evolves p' :=
  append_careful (pokeBytes · bytes) bytes hp fun hl h => pokeBytes_succeeds hp hl h

theorem appendZero_careful (hp : p.Sound) (length : Nat) :
    Action.Careful T (appendZero length) p fun _ p' =>
      p' = (p.overwrite p.cursor.writer (List.replicate length 0)).produced length ∧
        p.Evolves p' := by
  have h := append_careful (T := T) (pokeZero · length) (List.replicate length 0) hp fun hl h =>
    pokeZero_succeeds hp hl (by rw [List.length_replicate] at h; exact h)
  rw [List.length_replicate] at h
  exact h

theorem appendScalar_succeeds (hp : p.Sound) (hl : p.Live) {value : Scalar} {reversed : Bool}
    (h : value.type.size ≤ p.capacity - p.cursor.writer) :
    Action.Succeeds (appendScalar value reversed) p fun _ p' =>
      p' = (p.overwrite p.cursor.writer (value.bytes (p.orderFor reversed))).produced
        value.type.size ∧ p.Evolves p' := by
  have h := append_succeeds (pokeScalar · value reversed) (value.bytes (p.orderFor reversed)) hp
    hl (by rw [Scalar.length_bytes]; exact h)
    fun h => pokeScalar_succeeds hp hl (by rw [Scalar.length_bytes] at h; exact h)
  rw [Scalar.length_bytes] at h
  exact h

theorem appendScalar_careful (hp : p.Sound) (value : Scalar) (reversed : Bool) :
    Action.Careful T (appendScalar value reversed) p fun _ p' =>
      p' = (p.overwrite p.cursor.writer (value.bytes (p.orderFor reversed))).produced
        value.type.size ∧ p.Evolves p' :=
  Action.Careful.of_check
    ((writingAt_observes hp value.type.size).mono fun _ h => And.intro h.1 h.2.1)
    fun h => appendScalar_succeeds hp h.1 h.2

theorem appendText_careful (hp : p.Sound) (text : String) (codec : Codec) :
    Action.Careful T (appendText text codec) p fun _ p' =>
      p' = (p.overwrite p.cursor.writer (codec.bytes text)).produced (codec.bytes text).length ∧
        p.Evolves p' := by
  refine (encoded_observes text codec).bind ?_
  rintro _ rfl
  exact (appendBytes_careful hp _).bind fun _ _ h => Action.Succeeds.pure h

/-- The contents are what is readable, and the reader stays. -/
theorem contents_observes (hp : p.Sound) :
    Action.Observes T contents p fun bytes =>
      bytes = p.bytesAt p.cursor.reader (p.cursor.writer - p.cursor.reader) := by
  refine Action.Careful.after (onCursor_query (Cursor.readable_apply hp.cursor.reader_le)) ?_
  exact Action.Careful.state_bind ((peekBytes_observes hp _ _).mono fun _ h => h.2.2)

end Pane

end PacketMemory
