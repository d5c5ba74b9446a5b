import PacketMemory.Operation
import PacketMemory.Proofs.Pane.Access

/-!
# Calls on a sound pane

Main statements: every call through one handle is careful and stays inside of its window
(`Call.run_careful`), and so are calls on a record (`RecordCall.run_careful`) and the writing of
one (`CaptureInfo.write_careful`), although these take several steps: the first check covers the
room for all of them. The check of an overlay is not careful, but a tree of careful calls, so
whatever it does, it stays inside of its window, too (`Check.run_evolves`).
-/

namespace PacketMemory

variable {T : Trap → Prop} {p p' : Pane}

/-! ## Moves of the cursor -/

namespace Pane

/-- The pane `p'` is `p` with another cursor. -/
def Moves (p p' : Pane) : Prop := ∃ c, c.InBounds p.capacity ∧ p' = { p with cursor := c }

theorem Moves.evolves (h : p.Moves p') (hp : p.Sound) : p.Evolves p' := by
  obtain ⟨c, hc, rfl⟩ := h
  exact hp.evolves_cursor hc

theorem Moves.block_eq (h : p.Moves p') : p'.block = p.block := by
  obtain ⟨c, -, rfl⟩ := h
  rfl

/-- A move of the cursor that keeps its bounds, on memory that is live. -/
theorem move_careful {α : Type} {m : Action Cursor Failure α} {P : α → Cursor → Prop}
    (hm : Action.Careful T m p.cursor P) (hP : ∀ a c, P a c → c.InBounds p.capacity) :
    Action.Careful T (checkLive >>= fun _ => onCursor m) p fun _ p' => p.Moves p' :=
  checkLive_observes.bind fun _ _ => (onCursor_careful hm).mono fun a _ ⟨c, hc, h⟩ =>
    ⟨c, hP a c hc, h⟩

/-- A move that depends on the capacity. -/
theorem moveWithin_careful {α : Type} {m : Nat → Action Cursor Failure α}
    {P : α → Cursor → Prop} (hm : Action.Careful T (m p.capacity) p.cursor P)
    (hP : ∀ a c, P a c → c.InBounds p.capacity) :
    Action.Careful T
      (checkLive >>= fun _ => Action.state >>= fun q => onCursor (m q.capacity)) p
      fun _ p' => p.Moves p' :=
  checkLive_observes.bind fun _ _ => Action.Careful.state_bind
    ((onCursor_careful hm).mono fun a _ ⟨c, hc, h⟩ => ⟨c, hP a c hc, h⟩)

theorem seekReader_careful (hp : p.Sound) (index : Nat) :
    Action.Careful T (seekReader index) p fun _ p' => p.Moves p' :=
  move_careful (Cursor.seekReader_careful hp.cursor index) fun _ _ h => h.2

theorem seekWriter_careful (hp : p.Sound) (index : Nat) :
    Action.Careful T (seekWriter index) p fun _ p' => p.Moves p' :=
  moveWithin_careful (Cursor.seekWriter_careful hp.cursor index) fun _ _ h => h.2

theorem seekWriter_apply (hl : p.Live) {index : Nat}
    (h : p.cursor.reader ≤ index ∧ index ≤ p.capacity) :
    seekWriter index p = (.done (), { p with cursor := { p.cursor with writer := index } }) := by
  have hm : Cursor.seekWriter index p.capacity p.cursor =
      (.done (), { p.cursor with writer := index }) := by
    unfold Cursor.seekWriter
    rw [Action.state_bind_apply, Action.require_true h, pure_bind, Action.update_apply]
  refine (Action.bind_done (checkLive_of_live hl)).trans ?_
  rw [Action.state_bind_apply]
  exact onCursor_apply hm

/-- The writer is not put before the reader, nor out of the window. -/
theorem seekWriter_refused (hl : p.Live) {index : Nat}
    (h : ¬(p.cursor.reader ≤ index ∧ index ≤ p.capacity)) :
    seekWriter index p =
      (.failed (.outOfBounds (.writer index p.cursor.reader p.capacity)), p) := by
  refine (Action.bind_done (checkLive_of_live hl)).trans ?_
  rw [Action.state_bind_apply, onCursor, Action.within_apply, Cursor.seekWriter,
    Action.state_bind_apply, Action.require_false h]
  rfl

theorem seek_careful (hp : p.Sound) (reader writer : Nat) :
    Action.Careful T (seek reader writer) p fun _ p' => p.Moves p' :=
  moveWithin_careful (Cursor.seek_careful hp.cursor reader writer) fun _ _ h => h.2

theorem rewind_careful (hp : p.Sound) :
    Action.Careful T rewind p fun _ p' => p.Moves p' :=
  move_careful (P := fun _ c => c.InBounds p.capacity) (Action.Succeeds.careful
    (Action.Succeeds.update ⟨Nat.le_refl 0, Nat.zero_le _, hp.cursor.markedReader_le,
      hp.cursor.markedWriter_le⟩)) fun _ _ h => h

theorem saveReader_careful (hp : p.Sound) :
    Action.Careful T saveReader p fun _ p' => p.Moves p' :=
  move_careful (P := fun _ c => c.InBounds p.capacity) (Action.Succeeds.careful
    (Action.Succeeds.update ⟨hp.cursor.reader_le, hp.cursor.writer_le,
      Nat.le_trans hp.cursor.reader_le hp.cursor.writer_le, hp.cursor.markedWriter_le⟩))
    fun _ _ h => h

theorem recallReader_careful (hp : p.Sound) :
    Action.Careful T recallReader p fun _ p' => p.Moves p' :=
  move_careful (Cursor.recallReader_careful hp.cursor) fun _ _ h => h.2

theorem saveWriter_careful (hp : p.Sound) :
    Action.Careful T saveWriter p fun _ p' => p.Moves p' :=
  move_careful (P := fun _ c => c.InBounds p.capacity) (Action.Succeeds.careful
    (Action.Succeeds.update ⟨hp.cursor.reader_le, hp.cursor.writer_le,
      hp.cursor.markedReader_le, hp.cursor.writer_le⟩)) fun _ _ h => h

theorem recallWriter_careful (hp : p.Sound) :
    Action.Careful T recallWriter p fun _ p' => p.Moves p' :=
  moveWithin_careful (Cursor.recallWriter_careful hp.cursor) fun _ _ h => h.2

theorem skip_careful (hp : p.Sound) (length : Nat) :
    Action.Careful T (skip length) p fun _ p' => p.Moves p' := by
  have hs := hp.small
  exact move_careful (Cursor.skip_careful hp.cursor (by omega) length) fun _ _ h => h.2

theorem checkWritable_observes (hp : p.Sound) (length : Nat) :
    Action.Observes T (checkWritable length) p fun _ =>
      p.Live ∧ length ≤ p.capacity - p.cursor.writer :=
  checkLive_observes.bind fun _ hl => Action.Careful.state_bind <|
    (onCursor_observes (Cursor.checkWritable_observes hp.cursor.writer_le length)).mono
      fun _ h => ⟨hl, h⟩

/-- Bytes that are put where they are. -/
theorem overwrite_bytesAt (hp : p.Sound) {index length : Nat} (h : index + length ≤ p.capacity) :
    p.overwrite index (p.bytesAt index length) = p := by
  have hwindow := hp.window
  rcases p with ⟨_ | b, released, offset, capacity, cursor, order⟩
  · rfl
  · have hfit : offset + index + length ≤ b.length := by
      have hw := hwindow b rfl
      simp only at hw h
      omega
    have hsame := Block.overwrite_self hfit
    simp only [overwrite, bytesAt, Option.map_some, Option.getD_some, hsame]

/-- The readable bytes at the start of the window. -/
def compacted (p : Pane) : Pane :=
  p.overwrite 0 (p.bytesAt p.cursor.reader (p.cursor.writer - p.cursor.reader))

/-- The pane without the bytes that were read: the readable ones come to the start, and all indices
and marks are shifted down with them. -/
def discarded (p : Pane) : Pane :=
  { p.compacted with cursor := ⟨0, p.cursor.writer - p.cursor.reader,
      p.cursor.markedReader - p.cursor.reader, p.cursor.markedWriter - p.cursor.reader⟩ }

/-- Where nothing was read, the readable bytes are at the start. -/
theorem compacted_of_start (hp : p.Sound) (h : p.cursor.reader = 0) : p.compacted = p := by
  have hfit : 0 + (p.cursor.writer - 0) ≤ p.capacity := by
    rw [Nat.zero_add, Nat.sub_zero]
    exact hp.cursor.writer_le
  rw [compacted, h]
  exact overwrite_bytesAt hp hfit

theorem Sound.evolves_compacted (hp : p.Sound) : p.Evolves p.compacted := by
  have hreader := hp.cursor.reader_le
  have hwriter := hp.cursor.writer_le
  have hlen : (p.bytesAt p.cursor.reader (p.cursor.writer - p.cursor.reader)).length ≤
      p.cursor.writer - p.cursor.reader := List.length_take_le _ _
  exact hp.evolves_overwrite (by omega)

theorem Sound.evolves_discarded (hp : p.Sound) : p.Evolves p.discarded := by
  have hwriter := hp.cursor.writer_le
  have hreaderMark := hp.cursor.markedReader_le
  have hwriterMark := hp.cursor.markedWriter_le
  have he := hp.evolves_compacted
  exact he.trans ((hp.of_evolves he).evolves_cursor ⟨Nat.zero_le _,
    Nat.le_trans (Nat.sub_le ..) hwriter, Nat.le_trans (Nat.sub_le ..) hreaderMark,
    Nat.le_trans (Nat.sub_le ..) hwriterMark⟩)

/-- The move does not go through a range check: the readable bytes lie in the window because
the cursor does. -/
theorem compact_succeeds (hp : p.Sound) (hl : p.Live) :
    Action.Succeeds compact p fun _ p' => p' = p.discarded := by
  have hr := hp.cursor.reader_le
  have hw := hp.cursor.writer_le
  have finish : Action.Succeeds (onCursor Cursor.compact) p.compacted fun _ p' =>
      p' = p.discarded := by
    refine Action.Succeeds.within (Cursor.compact_succeeds hp.cursor) ?_
    rintro _ _ ⟨rfl, -⟩
    rfl
  refine Action.Succeeds.after (checkLive_of_live hl) ?_
  refine Action.Succeeds.state_bind ?_
  by_cases h : 0 < p.cursor.reader
  · dsimp only
    rw [if_pos h]
    refine Action.Succeeds.after (onCursor_query (Cursor.readable_apply hr)) ?_
    refine Action.Succeeds.after (fetch_apply hp hl (by omega)) ?_
    have hlen : (p.bytesAt p.cursor.reader (p.cursor.writer - p.cursor.reader)).length =
        p.cursor.writer - p.cursor.reader := length_bytesAt hp hl (by omega)
    refine (put_succeeds hp hl (by omega)).bind ?_
    rintro _ _ rfl
    exact finish
  · dsimp only
    rw [if_neg h]
    rwa [compacted_of_start hp (Nat.eq_zero_of_not_pos h)] at finish

theorem compact_careful (hp : p.Sound) :
    Action.Careful T compact p fun _ p' => p' = p.discarded :=
  Action.Careful.of_check checkLive_observes fun hl => compact_succeeds hp hl

/-- Appending a scalar into known room leaves the rest of that room. -/
theorem appendScalar_room (hp : p.Sound) (hl : p.Live) {value : Scalar} {room : Nat}
    (h : value.type.size + room ≤ p.capacity - p.cursor.writer) :
    Action.Succeeds (appendScalar value false) p fun _ p' =>
      p.Evolves p' ∧ room ≤ p'.capacity - p'.cursor.writer := by
  refine (appendScalar_succeeds hp hl (by omega)).mono ?_
  rintro _ _ ⟨rfl, he⟩
  refine ⟨he, ?_⟩
  simp only [produced, overwrite]
  omega

end Pane

/-! ## Calls -/

namespace Call

/-- Calls that write no byte. -/
def reads : Call → Bool
  | compact | pokeScalar .. | appendScalar .. | pokeFlag .. | appendFlag .. | pokeBytes ..
  | appendBytes .. | pokeZero .. | appendZero .. | pokeText .. | appendText .. => false
  | _ => true

/-- What a call may do to a pane: a call that only reads leaves the block alone. -/
def Effect (call : Call) (p p' : Pane) : Prop :=
  p.Evolves p' ∧ (call.reads = true → p'.block = p.block)

theorem Effect.of_moves {call : Call} (hp : p.Sound) (h : p.Moves p') : call.Effect p p' :=
  ⟨h.evolves hp, fun _ => h.block_eq⟩

theorem Effect.of_consumed {call : Call} {length : Nat} (h : p' = p.consumed length)
    (he : p.Evolves p') : call.Effect p p' :=
  ⟨he, fun _ => by rw [h]; rfl⟩

theorem Effect.of_evolves {call : Call} (hw : call.reads = false) (h : p.Evolves p') :
    call.Effect p p' :=
  ⟨h, fun hr => absurd (hr.symm.trans hw) (by decide)⟩

variable {α : Type}

/-- The answer of a call that changes nothing. -/
theorem effect_of_observes {m : Pane.Task α} {R : α → Prop} {answer : α → Answer} {call : Call}
    (hp : p.Sound) (hm : Action.Observes T m p R) :
    Action.Careful T (m >>= fun a => pure (answer a)) p fun _ p' => call.Effect p p' :=
  hm.bind fun _ _ => Action.Careful.pure ⟨hp.evolves_refl, fun _ => rfl⟩

/-- The answer of a call that changes something. -/
theorem effect_of_careful {m : Pane.Task α} {P : α → Pane → Prop} {answer : α → Answer}
    {call : Call} (hm : Action.Careful T m p P) (hP : ∀ a p', P a p' → call.Effect p p') :
    Action.Careful T (m >>= fun a => pure (answer a)) p fun _ p' => call.Effect p p' :=
  hm.bind fun a _ h => Action.Succeeds.pure (hP a _ h)

/-- **Every call is careful**, and stays inside of its window. -/
theorem run_careful (hp : p.Sound) (call : Call) :
    Action.Careful T call.run p fun _ p' => call.Effect p p' := by
  have moves : ∀ {call : Call} (a : Unit) (p' : Pane), p.Moves p' → call.Effect p p' :=
    fun _ _ h => Effect.of_moves hp h
  have known := hp.cursor.reader_le
  have room := hp.cursor.writer_le
  cases call with
  | setOrder order => exact ⟨hp.evolves_order order, fun _ => rfl⟩
  | seekReader index => exact effect_of_careful (Pane.seekReader_careful hp index) moves
  | seekWriter index => exact effect_of_careful (Pane.seekWriter_careful hp index) moves
  | seek reader writer => exact effect_of_careful (Pane.seek_careful hp reader writer) moves
  | rewind => exact effect_of_careful (Pane.rewind_careful hp) moves
  | saveReader => exact effect_of_careful (Pane.saveReader_careful hp) moves
  | recallReader => exact effect_of_careful (Pane.recallReader_careful hp) moves
  | saveWriter => exact effect_of_careful (Pane.saveWriter_careful hp) moves
  | recallWriter => exact effect_of_careful (Pane.recallWriter_careful hp) moves
  | skip length => exact effect_of_careful (Pane.skip_careful hp length) moves
  | compact =>
    refine effect_of_careful (Pane.compact_careful hp) ?_
    rintro _ _ rfl
    exact Effect.of_evolves rfl hp.evolves_discarded
  | checkWritable length => exact effect_of_observes hp (Pane.checkWritable_observes hp length)
  | canRead length =>
    exact Action.Careful.after (Pane.onCursor_query (Cursor.canRead_apply known length))
      ⟨hp.evolves_refl, fun _ => rfl⟩
  | canWrite length =>
    exact Action.Careful.after (Pane.onCursor_query (Cursor.canWrite_apply room length))
      ⟨hp.evolves_refl, fun _ => rfl⟩
  | room =>
    refine Action.Careful.after (Pane.onCursor_query (Cursor.readable_apply known)) ?_
    exact Action.Careful.after (Pane.onCursor_query (Cursor.writable_apply room))
      ⟨hp.evolves_refl, fun _ => rfl⟩
  | peekScalar type index reversed =>
    exact effect_of_observes hp (Pane.peekScalar_observes hp type index reversed)
  | pokeScalar index value reversed =>
    exact effect_of_careful (Pane.pokeScalar_careful hp index value reversed)
      fun _ _ h => Effect.of_evolves rfl h.2.2
  | readScalar type reversed =>
    exact effect_of_careful (Pane.readScalar_careful hp type reversed)
      fun _ _ h => Effect.of_consumed h.2.1 h.2.2
  | appendScalar value reversed =>
    exact effect_of_careful (Pane.appendScalar_careful hp value reversed)
      fun _ _ h => Effect.of_evolves rfl h.2
  | peekFlag index => exact effect_of_observes hp (Pane.peekFlag_observes hp index)
  | pokeFlag index value =>
    exact effect_of_careful (Pane.pokeScalar_careful hp index _ false)
      fun _ _ h => Effect.of_evolves rfl h.2.2
  | readFlag =>
    exact effect_of_careful (Pane.readFlag_careful hp) fun _ _ h => Effect.of_consumed h.1 h.2
  | appendFlag value =>
    exact effect_of_careful (Pane.appendScalar_careful hp _ false)
      fun _ _ h => Effect.of_evolves rfl h.2
  | peekBytes index length => exact effect_of_observes hp (Pane.peekBytes_observes hp index length)
  | pokeBytes index bytes =>
    exact effect_of_careful (Pane.pokeBytes_careful hp index bytes)
      fun _ _ h => Effect.of_evolves rfl h.2
  | readBytes length =>
    exact effect_of_careful (Pane.readBytes_careful hp length)
      fun _ _ h => Effect.of_consumed h.2.1 h.2.2
  | appendBytes bytes =>
    exact effect_of_careful (Pane.appendBytes_careful hp bytes)
      fun _ _ h => Effect.of_evolves rfl h.2
  | pokeZero index length =>
    exact effect_of_careful (Pane.pokeZero_careful hp index length)
      fun _ _ h => Effect.of_evolves rfl h.2
  | appendZero length =>
    exact effect_of_careful (Pane.appendZero_careful hp length)
      fun _ _ h => Effect.of_evolves rfl h.2
  | find start stop value =>
    exact effect_of_observes hp (Pane.find_observes hp start stop value)
  | peekText index length codec =>
    exact effect_of_observes hp (Pane.peekText_observes hp index length codec)
  | pokeText index text codec =>
    exact effect_of_careful (Pane.pokeText_careful hp index text codec)
      fun _ _ h => Effect.of_evolves rfl h.2
  | readText length codec =>
    exact effect_of_careful (Pane.readText_careful hp length codec)
      fun _ _ h => Effect.of_consumed h.1 h.2
  | appendText text codec =>
    exact effect_of_careful (Pane.appendText_careful hp text codec)
      fun _ _ h => Effect.of_evolves rfl h.2
  | contents => exact effect_of_observes hp (Pane.contents_observes hp)

/-- However a call ends, it stays inside of its window. -/
theorem run_evolves (hp : p.Sound) (call : Call) : p.Evolves (call.run p).2 :=
  (call.run_careful (T := Trap.never) hp).leads hp.evolves_refl fun _ _ h => h.1

/-- However a call ends that only reads, it leaves the bytes alone. -/
theorem run_block (hp : p.Sound) (call : Call) (hr : call.reads = true) :
    (call.run p).2.block = p.block :=
  (call.run_careful (T := Trap.never) hp).leads (L := fun p p' => p'.block = p.block) rfl
    fun _ _ h => h.2 hr

/-- Sequences of calls stay there, too. -/
theorem runAll_evolves (hp : p.Sound) (calls : List Call) : p.Evolves (runAll calls p).2 := by
  induction calls generalizing p with
  | nil => exact hp.evolves_refl
  | cons call rest ih =>
    have he := call.run_evolves hp
    exact he.trans (ih (hp.of_evolves he))

end Call

/-! ## Capture records -/

namespace CaptureRecord

theorem field_observes (hp : p.Sound) (index : Nat) :
    Action.Observes T (field index) p fun _ => p.Live ∧ index + 4 ≤ p.capacity :=
  (Pane.peekScalar_observes hp .uint32 index false).bind fun _ h =>
    Action.Observes.pure ⟨h.1, h.2.1⟩

theorem setField_careful (hp : p.Sound) (index : Nat) (value : BitVec 32) :
    Action.Careful T (setField index value) p fun _ p' => p.Live ∧ p.Evolves p' :=
  (Pane.pokeScalar_careful hp index _ false).mono fun _ _ h => ⟨h.1, h.2.2⟩

theorem setField_succeeds (hp : p.Sound) (hl : p.Live) {index : Nat} (value : BitVec 32)
    (h : index + 4 ≤ p.capacity) :
    Action.Succeeds (setField index value) p fun _ p' => p.Evolves p' := by
  refine (Pane.pokeScalar_succeeds hp hl h).mono ?_
  rintro _ _ rfl
  exact hp.evolves_overwrite (by rw [Scalar.length_bytes]; exact h)

theorem timestamp_observes (hp : p.Sound) :
    Action.Observes T timestamp p fun _ => p.Live ∧ microsAt + 4 ≤ p.capacity :=
  (field_observes hp secondsAt).bind fun _ _ => (field_observes hp microsAt).bind
    fun _ h => Action.Observes.pure h

theorem header_observes (hp : p.Sound) :
    Action.Observes T header p fun _ => p.Live ∧ size ≤ p.capacity :=
  (timestamp_observes hp).bind fun _ _ => (field_observes hp capturedAt).bind fun _ _ =>
    (field_observes hp wireAt).bind fun _ h => Action.Observes.pure h

/-- Both fields of a timestamp lie in a pane with the size of a record, so once the first one
was changed, the second one can be, too. -/
theorem setTimestamp_careful (hp : p.Sound) (hsize : p.capacity = size) (t : Timestamp) :
    Action.Careful T (setTimestamp t) p fun _ p' => p.Evolves p' := by
  refine Action.Observes.ofExcept.bind ?_
  intro fields _
  refine (setField_careful hp secondsAt fields.1).bind ?_
  rintro _ q ⟨hl, hq⟩
  have hroom : microsAt + 4 ≤ q.capacity := by
    rw [hq.capacity, hsize]
    decide
  exact (setField_succeeds (hp.of_evolves hq) (hl.of_evolves hq) fields.2 hroom).mono
    fun _ _ h => hq.trans h

end CaptureRecord

/-- Calls on a record are careful. -/
theorem RecordCall.run_careful (hp : p.Sound) (hsize : p.capacity = CaptureRecord.size)
    (call : RecordCall) : Action.Careful T call.run p fun _ p' => p.Evolves p' := by
  have refl := hp.evolves_refl
  cases call with
  | timestamp =>
    exact (CaptureRecord.timestamp_observes hp).bind fun _ _ => Action.Careful.pure refl
  | captured => exact (CaptureRecord.field_observes hp _).bind fun _ _ => Action.Careful.pure refl
  | wire => exact (CaptureRecord.field_observes hp _).bind fun _ _ => Action.Careful.pure refl
  | header => exact (CaptureRecord.header_observes hp).bind fun _ _ => Action.Careful.pure refl
  | setTimestamp value =>
    exact (CaptureRecord.setTimestamp_careful hp hsize value).bind
      fun _ _ h => Action.Succeeds.pure h
  | setCaptured value =>
    exact (CaptureRecord.setField_careful hp _ value).bind fun _ _ h => Action.Succeeds.pure h.2
  | setWire value =>
    exact (CaptureRecord.setField_careful hp _ value).bind fun _ _ h => Action.Succeeds.pure h.2

namespace CaptureInfo

theorem checkComplete_observes (header : CaptureInfo) :
    Action.Observes T header.checkComplete p fun _ =>
      header.captured.toNat = p.cursor.writer :=
  Action.Careful.state_bind Action.Observes.require

/-- The room for a whole record is checked at once; each of its four numbers leaves the room for
those behind it. -/
theorem write_careful (hp : p.Sound) (header : CaptureInfo) :
    Action.Careful T header.write p fun _ p' => p.Evolves p' := by
  refine Action.Observes.ofExcept.bind ?_
  intro fields _
  refine (Pane.checkWritable_observes hp CaptureRecord.size).bind ?_
  rintro _ ⟨hl, hroom⟩
  have append : ∀ {q : Pane} {value : BitVec 32} {room : Nat}, p.Evolves q →
      4 + room ≤ q.capacity - q.cursor.writer →
      Action.Succeeds (Pane.appendScalar (Scalar.ofWord value) false) q fun _ q' =>
        p.Evolves q' ∧ room ≤ q'.capacity - q'.cursor.writer := by
    intro q value room hq hroom
    exact (Pane.appendScalar_room (hp.of_evolves hq) (hl.of_evolves hq) hroom).mono
      fun _ _ h => ⟨hq.trans h.1, h.2⟩
  have hroom : 4 + (4 + (4 + (4 + 0))) ≤ p.capacity - p.cursor.writer := hroom
  -- behind the check of the room, none of the four steps can fail
  refine Action.Succeeds.careful ((append hp.evolves_refl hroom).bind fun _ q₁ h₁ => ?_)
  refine (append h₁.1 h₁.2).bind fun _ q₂ h₂ => (append h₂.1 h₂.2).bind ?_
  intro _ q₃ h₃
  exact (append h₃.1 h₃.2).mono fun _ _ h => h.1

end CaptureInfo

/-! ## Checks of overlays -/

namespace Check

/-- All calls of the check only read. -/
def Reads : Check → Prop
  | accept | refuse _ => True
  | call access next => access.reads = true ∧ ∀ r, (next r).Reads

theorem reads_number {type : ScalarType} {index : Nat} {next : Nat → Check}
    (h : ∀ n, (next n).Reads) : (number type index next).Reads := by
  refine ⟨rfl, ?_⟩
  intro r
  rcases r with _ | answer
  · exact trivial
  · exact h answer.number

theorem reads_insist {p : Prop} [Decidable p] {words : String} : (insist p words).Reads := by
  unfold insist
  split <;> exact trivial

section
variable {access : Call} {next : Except Failure Answer → Check}

/-- A check goes on with the answer of a call, from the pane that the call left. -/
theorem run_call_done {answer : Answer} (h : access.run p = (.done answer, p')) :
    (call access next).run p = (next (.ok answer)).run p' := by
  refine Action.bind_done (a := Except.ok answer) ?_
  rw [Action.attempt, h]

/-- A check goes on with the failure of a call. -/
theorem run_call_failed {failure : Failure} (h : access.run p = (.failed failure, p')) :
    (call access next).run p = (next (.error failure)).run p' := by
  refine Action.bind_done (a := Except.error failure) ?_
  rw [Action.attempt, h]

theorem run_call_trapped {trap : Trap} (h : access.run p = (.trapped trap, p')) :
    (call access next).run p = (.trapped trap, p') := by
  refine Action.bind_trapped ?_
  rw [Action.attempt, h]

end

/-- Whatever a check does, it stays inside of its window and comes to a decision; if it only
reads, the bytes stay what they were. -/
theorem run_evolves (check : Check) : ∀ {p : Pane}, p.Sound →
    p.Evolves (check.run p).2 ∧ (∀ t, (check.run p).1 ≠ .trapped t) ∧
      (check.Reads → (check.run p).2.block = p.block) := by
  induction check with
  | accept => exact fun hp => ⟨hp.evolves_refl, fun _ h => (nomatch h), fun _ => rfl⟩
  | refuse cause => exact fun hp => ⟨hp.evolves_refl, fun _ h => (nomatch h), fun _ => rfl⟩
  | call access next ih =>
    intro p hp
    have hcall := Call.run_careful (T := Trap.never) hp access
    rcases hrun : access.run p with ⟨answer | failure | trap, q⟩
    -- the check goes on from the pane that the call left, or from the old one
    · obtain ⟨hq, hblock⟩ := hcall.of_done hrun
      obtain ⟨he, ht, hb⟩ := ih (.ok answer) (hp.of_evolves hq)
      rw [run_call_done hrun]
      exact ⟨hq.trans he, ht, fun h => (hb (h.2 _)).trans (hblock h.1)⟩
    · obtain rfl := hcall.of_failed hrun
      obtain ⟨he, ht, hb⟩ := ih (.error failure) hp
      rw [run_call_failed hrun]
      exact ⟨he, ht, fun h => hb (h.2 _)⟩
    · exact (hcall.of_trapped hrun).1.elim

end Check

end PacketMemory
