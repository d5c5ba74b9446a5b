import PacketMemory.Proofs.Pane.Sequential

/-!
# Calls on released memory

Most calls ask first whether the memory is live. On a pane that is not, they come to nothing:
`Call.run_of_not_live`, `RecordCall.run_of_not_live` and `CaptureInfo.write_of_not_live` say so, and
with which failure, since what concerns the arguments alone (a text, a timestamp) is looked at before
the memory. The calls that do not need the memory at all change at most the byte order
(`Call.run_idle`).
-/

namespace PacketMemory

namespace Pane

/-- The pane `p'` is `p` with another byte order. -/
def Idle (p p' : Pane) : Prop := ∃ order, p' = { p with order := order }

theorem Idle.refl (p : Pane) : p.Idle p := ⟨p.order, rfl⟩

variable {α : Type} {p p' : Pane}

/-- A task that asks first whether the memory is live. -/
theorem guarded_of_not_live (h : ¬p.Live) (m : Unit → Task α) :
    (checkLive >>= m) p = (.failed .memoryAccess, p) :=
  Action.bind_failed (checkLive_of_not_live h)

/-- What a range is refused with. What does not fit live memory is out of bounds. -/
def rangeRefusal (p : Pane) (index length : Nat) : Failure :=
  if p.Live ∧ p.capacity < index + length then
    .outOfBounds (.range index length p.capacity)
  else .memoryAccess

/-- What a request for readable bytes is refused with. -/
def readingRefusal (p : Pane) (length : Nat) : Failure :=
  if p.Live ∧ p.cursor.writer - p.cursor.reader < length then
    .outOfBounds (.unreadable p.cursor.reader length p.cursor.writer)
  else .memoryAccess

/-- What a request for room is refused with. -/
def writingRefusal (p : Pane) (length : Nat) : Failure :=
  if p.Live ∧ p.capacity - p.cursor.writer < length then
    .outOfBounds (.unwritable p.cursor.writer length p.capacity)
  else .memoryAccess

/-- A check that asks first whether the memory is live. -/
theorem cases_of_check {m : Task α} {a : α} {e : Failure} {lacks : Prop} [Decidable lacks]
    (hdone : p.Live → ¬lacks → m p = (.done a, p))
    (hlacks : p.Live → lacks → m p = (.failed e, p))
    (hgone : ¬p.Live → m p = (.failed .memoryAccess, p)) :
    (p.Live ∧ ¬lacks ∧ m p = (.done a, p)) ∨
      m p = (.failed (if p.Live ∧ lacks then e else .memoryAccess), p) := by
  by_cases hl : p.Live
  · by_cases h : lacks
    · rw [if_pos ⟨hl, h⟩]
      exact .inr (hlacks hl h)
    · exact .inl ⟨hl, h, hdone hl h⟩
  · rw [if_neg fun h => hl h.1]
    exact .inr (hgone hl)

theorem readingAt_of_not_live (h : ¬p.Live) (length : Nat) :
    readingAt length p = (.failed .memoryAccess, p) := guarded_of_not_live h _

theorem writingAt_of_not_live (h : ¬p.Live) (length : Nat) :
    writingAt length p = (.failed .memoryAccess, p) := guarded_of_not_live h _

/-- A range is accepted iff the memory is live and the range fits. -/
theorem checkRange_cases (hp : p.Sound) (index length : Nat) :
    (p.Live ∧ index + length ≤ p.capacity ∧ checkRange index length p = (.done (), p)) ∨
    checkRange index length p = (.failed (p.rangeRefusal index length), p) := by
  have hs := hp.small
  rw [rangeRefusal, ← Nat.not_lt]
  exact cases_of_check (fun hl h => checkRange_of_le hl (by omega) (Nat.le_of_not_lt h))
    (fun hl h => checkRange_of_lt hl h) fun hn => checkRange_of_not_live hn index length

/-- Where to read is answered iff the memory is live and so many bytes are readable. -/
theorem readingAt_cases (hp : p.Sound) (length : Nat) :
    (p.Live ∧ length ≤ p.cursor.writer - p.cursor.reader ∧
      readingAt length p = (.done p.cursor.reader, p)) ∨
    readingAt length p = (.failed (p.readingRefusal length), p) := by
  rw [readingRefusal, ← Nat.not_lt]
  exact cases_of_check (fun hl h => readingAt_of_le hp hl (Nat.le_of_not_lt h))
    (readingAt_of_lt hp) fun hn => readingAt_of_not_live hn length

/-- Where to write is answered iff the memory is live and there is room. -/
theorem writingAt_cases (hp : p.Sound) (length : Nat) :
    (p.Live ∧ length ≤ p.capacity - p.cursor.writer ∧
      writingAt length p = (.done p.cursor.writer, p)) ∨
    writingAt length p = (.failed (p.writingRefusal length), p) := by
  rw [writingRefusal, ← Nat.not_lt]
  exact cases_of_check (fun hl h => writingAt_of_le hp hl (Nat.le_of_not_lt h))
    (writingAt_of_lt hp) fun hn => writingAt_of_not_live hn length

/-- What is wrong with a range is told exactly: the range if the memory is live, and otherwise the
memory. -/
theorem checkRange_refused (hp : p.Sound) {index length : Nat}
    (h : ¬(p.Live ∧ index + length ≤ p.capacity)) :
    checkRange index length p = (.failed (p.rangeRefusal index length), p) :=
  (checkRange_cases hp index length).resolve_left fun hfit => h ⟨hfit.1, hfit.2.1⟩

theorem readingAt_refused (hp : p.Sound) {length : Nat}
    (h : ¬(p.Live ∧ length ≤ p.cursor.writer - p.cursor.reader)) :
    readingAt length p = (.failed (p.readingRefusal length), p) :=
  (readingAt_cases hp length).resolve_left fun hfit => h ⟨hfit.1, hfit.2.1⟩

theorem writingAt_refused (hp : p.Sound) {length : Nat}
    (h : ¬(p.Live ∧ length ≤ p.capacity - p.cursor.writer)) :
    writingAt length p = (.failed (p.writingRefusal length), p) :=
  (writingAt_cases hp length).resolve_left fun hfit => h ⟨hfit.1, hfit.2.1⟩

theorem rangeRefusal_of_not_live (h : ¬p.Live) (index length : Nat) :
    p.rangeRefusal index length = .memoryAccess := if_neg fun hlacks => h hlacks.1

theorem rangeRefusal_of_le {index length : Nat} (h : index + length ≤ p.capacity) :
    p.rangeRefusal index length = .memoryAccess := if_neg fun hlacks => Nat.not_le_of_lt hlacks.2 h

theorem readingRefusal_of_le {length : Nat} (h : length ≤ p.cursor.writer - p.cursor.reader) :
    p.readingRefusal length = .memoryAccess := if_neg fun hlacks => Nat.not_le_of_lt hlacks.2 h

theorem writingRefusal_of_not_live (h : ¬p.Live) (length : Nat) :
    p.writingRefusal length = .memoryAccess := if_neg fun hlacks => h hlacks.1

theorem peekBytes_of_not_live (h : ¬p.Live) (index length : Nat) :
    peekBytes index length p = (.failed .memoryAccess, p) :=
  Action.bind_failed (checkRange_of_not_live h index length)

theorem pokeBytes_of_not_live (h : ¬p.Live) (index : Nat) (bytes : List UInt8) :
    pokeBytes index bytes p = (.failed .memoryAccess, p) :=
  Action.bind_failed (checkRange_of_not_live h index bytes.length)

theorem peekScalar_of_not_live (h : ¬p.Live) (type : ScalarType) (index : Nat) (reversed : Bool) :
    peekScalar type index reversed p = (.failed .memoryAccess, p) := by
  refine (Action.bind_done (effectiveOrder_apply reversed)).trans ?_
  exact Action.bind_failed (checkRange_of_not_live h index type.size)

theorem pokeScalar_of_not_live (h : ¬p.Live) (index : Nat) (value : Scalar) (reversed : Bool) :
    pokeScalar index value reversed p = (.failed .memoryAccess, p) := by
  refine (Action.bind_done (effectiveOrder_apply reversed)).trans ?_
  exact Action.bind_failed (checkRange_of_not_live h index value.type.size)

/-- There are no contents of released memory, not even if nothing is readable. -/
theorem contents_of_not_live (hp : p.Sound) (h : ¬p.Live) :
    contents p = (.failed .memoryAccess, p) := by
  refine (Action.bind_done (onCursor_query (Cursor.readable_apply hp.cursor.reader_le))).trans ?_
  rw [Action.state_bind_apply]
  exact peekBytes_of_not_live h _ _

end Pane

/-- The failure of a text that a codec refuses, or else of the access that would follow. -/
def Codec.refusal (codec : Codec) (text : String) : Failure :=
  match codec.encode text with
  | .ok _ => .memoryAccess
  | .error cause => .codec codec.name cause

/-- The failure of a timestamp that no record can hold, or else of the access that would
follow. -/
def Timestamp.refusal (t : Timestamp) : Failure :=
  match t.fields with
  | .ok _ => .memoryAccess
  | .error failure => failure

variable {p : Pane}

namespace Call

/-- Calls that do not need the memory to be live. -/
def idle : Call → Bool
  | setOrder _ | canRead _ | canWrite _ | room => true
  | _ => false

/-- What a call that needs the memory fails with if it is not live. -/
def refusal : Call → Failure
  | pokeText _ text codec | appendText text codec => codec.refusal text
  | _ => .memoryAccess

/-- A text is encoded before anything else. -/
theorem encoded_bind {α : Type} {m : List UInt8 → Pane.Task α} (text : String) (codec : Codec)
    (hm : ∀ bytes, m bytes p = (.failed .memoryAccess, p)) :
    (Pane.encoded text codec >>= m) p = (.failed (codec.refusal text), p) := by
  simp only [Pane.encoded, Codec.refusal]
  cases codec.encode text with
  | error cause => rfl
  | ok bytes => exact hm bytes

/-- **Calls on released memory fail**, and nothing changes. -/
theorem run_of_not_live (hp : p.Sound) (h : ¬p.Live) (call : Call) (hcall : call.idle = false) :
    call.run p = (.failed call.refusal, p) := by
  cases call with
  | setOrder | canRead | canWrite | room => cases hcall
  | seekReader | seekWriter | seek | rewind | saveReader | recallReader | saveWriter
  | recallWriter | skip | compact | checkWritable =>
    exact Action.bind_failed (Pane.guarded_of_not_live h _)
  | peekBytes index length => exact Action.bind_failed (Pane.peekBytes_of_not_live h index length)
  | pokeBytes index bytes => exact Action.bind_failed (Pane.pokeBytes_of_not_live h index bytes)
  | pokeZero index length | find start stop value =>
    exact Action.bind_failed (Action.bind_failed (Pane.checkRange_of_not_live h _ _))
  | peekScalar type index reversed =>
    exact Action.bind_failed (Pane.peekScalar_of_not_live h type index reversed)
  | peekFlag index =>
    exact Action.bind_failed (Action.bind_failed (Pane.peekScalar_of_not_live h _ index false))
  | pokeScalar index value reversed =>
    exact Action.bind_failed (Pane.pokeScalar_of_not_live h index value reversed)
  | pokeFlag index value =>
    exact Action.bind_failed (Pane.pokeScalar_of_not_live h index _ false)
  | peekText index length codec =>
    exact Action.bind_failed (Action.bind_failed (Pane.peekBytes_of_not_live h index length))
  | readScalar | readBytes | readText =>
    exact Action.bind_failed (Action.bind_failed (Pane.readingAt_of_not_live h _))
  | readFlag =>
    exact Action.bind_failed (Action.bind_failed
      (Action.bind_failed (Pane.readingAt_of_not_live h _)))
  | appendScalar | appendFlag | appendBytes | appendZero =>
    exact Action.bind_failed (Action.bind_failed (Pane.writingAt_of_not_live h _))
  | pokeText index text codec =>
    exact Action.bind_failed (encoded_bind text codec fun bytes =>
      Action.bind_failed (Pane.pokeBytes_of_not_live h index bytes))
  | appendText text codec =>
    exact Action.bind_failed (encoded_bind text codec fun bytes =>
      Action.bind_failed (Action.bind_failed (Pane.writingAt_of_not_live h _)))
  | contents => exact Action.bind_failed (Pane.contents_of_not_live hp h)

/-- Calls on released memory change at most the byte order. -/
theorem run_idle (hp : p.Sound) (h : ¬p.Live) (call : Call) : p.Idle (call.run p).2 := by
  cases hcall : call.idle with
  | false =>
    rw [run_of_not_live hp h call hcall]
    exact .refl p
  | true =>
    have looks : ∀ {call : Call}, Action.Observes Trap.never call.run p (fun _ => True) →
        p.Idle (call.run p).2 := fun hlook => by
      rw [hlook.state_eq]
      exact .refl p
    have hreadable := Cursor.readable_apply (ε := Failure) hp.cursor.reader_le
    have hwritable := Cursor.writable_apply (ε := Failure) hp.cursor.writer_le
    cases call with
    | setOrder order => exact ⟨order, rfl⟩
    | canRead length =>
      exact looks (Action.Careful.after
        (Pane.onCursor_query (Cursor.canRead_apply hp.cursor.reader_le length))
        (Action.Observes.pure trivial))
    | canWrite length =>
      exact looks (Action.Careful.after
        (Pane.onCursor_query (Cursor.canWrite_apply hp.cursor.writer_le length))
        (Action.Observes.pure trivial))
    | room =>
      exact looks (Action.Careful.after (Pane.onCursor_query hreadable)
        (Action.Careful.after (Pane.onCursor_query hwritable) (Action.Observes.pure trivial)))
    | _ => cases hcall

end Call

/-! ## Records -/

/-- What a call on a record fails with if the memory is not live. -/
def RecordCall.refusal : RecordCall → Failure
  | setTimestamp value => value.refusal
  | _ => .memoryAccess

/-- A timestamp is converted before anything else. -/
theorem Timestamp.fields_bind {α : Type} {m : BitVec 32 × BitVec 32 → Pane.Task α} (t : Timestamp)
    (hm : ∀ fields, m fields p = (.failed .memoryAccess, p)) :
    (Action.ofExcept t.fields >>= m) p = (.failed t.refusal, p) := by
  simp only [Timestamp.refusal]
  cases t.fields with
  | error failure => rfl
  | ok fields => exact hm fields

/-- Calls on a record of released memory fail, and nothing changes. -/
theorem RecordCall.run_of_not_live (h : ¬p.Live) (call : RecordCall) :
    call.run p = (.failed call.refusal, p) := by
  have hfield : ∀ index, CaptureRecord.field index p = (.failed .memoryAccess, p) := fun index =>
    Action.bind_failed (Pane.peekScalar_of_not_live h .uint32 index false)
  have hset : ∀ index value, CaptureRecord.setField index value p = (.failed .memoryAccess, p) :=
    fun index value => Pane.pokeScalar_of_not_live h index _ false
  cases call with
  | timestamp => exact Action.bind_failed (Action.bind_failed (hfield _))
  | captured | wire => exact Action.bind_failed (hfield _)
  | header => exact Action.bind_failed (Action.bind_failed (Action.bind_failed (hfield _)))
  | setTimestamp value =>
    exact Action.bind_failed (value.fields_bind fun fields => Action.bind_failed (hset _ _))
  | setCaptured value | setWire value => exact Action.bind_failed (hset _ value)

/-- Nor can a record be appended to released memory. -/
theorem CaptureInfo.write_of_not_live (h : ¬p.Live) (header : CaptureInfo) :
    header.write p = (.failed header.timestamp.refusal, p) :=
  header.timestamp.fields_bind fun _ => Action.bind_failed (Pane.guarded_of_not_live h _)

end PacketMemory
