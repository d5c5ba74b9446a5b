import PacketMemory.Cursor
import PacketMemory.Proofs.Contract

/-!
# Cursors within their bounds

`Cursor.InBounds` is the order that the operations of a cursor keep: the reader does not pass
the writer, the writer does not pass the capacity, and neither do the marks. The marks are in no
order with the indices, so coming back to one is a move that may be refused.

On such a cursor the unchecked arithmetic runs over nowhere: each operation is given here by
what it answers, or by a contract under which it moves the indices.
-/

namespace PacketMemory

namespace Cursor

/-- Reader, writer and capacity are in order, and the marks do not exceed the capacity. -/
structure InBounds (c : Cursor) (capacity : Nat) : Prop where
  reader_le : c.reader ≤ c.writer
  writer_le : c.writer ≤ capacity
  markedReader_le : c.markedReader ≤ capacity
  markedWriter_le : c.markedWriter ≤ capacity

theorem inBounds_empty (capacity : Nat) : empty.InBounds capacity :=
  ⟨Nat.le_refl _, Nat.zero_le _, Nat.zero_le _, Nat.zero_le _⟩

/-- A cursor with everything readable fills its capacity. -/
theorem inBounds_holding (length : Nat) : (holding length).InBounds length :=
  ⟨Nat.zero_le _, Nat.le_refl _, Nat.zero_le _, Nat.zero_le _⟩

/-- Cutting a cursor to a capacity brings it into the bounds of that capacity. -/
theorem InBounds.clampTo {c : Cursor} {capacity : Nat} (h : c.InBounds capacity) (other : Nat) :
    (c.clampTo other).InBounds other := by
  have hr := h.reader_le
  refine ⟨?_, Nat.min_le_right .., Nat.min_le_right .., Nat.min_le_right ..⟩
  simp only [Cursor.clampTo]
  omega

/-- A cursor within its bounds is not cut. -/
theorem InBounds.clampTo_self {c : Cursor} {capacity : Nat} (h : c.InBounds capacity) :
    c.clampTo capacity = c := by
  have hr := Nat.le_trans h.reader_le h.writer_le
  simp only [Cursor.clampTo, Nat.min_eq_left hr, Nat.min_eq_left h.writer_le,
    Nat.min_eq_left h.markedReader_le, Nat.min_eq_left h.markedWriter_le]

/-- Of several capacities that a cursor is cut to, the smallest one counts. -/
theorem clampTo_clampTo (c : Cursor) (capacity other : Nat) :
    (c.clampTo capacity).clampTo other = c.clampTo (min capacity other) := by
  simp only [clampTo, Nat.min_assoc]

variable {ε : Type} {T : Trap → Prop} {c : Cursor} {capacity length : Nat}

/-! ## Queries -/

/-- The reader is not behind the writer, so the difference does not run under. -/
theorem readable_apply (h : c.reader ≤ c.writer) :
    (readable : Action Cursor ε Nat) c = (.done (c.writer - c.reader), c) := by
  unfold readable
  rw [Action.state_bind_apply, Word.sub_of_le h, Action.pure_apply]

theorem writable_apply (h : c.writer ≤ capacity) :
    (writable capacity : Action Cursor ε Nat) c = (.done (capacity - c.writer), c) := by
  unfold writable
  rw [Action.state_bind_apply, Word.sub_of_le h, Action.pure_apply]

/-- Whether bytes can be read is answered truthfully, whatever their number. -/
theorem canRead_apply (h : c.reader ≤ c.writer) (length : Nat) :
    (canRead length : Action Cursor ε Bool) c =
      (.done (decide (length ≤ c.writer - c.reader)), c) := by
  unfold canRead
  rw [Action.bind_done (readable_apply h), Action.pure_apply]

theorem canWrite_apply (h : c.writer ≤ capacity) (length : Nat) :
    (canWrite length capacity : Action Cursor ε Bool) c =
      (.done (decide (length ≤ capacity - c.writer)), c) := by
  unfold canWrite
  rw [Action.bind_done (writable_apply h), Action.pure_apply]

theorem checkReadable_of_le (h : c.reader ≤ c.writer) (hl : length ≤ c.writer - c.reader) :
    checkReadable length c = (.done (), c) := by
  unfold checkReadable
  rw [Action.bind_done (canRead_apply h length), Action.state_bind_apply,
    Action.require_true (by simpa using hl), Action.pure_apply]

/-- The refusal names the reader, what was asked for, and the writer. -/
theorem checkReadable_of_lt (h : c.reader ≤ c.writer) (hl : c.writer - c.reader < length) :
    checkReadable length c = (.failed (.outOfBounds (.unreadable c.reader length c.writer)), c) := by
  unfold checkReadable
  rw [Action.bind_done (canRead_apply h length), Action.state_bind_apply,
    Action.require_false (by simpa using hl), Action.fail_apply]

theorem checkWritable_of_le (h : c.writer ≤ capacity) (hl : length ≤ capacity - c.writer) :
    checkWritable length capacity c = (.done (), c) := by
  unfold checkWritable
  rw [Action.bind_done (canWrite_apply h length), Action.state_bind_apply,
    Action.require_true (by simpa using hl), Action.pure_apply]

theorem checkWritable_of_lt (h : c.writer ≤ capacity) (hl : capacity - c.writer < length) :
    checkWritable length capacity c =
      (.failed (.outOfBounds (.unwritable c.writer length capacity)), c) := by
  unfold checkWritable
  rw [Action.bind_done (canWrite_apply h length), Action.state_bind_apply,
    Action.require_false (by simpa using hl), Action.fail_apply]

/-- A passed check says that so many bytes are readable. -/
theorem checkReadable_observes (h : c.reader ≤ c.writer) (length : Nat) :
    Action.Observes T (checkReadable length) c fun _ => length ≤ c.writer - c.reader := by
  refine Action.Careful.after (canRead_apply h length) (Action.Careful.state_bind ?_)
  exact Action.Observes.require.mono fun _ hp => of_decide_eq_true hp

theorem checkWritable_observes (h : c.writer ≤ capacity) (length : Nat) :
    Action.Observes T (checkWritable length capacity) c fun _ => length ≤ capacity - c.writer := by
  refine Action.Careful.after (canWrite_apply h length) (Action.Careful.state_bind ?_)
  exact Action.Observes.require.mono fun _ hp => of_decide_eq_true hp

/-! ## Moves with a check of their own -/

/-- The reader can be put anywhere up to the writer. -/
theorem seekReader_careful (h : c.InBounds capacity) (index : Nat) :
    Action.Careful T (seekReader index) c fun _ c' =>
      c' = { c with reader := index } ∧ c'.InBounds capacity := by
  refine Action.Careful.state_bind (Action.Observes.require.bind fun _ hi => ?_)
  exact Action.Succeeds.careful (Action.Succeeds.update
    ⟨rfl, hi, h.writer_le, h.markedReader_le, h.markedWriter_le⟩)

/-- The writer can be put anywhere from the reader to the capacity. -/
theorem seekWriter_careful (h : c.InBounds capacity) (index : Nat) :
    Action.Careful T (seekWriter index capacity) c fun _ c' =>
      c' = { c with writer := index } ∧ c'.InBounds capacity := by
  refine Action.Careful.state_bind (Action.Observes.require.bind fun _ hi => ?_)
  exact Action.Succeeds.careful (Action.Succeeds.update
    ⟨rfl, hi.1, hi.2, h.markedReader_le, h.markedWriter_le⟩)

/-- Both indices are put at once, so that neither is in the way of the other. -/
theorem seek_careful (h : c.InBounds capacity) (reader writer : Nat) :
    Action.Careful T (seek reader writer capacity) c fun _ c' =>
      c' = { c with reader := reader, writer := writer } ∧ c'.InBounds capacity := by
  refine Action.Observes.require.bind ?_
  intro _ hi
  exact Action.Succeeds.careful (Action.Succeeds.update
    ⟨rfl, hi.1, hi.2, h.markedReader_le, h.markedWriter_le⟩)

/-- A mark that other moves left out of bounds is not recalled. -/
theorem recallReader_careful (h : c.InBounds capacity) :
    Action.Careful T recallReader c fun _ c' =>
      c' = { c with reader := c.markedReader } ∧ c'.InBounds capacity :=
  Action.Careful.state_bind (seekReader_careful h _)

theorem recallWriter_careful (h : c.InBounds capacity) :
    Action.Careful T (recallWriter capacity) c fun _ c' =>
      c' = { c with writer := c.markedWriter } ∧ c'.InBounds capacity :=
  Action.Careful.state_bind (seekWriter_careful h _)

/-! ## Moves that rely on a check -/

/-- What is readable can be moved over, and the sum fits a machine word. -/
theorem consume_succeeds (h : c.InBounds capacity) (hw : capacity < Word.limit)
    (hl : length ≤ c.writer - c.reader) :
    Action.Succeeds (consume length : Action Cursor ε Unit) c fun _ c' =>
      c' = { c with reader := c.reader + length } ∧ c'.InBounds capacity := by
  have hr := h.reader_le
  have hc := h.writer_le
  have hsum : c.reader + length < Word.limit := by omega
  unfold consume
  refine ⟨(), { c with reader := c.reader + length }, ?_, rfl,
    by simp only; omega, hc, h.markedReader_le, h.markedWriter_le⟩
  rw [Action.bind_done (canRead_apply hr length), Action.assert_true (by simpa using hl),
    pure_bind, Action.state_bind_apply, Word.add_of_lt hsum, pure_bind, Action.update_apply]

/-- What there is room for can be moved over. -/
theorem produce_succeeds (h : c.InBounds capacity) (hw : capacity < Word.limit)
    (hl : length ≤ capacity - c.writer) :
    Action.Succeeds (produce length : Action Cursor ε Unit) c fun _ c' =>
      c' = { c with writer := c.writer + length } ∧ c'.InBounds capacity := by
  have hr := h.reader_le
  have hc := h.writer_le
  have hsum : c.writer + length < Word.limit := by omega
  unfold produce
  refine ⟨(), { c with writer := c.writer + length }, ?_, rfl,
    by simp only; omega, by simp only; omega, h.markedReader_le, h.markedWriter_le⟩
  rw [Action.state_bind_apply, Word.add_of_lt hsum, pure_bind, Action.update_apply]

theorem skip_careful (h : c.InBounds capacity) (hw : capacity < Word.limit) (length : Nat) :
    Action.Careful T (skip length) c fun _ c' =>
      c' = { c with reader := c.reader + length } ∧ c'.InBounds capacity :=
  (checkReadable_observes h.reader_le length).bind fun _ hl =>
    (consume_succeeds h hw hl).careful

/-- Compaction moves everything down by the reader, and marks no further than to the start. -/
theorem compact_succeeds (h : c.InBounds capacity) :
    Action.Succeeds (compact : Action Cursor ε Unit) c fun _ c' =>
      c' = ⟨0, c.writer - c.reader, c.markedReader - c.reader, c.markedWriter - c.reader⟩ ∧
        c'.InBounds capacity := by
  have hc := h.writer_le
  have hmr := h.markedReader_le
  have hmw := h.markedWriter_le
  unfold compact
  refine ⟨(), ⟨0, c.writer - c.reader, c.markedReader - c.reader, c.markedWriter - c.reader⟩, ?_,
    rfl, Nat.zero_le _, by simp only; omega, by simp only; omega, by simp only; omega⟩
  rw [Action.state_bind_apply, Word.sub_of_le h.reader_le, pure_bind, Action.update_apply]

end Cursor

end PacketMemory
