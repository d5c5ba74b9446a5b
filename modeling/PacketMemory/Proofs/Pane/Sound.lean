import PacketMemory.Pane.Relative
import PacketMemory.Proofs.Block
import PacketMemory.Proofs.Cursor

/-!
# Sound panes

A pane is sound if its cursor is within its window and its window within the block, as long as
there is one. On a sound pane the checks decide everything: behind a passed check, raw access
finds all of its bytes, and the cursor can be moved.

`Pane.Evolves` says how far a task may go: it may move the cursor and change bytes inside the
window, and nothing else. Its main statements are that overwriting bytes (`evolves_overwrite`)
and moving the cursor (`evolves_cursor`) go no further.
-/

namespace PacketMemory

namespace Pane

/-- The cursor is within the window, and the window within the block. -/
structure Sound (p : Pane) : Prop where
  cursor : p.cursor.InBounds p.capacity
  window : ∀ b, p.block = some b → p.offset + p.capacity ≤ b.length
  small : p.offset + p.capacity < Word.limit

/-- The pane `p'` is `p` with another cursor and byte order, and with other bytes in its window. -/
structure Evolves (p p' : Pane) : Prop where
  released : p'.released = p.released
  offset : p'.offset = p.offset
  capacity : p'.capacity = p.capacity
  cursor : p'.cursor.InBounds p.capacity
  size : p'.block.map List.length = p.block.map List.length
  outside : ∀ b b', p.block = some b → p'.block = some b' →
    ∀ i, i < p.offset ∨ p.offset + p.capacity ≤ i → b'[i]? = b[i]?

/-- The `length` bytes at `index` of the window. -/
def bytesAt (p : Pane) (index length : Nat) : List UInt8 :=
  ((p.block.getD []).drop (p.offset + index)).take length

/-- The pane with other bytes at `index` of the window. -/
def overwrite (p : Pane) (index : Nat) (bytes : List UInt8) : Pane :=
  { p with block := p.block.map fun b =>
      b.take (p.offset + index) ++ (bytes ++ b.drop (p.offset + index + bytes.length)) }

/-- The pane after `length` bytes were read. -/
def consumed (p : Pane) (length : Nat) : Pane :=
  { p with cursor := { p.cursor with reader := p.cursor.reader + length } }

/-- The pane after `length` bytes were written. -/
def produced (p : Pane) (length : Nat) : Pane :=
  { p with cursor := { p.cursor with writer := p.cursor.writer + length } }

variable {T : Trap → Prop} {p p' : Pane} {index length : Nat} {bytes : List UInt8}

/-! ## What evolves -/

/-- A pane that nothing happens to stays in its bounds. -/
theorem Sound.evolves_refl (hp : p.Sound) : p.Evolves p :=
  ⟨rfl, rfl, rfl, hp.cursor, rfl, fun b b' hb hb' i _ => by
    obtain rfl : b = b' := Option.some.inj (hb.symm.trans hb')
    rfl⟩

theorem Evolves.trans {q : Pane} (h : p.Evolves p') (h' : p'.Evolves q) : p.Evolves q := by
  refine ⟨h'.released.trans h.released, h'.offset.trans h.offset, h'.capacity.trans h.capacity,
    h.capacity ▸ h'.cursor, h'.size.trans h.size, ?_⟩
  intro b b' hb hb' i hi
  obtain ⟨c, hc⟩ : ∃ c, p'.block = some c := by
    rcases hc : p'.block with _ | c
    · have hs := h.size
      rw [hc, hb] at hs
      cases hs
    · exact ⟨c, rfl⟩
  rw [h'.outside c b' hc hb' i (by rw [h.offset, h.capacity]; exact hi),
    h.outside b c hb hc i hi]

/-- What a sound pane evolves into is sound. -/
theorem Sound.of_evolves (hp : p.Sound) (h : p.Evolves p') : p'.Sound := by
  refine ⟨h.capacity ▸ h.cursor, ?_, by rw [h.offset, h.capacity]; exact hp.small⟩
  intro b' hb'
  have hs := h.size
  rw [hb'] at hs
  obtain ⟨b, hb, hlen⟩ := Option.map_eq_some_iff.1 hs.symm
  rw [h.offset, h.capacity, ← hlen]
  exact hp.window b hb

/-- To evolve is neither to be released nor to lose the memory. -/
theorem Live.of_evolves (hl : p.Live) (h : p.Evolves p') : p'.Live := by
  refine ⟨h.released.trans hl.1, ?_⟩
  rw [← Option.isSome_map (f := List.length), h.size, Option.isSome_map]
  exact hl.2

/-- The cursor may go wherever its bounds let it. -/
theorem Sound.evolves_cursor (hp : p.Sound) {c : Cursor} (hc : c.InBounds p.capacity) :
    p.Evolves { p with cursor := c } :=
  { hp.evolves_refl with cursor := hc }

theorem Sound.evolves_order (hp : p.Sound) (order : ByteOrder) :
    p.Evolves { p with order := order } :=
  { hp.evolves_refl with }

/-- Overwriting bytes of the window leaves the bytes outside of it alone. -/
theorem Sound.evolves_overwrite (hp : p.Sound) (h : index + bytes.length ≤ p.capacity) :
    p.Evolves (p.overwrite index bytes) := by
  refine ⟨rfl, rfl, rfl, hp.cursor, ?_, ?_⟩
  · unfold overwrite
    rcases hb : p.block with _ | b
    · rfl
    · have hw := hp.window b hb
      simp
      omega
  · intro b b' hb hb' i hi
    have hw := hp.window b hb
    have hb' : some (b.take (p.offset + index) ++
        (bytes ++ b.drop (p.offset + index + bytes.length))) = some b' := by
      rw [← hb']
      unfold overwrite
      rw [hb]
      rfl
    obtain rfl := Option.some.inj hb'
    exact Block.overwrite_outside (by omega) (by omega)

/-! ## Checks -/

theorem checkLive_observes : Action.Observes T checkLive p fun _ => p.Live :=
  Action.Careful.state_bind Action.Observes.require

/-- **A range that is accepted lies in the window**, and the memory is live. -/
theorem checkRange_observes (hp : p.Sound) (index length : Nat) :
    Action.Observes T (checkRange index length) p fun _ =>
      p.Live ∧ index + length ≤ p.capacity := by
  have hs := hp.small
  by_cases hl : p.Live
  · -- that the sum may not fit a word makes no difference
    rcases Nat.lt_or_ge p.capacity (index + length) with h | h
    · exact Action.Stays.of_apply_failed (checkRange_of_lt hl h) rfl
    · exact Action.Stays.of_apply_done (checkRange_of_le hl (by omega) h) ⟨rfl, hl, h⟩
  · exact Action.Stays.of_apply_failed (checkRange_of_not_live hl index length) rfl

theorem onCursor_apply {α : Type} {m : Action Cursor Failure α} {a : α} {c : Cursor}
    (h : m p.cursor = (.done a, c)) : onCursor m p = (.done a, { p with cursor := c }) := by
  unfold onCursor
  rw [Action.within_apply, h]

/-- A question to the cursor. -/
theorem onCursor_query {α : Type} {m : Action Cursor Failure α} {a : α}
    (h : m p.cursor = (.done a, p.cursor)) : onCursor m p = (.done a, p) :=
  onCursor_apply h

/-- What the cursor does to itself is all that it does to the pane. -/
theorem onCursor_careful {α : Type} {m : Action Cursor Failure α} {P : α → Cursor → Prop}
    (h : Action.Careful T m p.cursor P) :
    Action.Careful T (onCursor m) p fun a p' => ∃ c, P a c ∧ p' = { p with cursor := c } :=
  Action.Careful.within rfl h fun _ c hc => ⟨c, hc, rfl⟩

theorem onCursor_observes {α : Type} {m : Action Cursor Failure α} {R : α → Prop}
    (h : Action.Observes T m p.cursor R) : Action.Observes T (onCursor m) p R :=
  Action.Careful.within rfl h fun _ _ hc => ⟨by rw [hc.1], hc.2⟩

/-- A passed check of the cursor answers the reader, and so many bytes are readable there. -/
theorem readingAt_observes (hp : p.Sound) (length : Nat) :
    Action.Observes T (readingAt length) p fun index =>
      p.Live ∧ length ≤ p.cursor.writer - p.cursor.reader ∧ index = p.cursor.reader := by
  refine checkLive_observes.bind ?_
  intro _ hl
  refine (onCursor_observes (Cursor.checkReadable_observes hp.cursor.reader_le length)).bind
    fun _ hr => ?_
  exact Action.Careful.state_bind (Action.Observes.pure ⟨hl, hr, rfl⟩)

theorem writingAt_of_le (hp : p.Sound) (hl : p.Live) (h : length ≤ p.capacity - p.cursor.writer) :
    writingAt length p = (.done p.cursor.writer, p) := by
  unfold writingAt
  rw [Action.bind_done (checkLive_of_live hl), Action.state_bind_apply,
    Action.bind_done (onCursor_query (Cursor.checkWritable_of_le hp.cursor.writer_le h)),
    Action.pure_apply]

theorem writingAt_observes (hp : p.Sound) (length : Nat) :
    Action.Observes T (writingAt length) p fun index =>
      p.Live ∧ length ≤ p.capacity - p.cursor.writer ∧ index = p.cursor.writer := by
  refine checkLive_observes.bind fun _ hl => Action.Careful.state_bind ?_
  refine (onCursor_observes (Cursor.checkWritable_observes hp.cursor.writer_le length)).bind
    fun _ hr => ?_
  exact Action.Observes.pure ⟨hl, hr, rfl⟩

/-! ## Raw access -/

/-- Behind a passed check, a raw read finds all of its bytes. -/
theorem fetch_apply (hp : p.Sound) (hl : p.Live) (h : index + length ≤ p.capacity) :
    fetch index length p = (.done (p.bytesAt index length), p) := by
  obtain ⟨b, hb⟩ := Option.isSome_iff_exists.1 hl.2
  rw [fetch_of_le hb h (hp.window b hb), bytesAt, hb, Option.getD_some]

/-- Behind a passed check, a raw write falls into the block. -/
theorem put_succeeds (hp : p.Sound) (hl : p.Live) (h : index + bytes.length ≤ p.capacity) :
    Action.Succeeds (put index bytes) p fun _ p' => p' = p.overwrite index bytes := by
  obtain ⟨b, hb⟩ := Option.isSome_iff_exists.1 hl.2
  refine ⟨(), _, put_of_le hb h (hp.window b hb), ?_⟩
  rw [overwrite, hb, Option.map_some]

/-- The bytes of a range that lies in the window of a live pane. -/
theorem length_bytesAt (hp : p.Sound) (hl : p.Live) (h : index + length ≤ p.capacity) :
    (p.bytesAt index length).length = length := by
  obtain ⟨b, hb⟩ := Option.isSome_iff_exists.1 hl.2
  have hw := hp.window b hb
  rw [bytesAt, hb, Option.getD_some, List.length_take, List.length_drop]
  omega

/-- The bytes of a range, byte by byte. -/
theorem getElem?_bytesAt {b : Block} (hb : p.block = some b) {k : Nat} (hk : k < length) :
    (p.bytesAt index length)[k]? = b[p.offset + index + k]? := by
  rw [bytesAt, hb, Option.getD_some, List.getElem?_take_of_lt hk, List.getElem?_drop]

/-! ## Moves of the cursor -/

theorem consume_succeeds (hp : p.Sound) (h : length ≤ p.cursor.writer - p.cursor.reader) :
    Action.Succeeds (onCursor (Cursor.consume length)) p fun _ p' => p' = p.consumed length := by
  have hs := hp.small
  refine Action.Succeeds.within (Cursor.consume_succeeds hp.cursor (by omega) h) ?_
  rintro _ c ⟨rfl, -⟩
  rfl

theorem produce_succeeds (hp : p.Sound) (h : length ≤ p.capacity - p.cursor.writer) :
    Action.Succeeds (onCursor (Cursor.produce length)) p fun _ p' => p' = p.produced length := by
  have hs := hp.small
  refine Action.Succeeds.within (Cursor.produce_succeeds hp.cursor (by omega) h) ?_
  rintro _ c ⟨rfl, -⟩
  rfl

/-- The reader moves no further than to the writer. -/
theorem Sound.evolves_consumed (hp : p.Sound) (h : length ≤ p.cursor.writer - p.cursor.reader) :
    p.Evolves (p.consumed length) := by
  have hr := hp.cursor.reader_le
  exact hp.evolves_cursor ⟨by simp only; omega, hp.cursor.writer_le, hp.cursor.markedReader_le,
    hp.cursor.markedWriter_le⟩

theorem Sound.evolves_produced (hp : p.Sound) (h : length ≤ p.capacity - p.cursor.writer) :
    p.Evolves (p.produced length) := by
  have hr := hp.cursor.reader_le
  have hw := hp.cursor.writer_le
  exact hp.evolves_cursor ⟨by simp only; omega, by simp only; omega, hp.cursor.markedReader_le,
    hp.cursor.markedWriter_le⟩

/-- Writing behind the written bytes. -/
theorem Sound.evolves_appended (hp : p.Sound) (h : bytes.length ≤ p.capacity - p.cursor.writer) :
    p.Evolves ((p.overwrite p.cursor.writer bytes).produced bytes.length) := by
  have hw := hp.cursor.writer_le
  have hover : p.Evolves (p.overwrite p.cursor.writer bytes) := hp.evolves_overwrite (by omega)
  exact hover.trans ((hp.of_evolves hover).evolves_produced h)

end Pane

end PacketMemory
