import PacketMemory.Proofs.Pane.Calls
import PacketMemory.Proofs.Scalar

/-!
# Sequential access, exactly

What access at the cursor comes to on live memory, as equations. `Pane.appended` is the pane after
bytes were written behind the written ones; bytes that are appended one after the other might as well
have been appended at once (`appended_appended`), are there afterwards (`bytesAt_appended`) and leave
everything else as it was (`appended_outside`).

An access with room enough succeeds (`append_apply`, `read_apply`), and one without room is refused
before it does anything (`append_refused`).
-/

namespace PacketMemory

namespace Pane

variable {α : Type} {p : Pane} {index length : Nat} {bytes xs ys : List UInt8}

/-- The pane after these bytes were written behind the written ones. -/
def appended (p : Pane) (bytes : List UInt8) : Pane :=
  (p.overwrite p.cursor.writer bytes).produced bytes.length

/-- The pane `p'` is `p` with these bytes written behind the written ones, and perhaps with another
byte order. -/
structure Extends (p : Pane) (bytes : List UInt8) (p' : Pane) : Prop where
  released : p'.released = p.released
  offset : p'.offset = p.offset
  capacity : p'.capacity = p.capacity
  cursor : p'.cursor = { p.cursor with writer := p.cursor.writer + bytes.length }
  size : p'.block.map List.length = p.block.map List.length
  written : p'.bytesAt p.cursor.writer bytes.length = bytes
  outside : ∀ b b', p.block = some b → p'.block = some b' →
    ∀ i, i < p.offset + p.cursor.writer ∨ p.offset + p.cursor.writer + bytes.length ≤ i →
      b'[i]? = b[i]?

/-! ## Overwritten bytes -/

/-- **What was put is there.** -/
theorem bytesAt_overwrite (hp : p.Sound) (hl : p.Live) (h : index ≤ p.capacity) :
    (p.overwrite index bytes).bytesAt index bytes.length = bytes := by
  obtain ⟨b, hb⟩ := Option.isSome_iff_exists.1 hl.2
  have hw := hp.window b hb
  have hstart : p.offset + index ≤ b.length := by omega
  simp only [bytesAt, overwrite, hb, Option.map_some, Option.getD_some]
  exact Block.overwrite_slice hstart

/-- The bytes of the block in front of what was put, and behind it, are the old ones. -/
theorem overwrite_outside {b b' : Block} (hp : p.Sound) (hb : p.block = some b)
    (hb' : (p.overwrite index bytes).block = some b') (h : index ≤ p.capacity) {i : Nat}
    (hi : i < p.offset + index ∨ p.offset + index + bytes.length ≤ i) : b'[i]? = b[i]? := by
  have hw := hp.window b hb
  simp only [overwrite, hb, Option.map_some, Option.some.injEq] at hb'
  rw [← hb']
  exact Block.overwrite_outside (by omega) hi

/-- What lies apart from overwritten bytes is what it was. -/
theorem bytesAt_overwrite_apart (hp : p.Sound) (hl : p.Live) (h : index ≤ p.capacity) {other : Nat}
    (hi : other + length ≤ index ∨ index + bytes.length ≤ other) :
    (p.overwrite index bytes).bytesAt other length = p.bytesAt other length := by
  obtain ⟨b, hb⟩ := Option.isSome_iff_exists.1 hl.2
  have hw := hp.window b hb
  simp only [bytesAt, overwrite, hb, Option.map_some, Option.getD_some]
  exact Block.window_eq_iff.2 fun i _ _ => Block.overwrite_outside (by omega) (by omega)

/-- Bytes that are put one behind the other. -/
theorem overwrite_behind (hp : p.Sound) (h : index + xs.length ≤ p.capacity) (ys : List UInt8) :
    (p.overwrite index xs).overwrite (index + xs.length) ys = p.overwrite index (xs ++ ys) := by
  have hwindow := hp.window
  rcases p with ⟨_ | b, released, offset, capacity, cursor, order⟩
  · rfl
  · have hw := hwindow b rfl
    have hfit : offset + index + xs.length ≤ b.length := by
      simp only at hw h
      omega
    have hboth := Block.overwrite_overwrite hfit ys
    simp only [overwrite, Option.map_some, ← Nat.add_assoc] at hboth ⊢
    rw [hboth]

/-- Bytes that are put apart from each other, in either order. -/
theorem overwrite_comm (hp : p.Sound) {other : Nat} (h : index + xs.length ≤ other)
    (ho : other ≤ p.capacity) (ys : List UInt8) :
    (p.overwrite index xs).overwrite other ys = (p.overwrite other ys).overwrite index xs := by
  have hwindow := hp.window
  rcases p with ⟨_ | b, released, offset, capacity, cursor, order⟩
  · rfl
  · have hw := hwindow b rfl
    have ho : offset + other ≤ b.length := by
      simp only at hw ho
      omega
    have hapart : offset + index + xs.length ≤ offset + other := by omega
    have hboth := Block.overwrite_comm hapart ho ys
    simp only [overwrite, Option.map_some] at hboth ⊢
    rw [hboth]

/-! ## Appended bytes -/

theorem appended_nil (p : Pane) : p.appended [] = p := by
  rcases p with ⟨_ | b, released, offset, capacity, cursor, order⟩
  · rfl
  · simp [appended, overwrite, produced]

/-- **Bytes that are appended one after the other** might as well have been appended at once. -/
theorem appended_appended (hp : p.Sound) (h : xs.length ≤ p.capacity - p.cursor.writer)
    (ys : List UInt8) :
    (p.appended xs).appended ys = p.appended (xs ++ ys) := by
  have hwriter := hp.cursor.writer_le
  have hfit : p.cursor.writer + xs.length ≤ p.capacity := by omega
  calc (p.appended xs).appended ys
      = (((p.overwrite p.cursor.writer xs).overwrite (p.cursor.writer + xs.length) ys).produced
          xs.length).produced ys.length := rfl
    _ = ((p.overwrite p.cursor.writer (xs ++ ys)).produced xs.length).produced ys.length := by
        rw [overwrite_behind hp hfit]
    _ = p.appended (xs ++ ys) := by
        simp only [appended, produced, List.length_append, Nat.add_assoc]

/-- What was appended is there. -/
theorem bytesAt_appended (hp : p.Sound) (hl : p.Live) :
    (p.appended bytes).bytesAt p.cursor.writer bytes.length = bytes :=
  bytesAt_overwrite hp hl hp.cursor.writer_le

/-- Nothing but the room behind the writer changes. -/
theorem appended_outside {b b' : Block} (hp : p.Sound) (hb : p.block = some b)
    (hb' : (p.appended bytes).block = some b') {i : Nat}
    (hi : i < p.offset + p.cursor.writer ∨ p.offset + p.cursor.writer + bytes.length ≤ i) :
    b'[i]? = b[i]? :=
  overwrite_outside hp hb hb' hp.cursor.writer_le hi

/-- The written bytes are extended by what is appended, whatever the byte order is by then. -/
theorem Sound.extends_appended (hp : p.Sound) (hl : p.Live)
    (h : bytes.length ≤ p.capacity - p.cursor.writer) (order : ByteOrder) :
    p.Extends bytes { p.appended bytes with order := order } where
  released := rfl
  offset := rfl
  capacity := rfl
  cursor := rfl
  size := (hp.evolves_appended h).size
  written := bytesAt_appended hp hl
  outside _ _ hb hb' _ hi := appended_outside hp hb hb' hi

/-- The bytes of a range, part by part. -/
theorem bytesAt_add (p : Pane) (index m n : Nat) :
    p.bytesAt index (m + n) = p.bytesAt index m ++ p.bytesAt (index + m) n := by
  simp only [bytesAt, List.take_add, List.drop_drop, Nat.add_assoc]

/-! ## Reading what is there -/

/-- The reader can be put wherever something is written. -/
theorem seekReader_apply (hl : p.Live) (h : index ≤ p.cursor.writer) :
    seekReader index p = (.done (), { p with cursor := { p.cursor with reader := index } }) := by
  have hm : Cursor.seekReader index p.cursor = (.done (), { p.cursor with reader := index }) := by
    unfold Cursor.seekReader
    rw [Action.state_bind_apply, Action.require_true h, pure_bind, Action.update_apply]
  exact (Action.bind_done (checkLive_of_live hl)).trans (onCursor_apply hm)

/-- The reader is not put behind the writer. -/
theorem seekReader_refused (hl : p.Live) (h : ¬index ≤ p.cursor.writer) :
    seekReader index p = (.failed (.outOfBounds (.reader index p.cursor.writer)), p) := by
  refine (Action.bind_done (checkLive_of_live hl)).trans ?_
  rw [onCursor, Action.within_apply, Cursor.seekReader, Action.state_bind_apply,
    Action.require_false h]
  rfl

theorem readingAt_of_le (hp : p.Sound) (hl : p.Live)
    (h : length ≤ p.cursor.writer - p.cursor.reader) :
    readingAt length p = (.done p.cursor.reader, p) := by
  unfold readingAt
  rw [Action.bind_done (checkLive_of_live hl),
    Action.bind_done (onCursor_query (Cursor.checkReadable_of_le hp.cursor.reader_le h)),
    Action.state_bind_apply, Action.pure_apply]

/-- What is not readable is refused, with the reader, what was asked for, and the writer. -/
theorem readingAt_of_lt (hp : p.Sound) (hl : p.Live)
    (h : p.cursor.writer - p.cursor.reader < length) :
    readingAt length p =
      (.failed (.outOfBounds (.unreadable p.cursor.reader length p.cursor.writer)), p) := by
  refine (Action.bind_done (checkLive_of_live hl)).trans (Action.bind_failed ?_)
  rw [onCursor, Action.within_apply, Cursor.checkReadable_of_lt hp.cursor.reader_le h]

theorem consume_apply (hp : p.Sound) (h : length ≤ p.cursor.writer - p.cursor.reader) :
    onCursor (Cursor.consume length) p = (.done (), p.consumed length) := by
  obtain ⟨_, _, hrun, rfl⟩ := consume_succeeds hp h
  exact hrun

/-- **Bytes in the window of live memory are read.** -/
theorem peekBytes_apply (hp : p.Sound) (hl : p.Live) (h : index + length ≤ p.capacity) :
    peekBytes index length p = (.done (p.bytesAt index length), p) := by
  have hs := hp.small
  exact (Action.bind_done (checkRange_of_le hl (by omega) h)).trans (fetch_apply hp hl h)

theorem peekScalar_apply (hp : p.Sound) (hl : p.Live) (type : ScalarType)
    (h : index + type.size ≤ p.capacity) (reversed : Bool) :
    peekScalar type index reversed p =
      (.done (Scalar.ofBytes type (p.orderFor reversed) (p.bytesAt index type.size)), p) := by
  have hs := hp.small
  refine (Action.bind_done (effectiveOrder_apply reversed)).trans ?_
  refine (Action.bind_done (checkRange_of_le hl (by omega) h)).trans ?_
  exact Action.bind_done (fetch_apply hp hl h)

theorem pokeScalar_apply (hp : p.Sound) (hl : p.Live) {v : Scalar}
    (h : index + v.type.size ≤ p.capacity) (reversed : Bool) :
    pokeScalar index v reversed p =
      (.done (), p.overwrite index (v.bytes (p.orderFor reversed))) := by
  obtain ⟨_, _, hrun, rfl⟩ : Action.Succeeds (pokeScalar index v reversed) p _ :=
    pokeScalar_succeeds hp hl h
  exact hrun

/-- Bytes that are a text are read as this text. -/
theorem peekText_apply (hp : p.Sound) (hl : p.Live) (h : index + length ≤ p.capacity)
    {codec : Codec} {text : String} (hd : codec.decode (p.bytesAt index length) = .ok text) :
    peekText index length codec p = (.done text, p) := by
  refine (Action.bind_done (peekBytes_apply hp hl h)).trans ?_
  rw [hd]
  rfl

/-- **What is readable is read**, and the reader moves over it. -/
theorem read_apply {peek : Nat → Task α} {a : α} (hp : p.Sound) (hl : p.Live)
    (h : length ≤ p.cursor.writer - p.cursor.reader)
    (hpeek : p.cursor.reader + length ≤ p.capacity → peek p.cursor.reader p = (.done a, p)) :
    (do
      let index ← readingAt length
      let a ← peek index
      onCursor (Cursor.consume length)
      pure a : Task α) p = (.done a, p.consumed length) := by
  have hr := hp.cursor.reader_le
  have hw := hp.cursor.writer_le
  refine (Action.bind_done (readingAt_of_le hp hl h)).trans ?_
  refine (Action.bind_done (hpeek (by omega))).trans ?_
  exact Action.bind_done (consume_apply hp h)

theorem readBytes_apply (hp : p.Sound) (hl : p.Live)
    (h : length ≤ p.cursor.writer - p.cursor.reader) :
    readBytes length p = (.done (p.bytesAt p.cursor.reader length), p.consumed length) := by
  have hpeek (hfit : p.cursor.reader + length ≤ p.capacity) :
      (peekBytes · length) p.cursor.reader p = (.done (p.bytesAt p.cursor.reader length), p) :=
    peekBytes_apply hp hl hfit
  exact read_apply hp hl h hpeek

/-- The contents of live memory are always there. -/
theorem contents_apply (hp : p.Sound) (hl : p.Live) :
    contents p =
      (.done (p.bytesAt p.cursor.reader (p.cursor.writer - p.cursor.reader)), p) := by
  have hreader := hp.cursor.reader_le
  have hwriter := hp.cursor.writer_le
  refine (Action.bind_done (onCursor_query (Cursor.readable_apply hreader))).trans ?_
  exact peekBytes_apply hp hl (by omega)

/-! ## Appending where there is room -/

theorem writingAt_of_lt (hp : p.Sound) (hl : p.Live) (h : p.capacity - p.cursor.writer < length) :
    writingAt length p =
      (.failed (.outOfBounds (.unwritable p.cursor.writer length p.capacity)), p) := by
  refine (Action.bind_done (checkLive_of_live hl)).trans ?_
  rw [Action.state_bind_apply]
  refine Action.bind_failed ?_
  rw [onCursor, Action.within_apply, Cursor.checkWritable_of_lt hp.cursor.writer_le h]

/-- **What there is room for is appended.** -/
theorem append_apply (poke : Nat → Task Unit) (bytes : List UInt8) (hp : p.Sound) (hl : p.Live)
    (h : bytes.length ≤ p.capacity - p.cursor.writer)
    (hpoke : p.cursor.writer + bytes.length ≤ p.capacity →
      Action.Succeeds (poke p.cursor.writer) p fun _ p' =>
        p' = p.overwrite p.cursor.writer bytes) :
    (do
      let index ← writingAt bytes.length
      poke index
      onCursor (Cursor.produce bytes.length) : Task Unit) p = (.done (), p.appended bytes) := by
  obtain ⟨_, _, hrun, rfl, -⟩ := append_succeeds poke bytes hp hl h hpoke
  exact hrun

/-- **What there is no room for is refused**, and nothing of it is written. -/
theorem append_refused (poke : Nat → Task Unit) (hp : p.Sound) (hl : p.Live)
    (h : p.capacity - p.cursor.writer < length) :
    (do
      let index ← writingAt length
      poke index
      onCursor (Cursor.produce length) : Task Unit) p =
      (.failed (.outOfBounds (.unwritable p.cursor.writer length p.capacity)), p) :=
  Action.bind_failed (writingAt_of_lt hp hl h)

theorem appendBytes_apply (hp : p.Sound) (hl : p.Live)
    (h : bytes.length ≤ p.capacity - p.cursor.writer) :
    appendBytes bytes p = (.done (), p.appended bytes) :=
  append_apply (pokeBytes · bytes) bytes hp hl h fun h => pokeBytes_succeeds hp hl h

theorem appendZero_apply (hp : p.Sound) (hl : p.Live)
    (h : length ≤ p.capacity - p.cursor.writer) :
    appendZero length p = (.done (), p.appended (List.replicate length 0)) := by
  have hrun := append_apply (pokeZero · length) (List.replicate length 0) hp hl
    (by rw [List.length_replicate]; exact h)
    fun h => pokeZero_succeeds hp hl (by rw [List.length_replicate] at h; exact h)
  rw [List.length_replicate] at hrun
  exact hrun

/-- A number is appended as its bytes, in the byte order of the handle or in the opposite one. -/
theorem appendScalar_apply (hp : p.Sound) (hl : p.Live) (value : Scalar) (reversed : Bool)
    (h : value.type.size ≤ p.capacity - p.cursor.writer) :
    appendScalar value reversed p =
      (.done (), p.appended (value.bytes (p.orderFor reversed))) := by
  have hrun := append_apply (pokeScalar · value reversed) (value.bytes (p.orderFor reversed)) hp hl
    (by rw [Scalar.length_bytes]; exact h)
    fun h => pokeScalar_succeeds hp hl (by rw [Scalar.length_bytes] at h; exact h)
  rw [Scalar.length_bytes] at hrun
  exact hrun

/-- A number goes behind bytes that were appended before. -/
theorem appendScalar_appended (hp : p.Sound) (hl : p.Live) {value : Scalar}
    (h : xs.length + value.type.size ≤ p.capacity - p.cursor.writer) :
    appendScalar value false (p.appended xs) =
      (.done (), p.appended (xs ++ value.bytes p.order)) := by
  have hfit : xs.length ≤ p.capacity - p.cursor.writer := Nat.le_trans (Nat.le_add_right _ _) h
  have he : p.Evolves (p.appended xs) := hp.evolves_appended hfit
  have hroom : value.type.size ≤ p.capacity - (p.cursor.writer + xs.length) := by omega
  have hrun := appendScalar_apply (hp.of_evolves he) (hl.of_evolves he) value false hroom
  exact hrun.trans (Prod.ext rfl (appended_appended hp hfit _))

end Pane

end PacketMemory
