import PacketMemory.Proofs.Pane.Calls

/-!
# Which parts of a handle a call moves

Besides the bytes, a handle has the parts that `Part` lists. `Call.moves` says which of them a call
may change: access at an index changes none, access at the cursor the index at which it works, and
only the removal of read bytes changes all indices and marks.

`Call.keeps` says that all the others stay what they were, whatever the call ends with. Nothing else
is needed for this than that each step keeps them (`Action.Keeps`).
-/

namespace PacketMemory

/-- What belongs to a handle besides the bytes that it sees. -/
inductive Part where
  | reader | writer | markedReader | markedWriter | order | offset | capacity
  deriving DecidableEq, Repr

namespace Part

/-- The values that a part can have. -/
def Value : Part → Type
  | order => ByteOrder
  | _ => Nat

/-- This part of what a handle sees. -/
def of (p : Pane) : (part : Part) → part.Value
  | reader => p.cursor.reader
  | writer => p.cursor.writer
  | markedReader => p.cursor.markedReader
  | markedWriter => p.cursor.markedWriter
  | order => p.order
  | offset => p.offset
  | capacity => p.capacity

/-- All parts but these. -/
def others (moved : List Part) (p : Pane) (part : { part : Part // part ∉ moved }) :
    part.val.Value :=
  of p part.val

variable {p p' : Pane} {moved moved' : List Part}

/-- Two panes agree on everything else iff they agree on each part that is not moved. -/
theorem others_eq_iff : others moved p' = others moved p ↔ ∀ part ∉ moved, of p' part = of p part :=
  ⟨fun h part hpart => congrFun h ⟨part, hpart⟩, fun h => funext fun part => h part.1 part.2⟩

/-- The bytes are no such part. -/
theorem others_block (p : Pane) (b : Option Block) :
    others moved { p with block := b } = others moved p :=
  others_eq_iff.2 fun part _ => by cases part <;> rfl

theorem others_order (h : order ∈ moved) (p : Pane) (o : ByteOrder) :
    others moved { p with order := o } = others moved p :=
  others_eq_iff.2 fun part hpart => by
    cases part <;> first | rfl | exact absurd h hpart

theorem others_reader (h : reader ∈ moved) (p : Pane) (c : Cursor) (r : Nat) :
    others moved { p with cursor := { c with reader := r } } =
      others moved { p with cursor := c } :=
  others_eq_iff.2 fun part hpart => by
    cases part <;> first | rfl | exact absurd h hpart

theorem others_writer (h : writer ∈ moved) (p : Pane) (c : Cursor) (i : Nat) :
    others moved { p with cursor := { c with writer := i } } =
      others moved { p with cursor := c } :=
  others_eq_iff.2 fun part hpart => by
    cases part <;> first | rfl | exact absurd h hpart

theorem others_markedReader (h : markedReader ∈ moved) (p : Pane) (c : Cursor) (r : Nat) :
    others moved { p with cursor := { c with markedReader := r } } =
      others moved { p with cursor := c } :=
  others_eq_iff.2 fun part hpart => by
    cases part <;> first | rfl | exact absurd h hpart

theorem others_markedWriter (h : markedWriter ∈ moved) (p : Pane) (c : Cursor) (i : Nat) :
    others moved { p with cursor := { c with markedWriter := i } } =
      others moved { p with cursor := c } :=
  others_eq_iff.2 fun part hpart => by
    cases part <;> first | rfl | exact absurd h hpart

end Part

/-- The indices and marks of a cursor. -/
def Cursor.all : List Part := [.reader, .writer, .markedReader, .markedWriter]

/-- The parts that a call may change. -/
def Call.moves : Call → List Part
  | setOrder _ => [.order]
  | seekReader _ | recallReader | skip _ | readScalar .. | readFlag | readBytes _ | readText .. =>
    [.reader]
  | seekWriter _ | recallWriter | appendScalar .. | appendFlag _ | appendBytes _ | appendZero _
  | appendText .. => [.writer]
  | seek .. | rewind => [.reader, .writer]
  | saveReader => [.markedReader]
  | saveWriter => [.markedWriter]
  | compact => Cursor.all
  | _ => []

/-! ## Cursors -/

namespace Cursor

open PacketMemory.Action

variable {ε ρ : Type} {g : Cursor → ρ} {length capacity : Nat}

/-- Arithmetic touches no part. -/
theorem keeps_sub (a b : Nat) : Keeps g (Word.sub a b : Action Cursor ε Nat) := by
  unfold Word.sub
  split
  · exact .pure _
  · exact .trap _

theorem keeps_canRead : Keeps g (canRead length : Action Cursor ε Bool) :=
  (Keeps.look fun _ => keeps_sub _ _).answer _

theorem keeps_canWrite : Keeps g (canWrite length capacity : Action Cursor ε Bool) :=
  (Keeps.look fun _ => keeps_sub _ _).answer _

/-- A check of the cursor moves nothing. -/
theorem keeps_checkReadable : Keeps g (checkReadable length) :=
  keeps_canRead.bind fun _ => .look fun _ => .require _ _

theorem keeps_checkWritable : Keeps g (checkWritable length capacity) :=
  keeps_canWrite.bind fun _ => .look fun _ => .require _ _

/-- Nothing is said of the reader. -/
theorem keeps_seekReader (hg : ∀ c r, g { c with reader := r } = g c) (index : Nat) :
    Keeps g (seekReader index) :=
  .look fun _ => (Keeps.require _ _).bind fun _ => .update fun c => hg c _

theorem keeps_consume (hg : ∀ c r, g { c with reader := r } = g c) :
    Keeps g (consume length : Action Cursor ε Unit) :=
  keeps_canRead.bind fun _ => (Keeps.assert _ _).bind fun _ => .look fun _ =>
    (Keeps.expect _ _).bind fun _ => .update fun c => hg c _

/-- Nothing is said of the writer. -/
theorem keeps_seekWriter (hg : ∀ c w, g { c with writer := w } = g c) (index : Nat) :
    Keeps g (seekWriter index capacity) :=
  .look fun _ => (Keeps.require _ _).bind fun _ => .update fun c => hg c _

theorem keeps_produce (hg : ∀ c w, g { c with writer := w } = g c) :
    Keeps g (produce length : Action Cursor ε Unit) :=
  .look fun _ => (Keeps.expect _ _).bind fun _ => .update fun c => hg c _

/-- Nothing is said of any index. -/
theorem keeps_compact (hg : ∀ c c', g c' = g c) : Keeps g (compact : Action Cursor ε Unit) :=
  .look fun _ => (keeps_sub _ _).bind fun _ => .update fun c => hg c _

end Cursor

/-! ## Panes -/

namespace Pane

open PacketMemory.Action

variable {α ρ : Type} {g : Pane → ρ} {index length : Nat}

/-- Of a pane, the cursor can only change what the cursor keeps. -/
theorem keeps_onCursor {m : Action Cursor Failure α}
    (hm : ∀ p : Pane, Keeps (fun c => g { p with cursor := c }) m) : Keeps g (onCursor m) :=
  fun p => hm p p.cursor

theorem keeps_checkLive : Keeps g checkLive := .look fun _ => .require _ _

theorem keeps_checkRange : Keeps g (checkRange index length) :=
  keeps_checkLive.bind fun _ => .look fun _ => by
    dsimp only
    split
    · exact .fail _
    · split
      · exact .pure ()
      · exact .fail _

theorem keeps_readingAt : Keeps g (readingAt length) :=
  keeps_checkLive.bind fun _ => (keeps_onCursor fun _ => Cursor.keeps_checkReadable).bind fun _ =>
    .look fun _ => .pure _

theorem keeps_writingAt : Keeps g (writingAt length) :=
  keeps_checkLive.bind fun _ => .look fun _ =>
    (keeps_onCursor fun _ => Cursor.keeps_checkWritable).answer _

/-- Reading bytes moves nothing. -/
theorem keeps_fetch : Keeps g (fetch index length) :=
  .look fun _ => (Keeps.assert _ _).bind fun _ => (Keeps.expect _ _).bind fun _ => .expect _ _

/-- Nothing is said of the bytes. -/
theorem keeps_put (hg : ∀ p b, g { p with block := b } = g p) (bytes : List UInt8) :
    Keeps g (put index bytes) :=
  .look fun _ => (Keeps.assert _ _).bind fun _ => (Keeps.expect _ _).bind fun _ =>
    (Keeps.expect _ _).bind fun _ => .update fun p => hg p _

theorem keeps_peekBytes : Keeps g (peekBytes index length) :=
  keeps_checkRange.bind fun _ => keeps_fetch

/-- Nor does making a number of them. -/
theorem keeps_peekScalar {type : ScalarType} {reversed : Bool} :
    Keeps g (peekScalar type index reversed) :=
  Keeps.bind (.look fun _ => .pure _) fun _ => keeps_checkRange.bind fun _ => keeps_fetch.answer _

theorem keeps_peekText {codec : Codec} : Keeps g (peekText index length codec) :=
  keeps_peekBytes.bind fun _ => .ofExcept _

/-- A search moves nothing, either. -/
theorem keeps_find {start stop : Nat} {value : UInt8} : Keeps g (find start stop value) :=
  keeps_checkRange.bind fun _ => keeps_fetch.bind fun _ => by
    dsimp only
    split
    · exact .pure none
    · exact (Keeps.expect _ _).answer _

theorem keeps_readable : Keeps g readable :=
  keeps_onCursor fun _ => .look fun _ => Cursor.keeps_sub _ _

theorem keeps_contents : Keeps g contents :=
  keeps_readable.bind fun _ => .look fun _ => keeps_peekBytes

/-- A move of the cursor of live memory. -/
theorem keeps_move (m : Action Cursor Failure α)
    (hm : ∀ p : Pane, Keeps (fun c => g { p with cursor := c }) m) :
    Keeps g (checkLive >>= fun _ => onCursor m) :=
  keeps_checkLive.bind fun _ => keeps_onCursor hm

/-- A move that depends on the capacity. -/
theorem keeps_moveWithin (m : Nat → Action Cursor Failure α)
    (hm : ∀ (p : Pane) (capacity : Nat), Keeps (fun c => g { p with cursor := c }) (m capacity)) :
    Keeps g (checkLive >>= fun _ => state >>= fun q => onCursor (m q.capacity)) :=
  keeps_checkLive.bind fun _ => .look fun q => keeps_onCursor fun p => hm p q.capacity

/-- Reading moves the reader only. -/
theorem keeps_read (hg : ∀ (p : Pane) c r,
      g { p with cursor := { c with reader := r } } = g { p with cursor := c })
    {peek : Nat → Task α} (hpeek : ∀ index, Keeps g (peek index)) :
    Keeps g (do
      let index ← readingAt length
      let a ← peek index
      onCursor (Cursor.consume length)
      Pure.pure a) :=
  keeps_readingAt.bind fun index => (hpeek index).bind fun a =>
    (keeps_onCursor fun p => Cursor.keeps_consume (hg p)).answer fun _ => a

/-- Writing moves the writer only. -/
theorem keeps_append (hg : ∀ (p : Pane) c i,
      g { p with cursor := { c with writer := i } } = g { p with cursor := c })
    {poke : Nat → Task Unit} (hpoke : ∀ index, Keeps g (poke index)) :
    Keeps g (do
      let index ← writingAt length
      poke index
      onCursor (Cursor.produce length)) :=
  keeps_writingAt.bind fun index => (hpoke index).bind fun _ =>
    keeps_onCursor fun p => Cursor.keeps_produce (hg p)

section Writing

variable (hg : ∀ p b, g { p with block := b } = g p)
include hg

theorem keeps_pokeBytes (bytes : List UInt8) : Keeps g (pokeBytes index bytes) :=
  keeps_checkRange.bind fun _ => keeps_put hg bytes

theorem keeps_pokeZero : Keeps g (pokeZero index length) :=
  keeps_checkRange.bind fun _ => keeps_put hg _

theorem keeps_pokeScalar (value : Scalar) (reversed : Bool) :
    Keeps g (pokeScalar index value reversed) :=
  Keeps.bind (.look fun _ => .pure _) fun _ => keeps_checkRange.bind fun _ => keeps_put hg _

theorem keeps_pokeText (text : String) (codec : Codec) : Keeps g (pokeText index text codec) :=
  (Keeps.ofExcept _).bind fun bytes => (keeps_pokeBytes hg bytes).answer fun _ => bytes.length

/-- Nothing is said of any index. -/
theorem keeps_compact (hc : ∀ (p : Pane) c c',
    g { p with cursor := c' } = g { p with cursor := c }) : Keeps g compact := by
  have hmove : Keeps g (onCursor (Cursor.compact : Action Cursor Failure Unit)) :=
    keeps_onCursor fun p => Cursor.keeps_compact (hc p)
  refine keeps_checkLive.bind fun _ => .look fun _ => ?_
  split
  · exact keeps_readable.bind fun _ => keeps_fetch.bind fun _ => (keeps_put hg _).bind fun _ => hmove
  · exact hmove

end Writing

end Pane

/-! ## Calls -/

namespace Call

open PacketMemory.Action Pane

/-- **A call changes no part of its handle but those that it moves.** -/
theorem keeps (call : Call) : Keeps (Part.others call.moves) call.run := by
  have block : ∀ {moved : List Part} (p : Pane) b,
    Part.others moved { p with block := b } = Part.others moved p := Part.others_block
  have reader := Part.others_reader (List.mem_singleton_self Part.reader)
  have writer := Part.others_writer (List.mem_singleton_self Part.writer)
  -- the reader and the writer at once
  have both : ∀ (p : Pane) c r i, Part.others [.reader, .writer]
      { p with cursor := { c with reader := r, writer := i } } =
      Part.others [.reader, .writer] { p with cursor := c } := fun p c r i =>
    (Part.others_reader (by decide) p { c with writer := i } r).trans
      (Part.others_writer (by decide) p c i)
  cases call with
  | setOrder order =>
    exact (Keeps.update fun p =>
      Part.others_order (List.mem_singleton_self Part.order) p order).answer _
  | seekReader index =>
    exact (keeps_move _ fun p => Cursor.keeps_seekReader (reader p) index).answer _
  | seekWriter index =>
    exact (keeps_moveWithin (Cursor.seekWriter index) fun p _ =>
      Cursor.keeps_seekWriter (writer p) index).answer _
  | seek r i =>
    exact (keeps_moveWithin (Cursor.seek r i) fun p _ => (Keeps.require _ _).bind fun _ =>
      .update fun c => both p c r i).answer _
  | rewind => exact (keeps_move _ fun p => .update fun c => both p c 0 0).answer _
  | saveReader =>
    exact (keeps_move _ fun p => .update fun c =>
      Part.others_markedReader (List.mem_singleton_self Part.markedReader) p c c.reader).answer _
  | recallReader =>
    exact (keeps_move _ fun p => .look fun c =>
      Cursor.keeps_seekReader (reader p) c.markedReader).answer _
  | saveWriter =>
    exact (keeps_move _ fun p => .update fun c =>
      Part.others_markedWriter (List.mem_singleton_self Part.markedWriter) p c c.writer).answer _
  | recallWriter =>
    exact (keeps_moveWithin Cursor.recallWriter fun p _ => .look fun c =>
      Cursor.keeps_seekWriter (writer p) c.markedWriter).answer _
  | skip length =>
    exact (keeps_move _ fun p => Cursor.keeps_checkReadable.bind fun _ =>
      Cursor.keeps_consume (reader p)).answer _
  | compact =>
    have any : ∀ (p : Pane) c c', Part.others Cursor.all { p with cursor := c' } =
        Part.others Cursor.all { p with cursor := c } := fun p c c' =>
      Part.others_eq_iff.2 fun part hpart => by
        cases part <;> first | rfl | exact absurd (by decide) hpart
    exact (keeps_compact block any).answer _
  | checkWritable length =>
    exact (keeps_moveWithin (Cursor.checkWritable length) fun _ _ =>
      Cursor.keeps_checkWritable).answer _
  | canRead length => exact (keeps_onCursor fun _ => Cursor.keeps_canRead).answer _
  | canWrite length =>
    exact Keeps.answer (.look fun _ => keeps_onCursor fun _ => Cursor.keeps_canWrite) _
  | room =>
    exact keeps_readable.bind fun _ => Keeps.answer (.look fun _ => keeps_onCursor fun _ =>
      .look fun _ => Cursor.keeps_sub _ _) _
  | peekScalar type index reversed => exact keeps_peekScalar.answer _
  | pokeScalar index value reversed => exact (keeps_pokeScalar block value reversed).answer _
  | readScalar type reversed => exact (keeps_read reader fun _ => keeps_peekScalar).answer _
  | appendScalar value reversed =>
    exact (keeps_append writer fun _ => keeps_pokeScalar block value reversed).answer _
  | peekFlag index => exact (keeps_peekScalar.answer _).answer _
  | pokeFlag index value => exact (keeps_pokeScalar block _ false).answer _
  | readFlag => exact ((keeps_read reader fun _ => keeps_peekScalar).answer _).answer _
  | appendFlag value => exact (keeps_append writer fun _ => keeps_pokeScalar block _ false).answer _
  | peekBytes index length => exact keeps_peekBytes.answer _
  | pokeBytes index bytes => exact (keeps_pokeBytes block bytes).answer _
  | readBytes length => exact (keeps_read reader fun _ => keeps_peekBytes).answer _
  | appendBytes bytes => exact (keeps_append writer fun _ => keeps_pokeBytes block bytes).answer _
  | pokeZero index length => exact (keeps_pokeZero block).answer _
  | appendZero length => exact (keeps_append writer fun _ => keeps_pokeZero block).answer _
  | find start stop value => exact keeps_find.answer _
  | peekText index length codec => exact keeps_peekText.answer _
  | pokeText index text codec => exact (keeps_pokeText block text codec).answer _
  | readText length codec => exact (keeps_read reader fun _ => keeps_peekText).answer _
  | appendText text codec =>
    exact Keeps.answer ((Keeps.ofExcept _).bind fun bytes =>
      (keeps_append writer fun _ => keeps_pokeBytes block bytes).answer fun _ => bytes.length) _
  | contents => exact keeps_contents.answer _

end Call

/-! ## Capture records -/

open PacketMemory.Action Pane

/-- A call on a record changes no part of its handle. -/
theorem RecordCall.keeps (call : RecordCall) : Keeps (Part.others []) call.run := by
  have field : ∀ index, Keeps (Part.others []) (CaptureRecord.field index) := fun _ =>
    keeps_peekScalar.answer _
  have setField : ∀ index value, Keeps (Part.others []) (CaptureRecord.setField index value) :=
    fun _ _ => keeps_pokeScalar Part.others_block _ false
  have timestamp : Keeps (Part.others []) CaptureRecord.timestamp :=
    (field _).bind fun _ => (field _).answer _
  cases call with
  | timestamp => exact timestamp.answer _
  | captured => exact (field _).answer _
  | wire => exact (field _).answer _
  | header =>
    exact Keeps.answer (timestamp.bind fun _ => (field _).bind fun _ => (field _).answer _) _
  | setTimestamp value =>
    exact Keeps.answer ((Keeps.ofExcept _).bind fun _ => (setField _ _).bind fun _ =>
      setField _ _) _
  | setCaptured value => exact (setField _ _).answer _
  | setWire value => exact (setField _ _).answer _

/-- Writing a record moves the writer only. -/
theorem CaptureInfo.keeps_write (info : CaptureInfo) :
    Keeps (Part.others [.writer]) info.write := by
  have append : ∀ value : Scalar, Keeps (Part.others [.writer]) (appendScalar value false) :=
    fun value => keeps_append (Part.others_writer (List.mem_singleton_self _)) fun _ =>
      keeps_pokeScalar Part.others_block value false
  have room := keeps_moveWithin (g := Part.others [.writer])
    (Cursor.checkWritable CaptureRecord.size) fun _ _ => Cursor.keeps_checkWritable
  exact (Keeps.ofExcept _).bind fun _ => room.bind fun _ => (append _).bind fun _ =>
    (append _).bind fun _ => (append _).bind fun _ => append _

end PacketMemory
