import PacketMemory.Call

/-!
# A window is like the bytes in it

`Pane.extract` takes the bytes of a window out of their block and makes a block of their own of
them. No call can tell the difference: it comes to the same on the extract as on the window, and
what it leaves there is the extract of what it leaves here (`Call.runAll_extract`).

`Pane.Local` says this of a task. Tasks that look only at what window and extract have in common are
local (`Pane.Local.look`), so are the two raw accesses (`Pane.local_fetch`, `Pane.local_put`), and
sequences of local tasks are (`Pane.Local.bind`).
-/

namespace PacketMemory

/-- Bytes that are put into a block fall into a window of it where they fall into the bytes of the
window. -/
theorem Block.window_write {b bytes : List UInt8} {offset capacity index : Nat}
    (hw : offset + capacity ≤ b.length) (h : index + bytes.length ≤ capacity) :
    ((b.take (offset + index) ++
      (bytes ++ b.drop (offset + index + bytes.length))).drop offset).take capacity =
    ((b.drop offset).take capacity).take index ++
      (bytes ++ ((b.drop offset).take capacity).drop (index + bytes.length)) := by
  have hstart : (b.take (offset + index)).drop offset = (b.drop offset).take index := by
    rw [List.drop_take, Nat.add_sub_cancel_left]
  have hlen : ((b.drop offset).take index).length = index := by
    rw [List.length_take, List.length_drop]
    omega
  rw [List.drop_append_of_le_length (by rw [List.length_take]; omega), hstart, List.take_append,
    hlen, List.take_append, List.take_of_length_le (by omega : _ ≤ capacity),
    List.take_of_length_le (by omega : bytes.length ≤ capacity - index), List.take_take,
    Nat.min_eq_left (by omega : index ≤ capacity), List.drop_take, List.drop_drop]
  congr 3
  · omega
  · rw [Nat.add_assoc]

namespace Pane

/-- The bytes of the window, as a pane of their own. -/
def extract (p : Pane) : Pane :=
  { p with block := p.block.map fun b => (b.drop p.offset).take p.capacity, offset := 0 }

/-- The window lies in the block, if there is one. -/
def Fits (p : Pane) : Prop := ∀ b, p.block = some b → p.offset + p.capacity ≤ b.length

/-- The task comes to the same on the bytes of a window as on the window, and keeps the window in the
block. -/
def Local {α : Type} (m : Task α) : Prop :=
  ∀ p : Pane, p.Fits → m p.extract = ((m p).1, (m p).2.extract) ∧ (m p).2.Fits

variable {α β : Type} {m : Task α} {f : α → Task β}

/-! ## Sequences -/

theorem Local.pure (a : α) : Local (pure a : Task α) := fun _ hp => ⟨rfl, hp⟩

theorem Local.fail (e : Failure) : Local (Action.fail e : Task α) := fun _ hp => ⟨rfl, hp⟩

theorem Local.trap (t : Trap) : Local (Action.trap t : Task α) := fun _ hp => ⟨rfl, hp⟩

/-- A sequence is local if its steps are, whatever the answer in between. -/
theorem Local.bind (hm : Local m) (hf : ∀ a, Local (f a)) : Local (m >>= f) := by
  intro p hp
  obtain ⟨he, hp'⟩ := hm p hp
  rcases hrun : m p with ⟨a | e | t, p'⟩ <;> rw [hrun] at he hp'
  · rw [Action.bind_done hrun, Action.bind_done he]
    exact hf a p' hp'
  · rw [Action.bind_failed hrun, Action.bind_failed he]
    exact ⟨rfl, hp'⟩
  · rw [Action.bind_trapped hrun, Action.bind_trapped he]
    exact ⟨rfl, hp'⟩

/-- Only the answer is changed. -/
theorem Local.answer (hm : Local m) (g : α → β) : Local (m >>= fun a => Pure.pure (g a)) :=
  hm.bind fun a => .pure (g a)

/-- What follows a look at what window and extract have in common. -/
theorem Local.look {f : Pane → Task β} (hsame : ∀ p, f p.extract = f p) (hf : ∀ p, Local (f p)) :
    Local (Action.state >>= f) := by
  intro p hp
  rw [Action.state_bind_apply, Action.state_bind_apply, hsame]
  exact hf p p hp

theorem Local.require (P : Prop) [Decidable P] (e : Failure) :
    Local (Action.require P e : Task Unit) := by
  by_cases h : P
  · rw [Action.require_true h]
    exact .pure ()
  · rw [Action.require_false h]
    exact .fail e

theorem Local.expect (t : Trap) (a : Option α) : Local (Action.expect t a : Task α) := by
  cases a with
  | none => exact .trap t
  | some a => exact .pure a

theorem Local.ofExcept (r : Except Failure α) : Local (Action.ofExcept r : Task α) := by
  cases r with
  | error e => exact .fail e
  | ok a => exact .pure a

/-- Work of the cursor does not see the window. -/
theorem Local.onCursor (m : Action Cursor Failure α) : Local (onCursor m) :=
  fun _ hp => ⟨rfl, hp⟩

/-! ## Checks and raw access -/

variable {p : Pane} {b : Block}

/-- The block of an extract are the bytes of the window. -/
theorem block_extract (hb : p.block = some b) :
    p.extract.block = some ((b.drop p.offset).take p.capacity) := by
  rw [extract, hb, Option.map_some]

/-- An extract fills its block. -/
theorem length_extract (hw : p.offset + p.capacity ≤ b.length) :
    p.extract.offset + p.extract.capacity ≤ ((b.drop p.offset).take p.capacity).length := by
  simp only [extract, List.length_take, List.length_drop]
  omega

/-- An extract is live while its source is. -/
theorem live_extract : p.extract.Live ↔ p.Live := by
  simp [Live, extract]

theorem local_checkLive : Local checkLive := by
  refine .look (fun p => ?_) fun p => .require p.Live _
  by_cases h : p.Live
  · rw [Action.require_true h, Action.require_true (live_extract.2 h)]
  · rw [Action.require_false h, Action.require_false fun h' => h (live_extract.1 h')]

/-- What is in the window is in the extract: they have the same capacity. -/
theorem local_checkRange (index length : Nat) : Local (checkRange index length) := by
  refine local_checkLive.bind fun _ => .look (fun _ => rfl) fun p => ?_
  dsimp only
  split
  · exact .fail _
  · split
    · exact .pure ()
    · exact .fail _

/-- Where to read is up to the cursor. -/
theorem local_readingAt (length : Nat) : Local (readingAt length) :=
  local_checkLive.bind fun _ => (Local.onCursor _).bind fun _ =>
    .look (fun _ => rfl) fun _ => .pure _

theorem local_writingAt (length : Nat) : Local (writingAt length) :=
  local_checkLive.bind fun _ => .look (fun _ => rfl) fun _ =>
    (Local.onCursor _).bind fun _ => .pure _

/-- The bytes are the same ones. -/
theorem local_fetch (index length : Nat) : Local (fetch index length) := by
  intro p hp
  by_cases h : index + length ≤ p.capacity
  · rcases hb : p.block with _ | b
    · simp [fetch, extract, hb, h, hp]
    · have hw := hp b hb
      have hbytes : (((b.drop p.offset).take p.capacity).drop (0 + index)).take length =
          (b.drop (p.offset + index)).take length := by
        rw [Nat.zero_add, List.drop_take, List.take_take, List.drop_drop,
          Nat.min_eq_left (by omega)]
      rw [fetch_of_le (block_extract hb) h (length_extract hw), fetch_of_le hb h hw]
      exact ⟨congrArg (fun bytes => (Outcome.done bytes, p.extract)) hbytes, hp⟩
  · simp [fetch, extract, h, hp]

/-- The same bytes are overwritten. -/
theorem local_put (index : Nat) (bytes : List UInt8) : Local (put index bytes) := by
  intro p hp
  by_cases h : index + bytes.length ≤ p.capacity
  · rcases hb : p.block with _ | b
    · simp [put, extract, hb, h, hp]
    · have hw := hp b hb
      rw [put_of_le (block_extract hb) h (length_extract hw), put_of_le hb h hw]
      refine ⟨?_, ?_⟩
      · simp only [extract, Option.map_some, Block.window_write hw h, Nat.zero_add]
      · rintro _ ⟨⟩
        simp
        omega
  · simp [put, extract, h, hp]

/-! ## Access at an index -/

theorem local_peekBytes (index length : Nat) : Local (peekBytes index length) :=
  (local_checkRange index length).bind fun _ => local_fetch index length

theorem local_pokeBytes (index : Nat) (bytes : List UInt8) : Local (pokeBytes index bytes) :=
  (local_checkRange index bytes.length).bind fun _ => local_put index bytes

theorem local_pokeZero (index length : Nat) : Local (pokeZero index length) :=
  (local_checkRange index length).bind fun _ => local_put index _

theorem local_effectiveOrder (reversed : Bool) : Local (effectiveOrder reversed) :=
  .look (fun _ => rfl) fun _ => .pure _

theorem local_peekScalar (type : ScalarType) (index : Nat) (reversed : Bool) :
    Local (peekScalar type index reversed) :=
  (local_effectiveOrder reversed).bind fun order => (local_checkRange index type.size).bind fun _ =>
    (local_fetch index type.size).answer (Scalar.ofBytes type order)

theorem local_pokeScalar (index : Nat) (value : Scalar) (reversed : Bool) :
    Local (pokeScalar index value reversed) :=
  (local_effectiveOrder reversed).bind fun _ =>
    (local_checkRange index value.type.size).bind fun _ => local_put index _

theorem local_peekFlag (index : Nat) : Local (peekFlag index) :=
  (local_peekScalar .uint8 index false).answer _

/-- A search looks at the same bytes from the same index on. -/
theorem local_find (start stop : Nat) (value : UInt8) : Local (find start stop value) := by
  refine (local_checkRange _ _).bind fun _ => (local_fetch _ _).bind fun bytes => ?_
  dsimp only
  split
  · exact .pure none
  · exact (Local.expect _ _).answer some

theorem local_peekText (index length : Nat) (codec : Codec) : Local (peekText index length codec) :=
  (local_peekBytes index length).bind fun _ => .ofExcept _

theorem local_pokeText (index : Nat) (text : String) (codec : Codec) :
    Local (pokeText index text codec) :=
  (Local.ofExcept _).bind fun bytes => (local_pokeBytes index bytes).answer fun _ => bytes.length

/-! ## Access at the cursor -/

/-- Reading is a check, access at an index and a move of the cursor. -/
theorem Local.read {peek : Nat → Task α} (hpeek : ∀ index, Local (peek index)) (length : Nat) :
    Local (do
      let index ← readingAt length
      let a ← peek index
      Pane.onCursor (Cursor.consume length)
      Pure.pure a) :=
  (local_readingAt length).bind fun index => (hpeek index).bind fun a =>
    (Local.onCursor _).answer fun _ => a

/-- So is writing. -/
theorem Local.append {poke : Nat → Task Unit} (hpoke : ∀ index, Local (poke index)) (length : Nat) :
    Local (do
      let index ← writingAt length
      poke index
      Pane.onCursor (Cursor.produce length)) :=
  (local_writingAt length).bind fun index => (hpoke index).bind fun _ => .onCursor _

theorem local_readScalar (type : ScalarType) (reversed : Bool) : Local (readScalar type reversed) :=
  .read (fun index => local_peekScalar type index reversed) type.size

theorem local_appendScalar (value : Scalar) (reversed : Bool) :
    Local (appendScalar value reversed) :=
  .append (fun index => local_pokeScalar index value reversed) value.type.size

theorem local_appendBytes (bytes : List UInt8) : Local (appendBytes bytes) :=
  .append (fun index => local_pokeBytes index bytes) bytes.length

theorem local_contents : Local contents :=
  (Local.onCursor _).bind fun _ => .look (fun _ => rfl) fun _ => local_peekBytes _ _

/-! ## Moves -/

/-- A move of the cursor of live memory. -/
theorem Local.move (m : Action Cursor Failure Unit) :
    Local (checkLive >>= fun _ => Pane.onCursor m) :=
  local_checkLive.bind fun _ => .onCursor m

/-- A move that depends on the capacity. -/
theorem Local.moveWithin (m : Nat → Action Cursor Failure Unit) :
    Local (checkLive >>= fun _ => Action.state >>= fun p => Pane.onCursor (m p.capacity)) :=
  local_checkLive.bind fun _ => .look (fun _ => rfl) fun _ => .onCursor _

/-- Compaction moves bytes within the window. -/
theorem local_compact : Local compact := by
  refine local_checkLive.bind fun _ => .look (fun _ => rfl) fun p => ?_
  split
  · exact ((Local.onCursor _).bind fun _ => (local_fetch _ _).bind fun bytes =>
      (local_put 0 bytes).bind fun _ => .onCursor _)
  · exact .onCursor _

end Pane

namespace Call

open Pane

/-- **Every call is local.** -/
theorem local_run (call : Call) : Local call.run := by
  cases call with
  | setOrder order => exact fun _ hp => ⟨rfl, hp⟩
  | seekReader | rewind | saveReader | recallReader | saveWriter | skip =>
    exact (Local.move _).answer _
  | seekWriter index => exact (Local.moveWithin (Cursor.seekWriter index)).answer _
  | seek reader writer => exact (Local.moveWithin (Cursor.seek reader writer)).answer _
  | recallWriter => exact (Local.moveWithin Cursor.recallWriter).answer _
  | checkWritable length => exact (Local.moveWithin (Cursor.checkWritable length)).answer _
  | compact => exact local_compact.answer _
  | canRead length => exact (Local.onCursor _).answer _
  | canWrite length =>
    exact Local.answer (.look (fun _ => rfl) fun _ => .onCursor _) _
  | room =>
    exact (Local.onCursor _).bind fun _ =>
      Local.answer (.look (fun _ => rfl) fun _ => .onCursor _) _
  | peekScalar type index reversed => exact (local_peekScalar type index reversed).answer _
  | pokeScalar index value reversed => exact (local_pokeScalar index value reversed).answer _
  | readScalar type reversed => exact (local_readScalar type reversed).answer _
  | appendScalar value reversed => exact (local_appendScalar value reversed).answer _
  | peekFlag index => exact (local_peekFlag index).answer _
  | pokeFlag index value => exact (local_pokeScalar index _ false).answer _
  | readFlag => exact ((local_readScalar .uint8 false).answer _).answer _
  | appendFlag value => exact (local_appendScalar _ false).answer _
  | peekBytes index length => exact (local_peekBytes index length).answer _
  | pokeBytes index bytes => exact (local_pokeBytes index bytes).answer _
  | readBytes length =>
    exact (Local.read (fun index => local_peekBytes index length) length).answer _
  | appendBytes bytes => exact (local_appendBytes bytes).answer _
  | pokeZero index length => exact (local_pokeZero index length).answer _
  | appendZero length =>
    exact (Local.append (fun index => local_pokeZero index length) length).answer _
  | find start stop value => exact (local_find start stop value).answer _
  | peekText index length codec => exact (local_peekText index length codec).answer _
  | pokeText index text codec => exact (local_pokeText index text codec).answer _
  | readText length codec =>
    exact (Local.read (fun index => local_peekText index length codec) length).answer _
  | appendText text codec =>
    exact Local.answer ((Local.ofExcept _).bind fun bytes =>
      (local_appendBytes bytes).answer fun _ => bytes.length) _
  | contents => exact local_contents.answer _

/-- **Calls come to the same on the bytes of a window as on the window.** -/
theorem runAll_extract (calls : List Call) {p : Pane} (hp : p.Fits) :
    runAll calls p.extract = ((runAll calls p).1, (runAll calls p).2.extract) := by
  induction calls generalizing p with
  | nil => rfl
  | cons call rest ih =>
    obtain ⟨hrun, hfits⟩ := call.local_run p hp
    rw [runAll_cons, runAll_cons, hrun, ih hfits]

end Call

end PacketMemory
