import PacketMemory.Proofs.Pane.Sequential

/-!
# Readable bytes as a stream

What can be read through a handle is a string of bytes (`Pane.unread`), and access at the cursor takes
bytes off its front: a call that reads depends on nothing but the first bytes of the string and on the
byte order (`Call.run_reading`). Discarding what was read moves this string to the start of the window
and changes nothing about it (`Pane.unread_discarded`), so no call that reads can tell
(`Reading.run_stream`).
-/

namespace PacketMemory

namespace Pane

variable {p q : Pane} {length : Nat}

/-- The bytes that can be read. -/
def unread (p : Pane) : List UInt8 :=
  p.bytesAt p.cursor.reader (p.cursor.writer - p.cursor.reader)

theorem length_unread (hp : p.Sound) (hl : p.Live) :
    p.unread.length = p.cursor.writer - p.cursor.reader := by
  have hreader := hp.cursor.reader_le
  have hwriter := hp.cursor.writer_le
  exact length_bytesAt hp hl (by omega)

theorem take_unread (h : length ≤ p.cursor.writer - p.cursor.reader) :
    p.unread.take length = p.bytesAt p.cursor.reader length := by
  rw [unread, bytesAt, List.take_take, Nat.min_eq_left h, bytesAt]

theorem unread_consumed (p : Pane) (length : Nat) :
    (p.consumed length).unread = p.unread.drop length := by
  simp only [unread, bytesAt, consumed, List.drop_take, List.drop_drop, Nat.add_assoc, Nat.sub_sub]

/-! ## Discarding what was read -/

theorem compact_apply (hp : p.Sound) (hl : p.Live) : compact p = (.done (), p.discarded) := by
  obtain ⟨_, _, hrun, rfl⟩ := compact_succeeds hp hl
  exact hrun

theorem unread_discarded (hp : p.Sound) (hl : p.Live) : p.discarded.unread = p.unread := by
  have hlen := length_unread hp hl
  have hmoved : p.compacted.bytesAt 0 p.unread.length = p.unread :=
    bytesAt_overwrite hp hl (Nat.zero_le _)
  rw [hlen] at hmoved
  exact hmoved

/-- Behind the readable bytes, everything is as it was. -/
theorem discarded_outside {b b' : Block} (hp : p.Sound) (hb : p.block = some b)
    (hb' : p.discarded.block = some b') {i : Nat}
    (hi : i < p.offset ∨ p.offset + (p.cursor.writer - p.cursor.reader) ≤ i) : b'[i]? = b[i]? := by
  have hlen : p.unread.length ≤ p.cursor.writer - p.cursor.reader := List.length_take_le _ _
  have hout : i < p.offset + 0 ∨ p.offset + 0 + p.unread.length ≤ i := by omega
  exact overwrite_outside hp hb hb' (Nat.zero_le _) hout

/-- A readable byte is where all of them were moved to. -/
theorem discarded_shifted {b b' : Block} (hp : p.Sound) (hl : p.Live) (hb : p.block = some b)
    (hb' : p.discarded.block = some b') {i : Nat} (hle : p.cursor.reader ≤ i)
    (hlt : i < p.cursor.writer) :
    b'[p.offset + (i - p.cursor.reader)]? = b[p.offset + i]? := by
  have hk : i - p.cursor.reader < p.cursor.writer - p.cursor.reader := by omega
  have hsame := congrArg (fun bytes : List UInt8 => bytes[i - p.cursor.reader]?)
    (unread_discarded hp hl)
  have hmoved : p.discarded.unread[i - p.cursor.reader]? =
      b'[p.offset + 0 + (i - p.cursor.reader)]? := getElem?_bytesAt hb' hk
  have hplace : p.offset + p.cursor.reader + (i - p.cursor.reader) = p.offset + i := by omega
  rw [← hplace, ← getElem?_bytesAt hb hk]
  exact hmoved.symm.trans hsame

/-- Where nothing was read, nothing is discarded. -/
theorem discarded_of_start (hp : p.Sound) (h : p.cursor.reader = 0) : p.discarded = p := by
  rw [discarded, compacted_of_start hp h, h]
  rcases p with ⟨block, released, offset, capacity, ⟨reader, writer, markedReader, markedWriter⟩, order⟩
  cases h
  rfl

/-! ## The same stream -/

/-- Whoever reads `q` reads what they would have read in `p`. -/
structure SameStream (p q : Pane) : Prop where
  order : q.order = p.order
  unread : q.unread = p.unread

theorem SameStream.refl (p : Pane) : p.SameStream p := ⟨rfl, rfl⟩

theorem SameStream.discarded (h : p.SameStream q) (hp : p.Sound) (hl : p.Live) :
    p.discarded.SameStream q :=
  ⟨h.order, h.unread.trans (unread_discarded hp hl).symm⟩

theorem SameStream.consumed (h : p.SameStream q) (length : Nat) :
    (p.consumed length).SameStream (q.consumed length) :=
  ⟨h.order, by rw [unread_consumed, unread_consumed, h.unread]⟩

end Pane

/-! ## Calls that read -/

/-- How many bytes a call takes off the readable ones, and what it makes of them. -/
structure Reading where
  /-- the number of bytes -/
  length : Nat
  /-- the answer, or the failure of a text that cannot be decoded -/
  answer : ByteOrder → List UInt8 → Except Failure Answer

namespace Call

/-- The reading of a call at the cursor. -/
def reading? : Call → Option Reading
  | readScalar type reversed => some ⟨type.size, fun order bytes =>
      .ok (.scalar (Scalar.ofBytes type (if reversed then order.opposite else order) bytes))⟩
  | readFlag => some ⟨1, fun order bytes =>
      .ok (.flag (decide ((Scalar.ofBytes .uint8 order bytes).toNat ≠ 0)))⟩
  | readBytes length => some ⟨length, fun _ bytes => .ok (.bytes bytes)⟩
  | readText length codec => some ⟨length, fun _ bytes =>
      ((codec.decode bytes).mapError (Failure.codec codec.name)).map .text⟩
  | skip length => some ⟨length, fun _ _ => .ok .unit⟩
  | _ => none

end Call

/-- What a reading comes to: what is not there is refused, and so is what cannot be decoded. -/
def Reading.run (r : Reading) : Pane.Task Answer := fun p =>
  if r.length ≤ p.unread.length then
    match r.answer p.order (p.unread.take r.length) with
    | .ok a => (.done a, p.consumed r.length)
    | .error e => (.failed e, p)
  else
    (.failed (.outOfBounds (.unreadable p.cursor.reader r.length p.cursor.writer)), p)

namespace Reading

variable {α : Type} {p : Pane} {r : Reading} {length : Nat}
variable {answer : ByteOrder → List UInt8 → Except Failure Answer}

theorem run_of_ok (hp : p.Sound) (hl : p.Live) (h : r.length ≤ p.cursor.writer - p.cursor.reader)
    {a : Answer} (ha : r.answer p.order (p.bytesAt p.cursor.reader r.length) = .ok a) :
    r.run p = (.done a, p.consumed r.length) := by
  have hlen := Pane.length_unread hp hl
  rw [run, if_pos (hlen ▸ h), Pane.take_unread h, ha]

theorem run_of_error (hp : p.Sound) (hl : p.Live) (h : r.length ≤ p.cursor.writer - p.cursor.reader)
    {e : Failure} (he : r.answer p.order (p.bytesAt p.cursor.reader r.length) = .error e) :
    r.run p = (.failed e, p) := by
  have hlen := Pane.length_unread hp hl
  rw [run, if_pos (hlen ▸ h), Pane.take_unread h, he]

theorem run_of_lt (hp : p.Sound) (hl : p.Live) (h : p.cursor.writer - p.cursor.reader < r.length) :
    r.run p = (.failed (.outOfBounds (.unreadable p.cursor.reader r.length p.cursor.writer)), p) := by
  have hlen := Pane.length_unread hp hl
  rw [run, if_neg (by omega)]

/-- Reading at the reader and moving over what was read is a reading. -/
theorem run_read (peek : Nat → Pane.Task α) (x : Except Failure α) (f : α → Answer) (hp : p.Sound)
    (hl : p.Live) (hanswer : answer p.order (p.bytesAt p.cursor.reader length) = x.map f)
    (hpeek : p.cursor.reader + length ≤ p.capacity →
      peek p.cursor.reader p = Action.ofExcept x p) :
    ((do
      let index ← Pane.readingAt length
      let a ← peek index
      Pane.onCursor (Cursor.consume length)
      pure a) >>= fun a => pure (f a) : Pane.Task Answer) p = run ⟨length, answer⟩ p := by
  have hreader := hp.cursor.reader_le
  have hwriter := hp.cursor.writer_le
  rcases Nat.lt_or_ge (p.cursor.writer - p.cursor.reader) length with h | h
  · rw [run_of_lt (r := ⟨length, answer⟩) hp hl h]
    exact Action.bind_failed (Action.bind_failed (Pane.readingAt_of_lt hp hl h))
  · cases x with
    | ok a =>
      rw [run_of_ok (r := ⟨length, answer⟩) hp hl h hanswer]
      exact Action.bind_done (Pane.read_apply hp hl h hpeek)
    | error e =>
      rw [run_of_error (r := ⟨length, answer⟩) hp hl h hanswer]
      refine Action.bind_failed ((Action.bind_done (Pane.readingAt_of_le hp hl h)).trans ?_)
      exact Action.bind_failed (hpeek (by omega))

/-- Moving over bytes is a reading that makes nothing of them. -/
theorem run_skip (hp : p.Sound) (hl : p.Live)
    (hanswer : answer p.order (p.bytesAt p.cursor.reader length) = .ok .unit) :
    (Call.skip length).run p = run ⟨length, answer⟩ p := by
  have hsmall := hp.small
  rcases Nat.lt_or_ge (p.cursor.writer - p.cursor.reader) length with h | h
  · have hskip : Cursor.skip length p.cursor = _ :=
      Action.bind_failed (Cursor.checkReadable_of_lt hp.cursor.reader_le h)
    rw [run_of_lt (r := ⟨length, answer⟩) hp hl h]
    refine Action.bind_failed ((Action.bind_done (Pane.checkLive_of_live hl)).trans ?_)
    rw [Pane.onCursor, Action.within_apply, hskip]
  · obtain ⟨_, _, hconsume, rfl, -⟩ :=
      Cursor.consume_succeeds (ε := Failure) hp.cursor (by omega) h
    have hskip : Cursor.skip length p.cursor = _ :=
      (Action.bind_done (Cursor.checkReadable_of_le hp.cursor.reader_le h)).trans hconsume
    rw [run_of_ok (r := ⟨length, answer⟩) hp hl h hanswer]
    exact Action.bind_done
      ((Action.bind_done (Pane.checkLive_of_live hl)).trans (Pane.onCursor_apply hskip))

/-- Where the same can be read, a reading comes to the same, apart from the indices in a refusal. -/
theorem run_stream {q : Pane} (h : p.SameStream q) (r : Reading) :
    (r.run q).1.mapError Failure.kind = (r.run p).1.mapError Failure.kind ∧
      (r.run p).2.SameStream (r.run q).2 := by
  simp only [run, h.unread, h.order]
  by_cases hfit : r.length ≤ p.unread.length
  · simp only [if_pos hfit]
    cases r.answer p.order (p.unread.take r.length) with
    | ok a => exact ⟨rfl, h.consumed r.length⟩
    | error e => exact ⟨rfl, h⟩
  · simp only [if_neg hfit]
    exact ⟨rfl, h⟩

end Reading

namespace Call

/-- A truth value is read as a byte. -/
theorem run_readFlag (p : Pane) :
    readFlag.run p = (Pane.readScalar .uint8 false >>= fun byte =>
      pure (.flag (decide (byte.toNat ≠ 0))) : Pane.Task Answer) p := by
  rw [run, Pane.readFlag, bind_assoc]
  rfl

/-- **A call that reads takes bytes off the front of the readable ones**, and nothing else counts. -/
theorem run_reading {p : Pane} {call : Call} {r : Reading} (hp : p.Sound) (hl : p.Live)
    (h : call.reading? = some r) : call.run p = r.run p := by
  cases call with
  | readScalar type reversed =>
    obtain rfl := Option.some.inj h
    exact Reading.run_read (Pane.peekScalar type · reversed) (.ok _) Answer.scalar hp hl rfl
      fun hfit => Pane.peekScalar_apply hp hl type hfit reversed
  | readFlag =>
    obtain rfl := Option.some.inj h
    rw [run_readFlag]
    exact Reading.run_read (Pane.peekScalar .uint8 · false) (.ok _)
      (fun byte => .flag (decide (byte.toNat ≠ 0))) hp hl rfl
      fun hfit => Pane.peekScalar_apply hp hl .uint8 hfit false
  | readBytes length =>
    obtain rfl := Option.some.inj h
    exact Reading.run_read (Pane.peekBytes · length) (.ok _) Answer.bytes hp hl rfl
      fun hfit => Pane.peekBytes_apply hp hl hfit
  | readText length codec =>
    obtain rfl := Option.some.inj h
    exact Reading.run_read (Pane.peekText · length codec) _ Answer.text hp hl rfl
      fun hfit => Action.bind_done (Pane.peekBytes_apply hp hl hfit)
  | skip length =>
    obtain rfl := Option.some.inj h
    exact Reading.run_skip hp hl rfl
  | _ => cases h

theorem run_compact {p : Pane} (hp : p.Sound) (hl : p.Live) :
    compact.run p = (.done .unit, p.discarded) :=
  Action.bind_done (Pane.compact_apply hp hl)

end Call

end PacketMemory
