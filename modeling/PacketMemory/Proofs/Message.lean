import PacketMemory.Proofs.Pane.Sequential
import PacketMemory.Proofs.Text.Codec
import PacketMemory.Proofs.World.Calls

/-!
# Messages: what was written can be read back

A message is a list of items, each with the byte order that the handle is switched to before it. Its
items are written one behind the other and read back in the same order, with the same switches.

* `Item.write_apply`, `Item.write_refused` and `Item.read_apply` say what becomes of a single item,
  `Message.runAll_writes` and `Message.runAll_reads` what becomes of a message.
* `World.message_round_trip` — through any handle of live memory, a message that fits is read back
  as it was written; of one that does not fit, exactly the items up to the first one without room are
  written.

A text is read back only if its codec decodes what it encodes (`Codec.Inverts`).
-/

namespace PacketMemory

/-- Something that is written at the cursor and read back. -/
inductive Item where
  | scalar (value : Scalar) (reversed : Bool)
  | flag (value : Bool)
  | bytes (value : List UInt8)
  /-- this many zero bytes -/
  | zeros (length : Nat)
  | text (value : String) (codec : Codec)

namespace Item

/-- The bytes of an item. -/
def bytesIn (order : ByteOrder) : Item → List UInt8
  | scalar value reversed => value.bytes (if reversed then order.opposite else order)
  | flag value => [if value then 1 else 0]
  | bytes value => value
  | zeros length => List.replicate length 0
  | text value codec => codec.bytes value

/-- The call that writes an item. -/
def write : Item → Call
  | scalar value reversed => .appendScalar value reversed
  | flag value => .appendFlag value
  | bytes value => .appendBytes value
  | zeros length => .appendZero length
  | text value codec => .appendText value codec

/-- What writing an item answers. -/
def receipt : Item → Answer
  | text value codec => .count (codec.bytes value).length
  | _ => .unit

/-- The call that reads an item of this type and length. -/
def read : Item → Call
  | scalar value reversed => .readScalar value.type reversed
  | flag _ => .readFlag
  | bytes value => .readBytes value.length
  | zeros length => .readBytes length
  | text value codec => .readText (codec.bytes value).length codec

/-- What an item is read as. -/
def content : Item → Answer
  | scalar value _ => .scalar value
  | flag value => .flag value
  | bytes value => .bytes value
  | zeros length => .bytes (List.replicate length 0)
  | text value _ => .text value

/-- A text has to be one that its codec can encode, and decodes again. -/
def Encodable : Item → Prop
  | text value codec => (∃ bytes, codec.encode value = .ok bytes) ∧ codec.Inverts
  | _ => True

variable {p : Pane}

/-- **An item is written where there is room for it.** -/
theorem write_apply (hp : p.Sound) (hl : p.Live) {item : Item} (hi : item.Encodable)
    (h : (item.bytesIn p.order).length ≤ p.capacity - p.cursor.writer) :
    item.write.run p = (.done item.receipt, p.appended (item.bytesIn p.order)) := by
  cases item with
  | scalar value reversed =>
    rw [bytesIn, Scalar.length_bytes] at h
    exact Action.bind_done (Pane.appendScalar_apply hp hl value reversed h)
  | flag value =>
    have hrun := Pane.appendScalar_apply hp hl (Scalar.ofByte (if value then 1 else 0)) false h
    rw [Scalar.bytes_ofByte] at hrun
    exact Action.bind_done hrun
  | bytes value => exact Action.bind_done (Pane.appendBytes_apply hp hl h)
  | zeros length =>
    rw [bytesIn, List.length_replicate] at h
    exact Action.bind_done (Pane.appendZero_apply hp hl h)
  | text value codec =>
    obtain ⟨⟨bytes, hencode⟩, -⟩ := hi
    simp only [bytesIn, receipt, Codec.bytes, hencode] at h ⊢
    have hencoded : Pane.encoded value codec p = (.done bytes, p) := by
      rw [Pane.encoded, hencode]
      rfl
    have happend : Pane.appendText value codec p = (.done bytes.length, p.appended bytes) :=
      (Action.bind_done hencoded).trans (Action.bind_done (Pane.appendBytes_apply hp hl h))
    exact Action.bind_done happend

/-- **An item without room is refused**, and nothing of it is written. -/
theorem write_refused (hp : p.Sound) (hl : p.Live) {item : Item} (hi : item.Encodable)
    (h : p.capacity - p.cursor.writer < (item.bytesIn p.order).length) :
    item.write.run p = (.failed (.outOfBounds (.unwritable p.cursor.writer
      (item.bytesIn p.order).length p.capacity)), p) := by
  cases item with
  | scalar value reversed =>
    rw [bytesIn, Scalar.length_bytes] at h ⊢
    exact Action.bind_failed (Pane.append_refused (Pane.pokeScalar · value reversed) hp hl h)
  | flag value =>
    exact Action.bind_failed (Pane.append_refused
      (Pane.pokeScalar · (Scalar.ofByte (if value then 1 else 0)) false) hp hl h)
  | bytes value =>
    exact Action.bind_failed (Pane.append_refused (Pane.pokeBytes · value) hp hl h)
  | zeros length =>
    rw [bytesIn, List.length_replicate] at h ⊢
    exact Action.bind_failed (Pane.append_refused (Pane.pokeZero · length) hp hl h)
  | text value codec =>
    obtain ⟨⟨bytes, hencode⟩, -⟩ := hi
    simp only [bytesIn, Codec.bytes, hencode] at h ⊢
    have hencoded : Pane.encoded value codec p = (.done bytes, p) := by
      rw [Pane.encoded, hencode]
      rfl
    refine Action.bind_failed ((Action.bind_done hencoded).trans (Action.bind_failed ?_))
    exact Pane.append_refused (Pane.pokeBytes · bytes) hp hl h

/-- **An item whose bytes are there is read.** -/
theorem read_apply (hp : p.Sound) (hl : p.Live) {item : Item} (hi : item.Encodable)
    (h : (item.bytesIn p.order).length ≤ p.cursor.writer - p.cursor.reader)
    (hb : p.bytesAt p.cursor.reader (item.bytesIn p.order).length = item.bytesIn p.order) :
    item.read.run p = (.done item.content, p.consumed (item.bytesIn p.order).length) := by
  cases item with
  | scalar value reversed =>
    rw [bytesIn, Scalar.length_bytes] at h hb ⊢
    refine Action.bind_done (Pane.read_apply hp hl h fun hfit => ?_)
    rw [Pane.peekScalar_apply hp hl _ hfit, hb, Pane.orderFor, Scalar.ofBytes_bytes]
  | flag value =>
    have hread : Pane.readScalar .uint8 false p =
        (.done (Scalar.ofByte (if value then 1 else 0)), p.consumed 1) := by
      refine Pane.read_apply hp hl h fun hfit => ?_
      have hbyte := Scalar.ofBytes_bytes p.order (Scalar.ofByte (if value then 1 else 0))
      rw [Scalar.bytes_ofByte] at hbyte
      rw [Pane.peekScalar_apply hp hl _ hfit]
      exact congrArg (fun v => (Outcome.done v, p)) ((congrArg _ hb).trans hbyte)
    refine Action.bind_done ((Action.bind_done hread).trans ?_)
    cases value <;> rfl
  | bytes value =>
    refine Action.bind_done (Pane.read_apply hp hl h fun hfit => ?_)
    exact (Pane.peekBytes_apply hp hl hfit).trans (congrArg (fun b => (Outcome.done b, p)) hb)
  | zeros length =>
    rw [bytesIn, List.length_replicate] at h hb ⊢
    refine Action.bind_done (Pane.read_apply hp hl h fun hfit => ?_)
    exact (Pane.peekBytes_apply hp hl hfit).trans (congrArg (fun b => (Outcome.done b, p)) hb)
  | text value codec =>
    obtain ⟨⟨bytes, hencode⟩, hinverts⟩ := hi
    simp only [bytesIn, read, Codec.bytes, hencode] at h hb ⊢
    refine Action.bind_done (Pane.read_apply hp hl h fun hfit => ?_)
    refine Pane.peekText_apply hp hl hfit ?_
    rw [hb]
    exact hinverts value bytes hencode

end Item

/-- Items, each with the byte order that the handle is switched to before it. -/
abbrev Message : Type := List (ByteOrder × Item)

namespace Message

/-- The bytes of a message. -/
def bytes (m : Message) : List UInt8 := m.flatMap fun entry => entry.2.bytesIn entry.1

/-- For each item, a switch to its byte order and then this call. -/
def calls (request : Item → Call) (m : Message) : List Call :=
  m.flatMap fun entry => [.setOrder entry.1, request entry.2]

/-- Success of each switch, and then these answers. -/
def answers (answer : Item → Answer) (m : Message) : List (Outcome Failure Answer) :=
  m.flatMap fun entry => [.done .unit, .done (answer entry.2)]

/-- The answers if these items were written and the next one had no room behind them. -/
def refused (p : Pane) (sent : Message) (next : ByteOrder × Item) :
    List (Outcome Failure Answer) :=
  sent.answers Item.receipt ++ [.done .unit, .failed (.outOfBounds (.unwritable
    (p.cursor.writer + sent.bytes.length) (next.2.bytesIn next.1).length p.capacity))]

/-- All texts of the message can be encoded. -/
def Encodable (m : Message) : Prop := ∀ entry ∈ m, entry.2.Encodable

variable {m m' : Message} {entry : ByteOrder × Item} {p : Pane} {room : Nat}

theorem bytes_cons : bytes (entry :: m) = entry.2.bytesIn entry.1 ++ bytes m :=
  List.flatMap_cons

theorem calls_append (request : Item → Call) :
    calls request (m ++ m') = calls request m ++ calls request m' :=
  List.flatMap_append

/-- The first item of a message comes first, and the rest goes on from there. -/
theorem runAll_cons {request : Item → Call} {answer : Answer} {outcomes : List _} {q q' : Pane}
    (hfirst : (request entry.2).run { p with order := entry.1 } = (.done answer, q))
    (hrest : Call.runAll (calls request m) q = (outcomes, q')) :
    Call.runAll (calls request (entry :: m)) p =
      (.done .unit :: .done answer :: outcomes, q') := by
  have hswitch : (Call.setOrder entry.1).run p = (.done .unit, { p with order := entry.1 }) := rfl
  show Call.runAll (.setOrder entry.1 :: request entry.2 :: calls request m) p = _
  rw [Call.runAll_cons, hswitch, Call.runAll_cons, hfirst, hrest]

/-- **A message is written where there is room for it.** Only the byte order may be another one
afterwards. -/
theorem runAll_writes (hp : p.Sound) (hl : p.Live) (hm : m.Encodable)
    (h : m.bytes.length ≤ p.capacity - p.cursor.writer) :
    ∃ order, Call.runAll (m.calls Item.write) p =
      (m.answers Item.receipt, { p.appended m.bytes with order := order }) := by
  induction m generalizing p with
  | nil => exact ⟨p.order, by rw [bytes, List.flatMap_nil, Pane.appended_nil]; rfl⟩
  | cons entry rest ih =>
    obtain ⟨hitem, hrest⟩ := List.forall_mem_cons.1 hm
    rw [bytes_cons, List.length_append] at h
    -- the switch comes first, and leaves the room as it was
    have he := hp.evolves_order entry.1
    have hq := hp.of_evolves he
    have hlq := hl.of_evolves he
    have hfit : (entry.2.bytesIn entry.1).length ≤ p.capacity - p.cursor.writer := by omega
    have he' := hq.evolves_appended hfit
    have hroom : (bytes rest).length ≤
        p.capacity - (p.cursor.writer + (entry.2.bytesIn entry.1).length) := by omega
    obtain ⟨last, hrun⟩ := ih (hq.of_evolves he') (hlq.of_evolves he') hrest hroom
    refine ⟨last, (runAll_cons (Item.write_apply hq hlq hitem hfit) hrun).trans ?_⟩
    have hjoin := Pane.appended_appended hq hfit (bytes rest)
    rw [bytes_cons]
    exact Prod.ext rfl (congrArg (fun q : Pane => { q with order := last }) hjoin)

/-- **A message whose bytes are there is read.** -/
theorem runAll_reads (hp : p.Sound) (hl : p.Live) (hm : m.Encodable)
    (h : m.bytes.length ≤ p.cursor.writer - p.cursor.reader)
    (hb : p.bytesAt p.cursor.reader m.bytes.length = m.bytes) :
    ∃ order, Call.runAll (m.calls Item.read) p =
      (m.answers Item.content, { p.consumed m.bytes.length with order := order }) := by
  induction m generalizing p with
  | nil => exact ⟨p.order, rfl⟩
  | cons entry rest ih =>
    obtain ⟨hitem, hrest⟩ := List.forall_mem_cons.1 hm
    rw [bytes_cons, List.length_append] at h hb
    have he := hp.evolves_order entry.1
    have hq := hp.of_evolves he
    have hlq := hl.of_evolves he
    have hfit : (entry.2.bytesIn entry.1).length ≤ p.cursor.writer - p.cursor.reader := by omega
    have hr := hp.cursor.reader_le
    have hw := hp.cursor.writer_le
    -- the bytes of the first item, and those of the others behind them
    have hlen : (p.bytesAt p.cursor.reader (entry.2.bytesIn entry.1).length).length =
        (entry.2.bytesIn entry.1).length := Pane.length_bytesAt hp hl (by omega)
    rw [Pane.bytesAt_add] at hb
    obtain ⟨hbytes, hbehind⟩ := List.append_inj hb hlen
    have he' := hq.evolves_consumed hfit
    have hunread : (bytes rest).length ≤
        p.cursor.writer - (p.cursor.reader + (entry.2.bytesIn entry.1).length) := by omega
    obtain ⟨last, hrun⟩ :=
      ih (hq.of_evolves he') (hlq.of_evolves he') hrest hunread hbehind
    refine ⟨last, (runAll_cons (Item.read_apply hq hlq hitem hfit hbytes) hrun).trans ?_⟩
    rw [bytes_cons, List.length_append]
    simp only [Pane.consumed, Nat.add_assoc]
    rfl

/-- Of a message without room for all of it, there is room up to some item, and not for this one. -/
theorem split_of_lt (h : room < m.bytes.length) :
    ∃ sent entry rest, m = sent ++ entry :: rest ∧ (bytes sent).length ≤ room ∧
      room < (bytes sent).length + (entry.2.bytesIn entry.1).length := by
  induction m generalizing room with
  | nil => exact absurd h (Nat.not_lt_zero _)
  | cons entry rest ih =>
    rw [bytes_cons, List.length_append] at h
    rcases Nat.lt_or_ge room (entry.2.bytesIn entry.1).length with hfirst | hfirst
    · exact ⟨[], entry, rest, rfl, Nat.zero_le _, by rw [bytes, List.flatMap_nil]; simpa using hfirst⟩
    · have hbehind : room - (entry.2.bytesIn entry.1).length < (bytes rest).length := by omega
      obtain ⟨sent, next, behind, rfl, hfits, hlast⟩ := ih hbehind
      refine ⟨entry :: sent, next, behind, rfl, ?_, ?_⟩ <;>
        rw [bytes_cons, List.length_append] <;> omega

/-- **A message without room for all of it is written up to some item**, which is refused. -/
theorem runAll_refused {sent : Message} (hp : p.Sound) (hl : p.Live)
    (hsent : Encodable sent) (hentry : entry.2.Encodable)
    (hfits : (bytes sent).length ≤ p.capacity - p.cursor.writer)
    (hlast : p.capacity - p.cursor.writer <
      (bytes sent).length + (entry.2.bytesIn entry.1).length) :
    Call.runAll (calls Item.write (sent ++ [entry])) p =
      (refused p sent entry, { p.appended (bytes sent) with order := entry.1 }) := by
  obtain ⟨order, hrun⟩ := runAll_writes hp hl hsent hfits
  have he := hp.evolves_appended hfits
  have hq := hp.of_evolves he
  have he' := hq.evolves_order entry.1
  have hroom : p.capacity - (p.cursor.writer + (bytes sent).length) <
      (entry.2.bytesIn entry.1).length := by omega
  have hrefused := Item.write_refused (hq.of_evolves he') ((hl.of_evolves he).of_evolves he')
    hentry hroom
  have hswitch : (Call.setOrder entry.1).run { p.appended (bytes sent) with order := order } =
    (.done .unit, { p.appended (bytes sent) with order := entry.1 }) := rfl
  have hentry : calls Item.write [entry] = [.setOrder entry.1, entry.2.write] := rfl
  rw [calls_append, Call.runAll_append, hrun, hentry]
  simp only [Call.runAll_cons, Call.runAll_nil, hswitch]
  simp only [Pane.appended, hrefused]
  rfl

end Message

/-- **A message that was written is read back**, from where the writer was before. -/
theorem Message.runAll_reads_back {p q : Pane} {m : Message} (hq : q.Sound) (hl : q.Live)
    (hm : m.Encodable) (h : p.Extends m.bytes q) :
    ∃ order, Call.runAll (.seekReader p.cursor.writer :: m.calls Item.read) q =
      (.done .unit :: m.answers Item.content,
        { q with order := order, cursor := { q.cursor with reader := q.cursor.writer } }) := by
  have hwriter : q.cursor.writer = p.cursor.writer + m.bytes.length := by rw [h.cursor]
  have hseek : (Call.seekReader p.cursor.writer).run q =
      (.done .unit, { q with cursor := { q.cursor with reader := p.cursor.writer } }) :=
    Action.bind_done (Pane.seekReader_apply hl (by omega))
  have he : q.Evolves { q with cursor := { q.cursor with reader := p.cursor.writer } } := by
    have hw := hq.cursor.writer_le
    exact hq.evolves_cursor ⟨by simp only; omega, hw, hq.cursor.markedReader_le,
      hq.cursor.markedWriter_le⟩
  have hunread : m.bytes.length ≤ q.cursor.writer - p.cursor.writer := by omega
  obtain ⟨order, hrun⟩ :=
    Message.runAll_reads (hq.of_evolves he) (hl.of_evolves he) hm hunread h.written
  refine ⟨order, ?_⟩
  rw [Call.runAll_cons, hseek, hrun, hwriter]
  rfl

namespace World

variable {w : World} {h : Handle} {p : Pane} {m : Message}

/-- **What was written can be read back**, through any handle of live memory. -/
theorem message_round_trip (hw : w.Reachable) (hp : w.pane? h = some p) (hr : p.released = false)
    (hm : m.Encodable) :
    let writable := p.capacity - p.cursor.writer
    let writing (m : Message) := (m.calls Item.write).map (Prod.mk h)
    let reading := (.seekReader p.cursor.writer :: m.calls Item.read).map (Prod.mk h)
    (m.bytes.length ≤ writable →
      w.answersTo h (writing m) = (m.answers Item.receipt).map (Outcome.map .answer) ∧
      ∃ w' q, w.after (calling (writing m)) = w' ∧ w'.pane? h = some q ∧ p.Extends m.bytes q ∧
        w'.answersTo h reading = (.done .unit :: m.answers Item.content).map (Outcome.map .answer) ∧
        ∃ order, (w'.after (calling reading)).pane? h =
          some { q with order := order, cursor := { q.cursor with reader := q.cursor.writer } }) ∧
    (writable < m.bytes.length →
      ∃ sent entry rest, m = sent ++ entry :: rest ∧
        (Message.bytes sent).length ≤ writable ∧
        writable < (Message.bytes sent).length + (entry.2.bytesIn entry.1).length ∧
        w.answersTo h (writing (sent ++ [entry])) =
          (Message.refused p sent entry).map (Outcome.map .answer) ∧
        ∃ q, (w.after (calling (writing (sent ++ [entry])))).pane? h = some q ∧
          p.Extends (Message.bytes sent) q) := by
  intro writable writing reading
  have hsound := hw.sound
  have hps := hsound.pane hp
  have hl := hsound.live_of_pane hp hr
  refine ⟨fun hfits => ?_, fun hlacks => ?_⟩
  · obtain ⟨order, hwrites⟩ := Message.runAll_writes hps hl hm hfits
    obtain ⟨hsound', hend, hanswers⟩ := hsound.run_calls hp (m.calls Item.write)
    rw [hwrites] at hend hanswers
    have hextends := hps.extends_appended hl hfits order
    refine ⟨hanswers, _, _, rfl, hend, hextends, ?_⟩
    -- and from there, the message is read
    have hl' := hsound'.live_of_pane hend hr
    obtain ⟨last, hreads⟩ :=
      Message.runAll_reads_back (hsound'.pane hend) hl' hm hextends
    obtain ⟨-, hend', hanswers'⟩ :=
      hsound'.run_calls hend (.seekReader p.cursor.writer :: m.calls Item.read)
    rw [hreads] at hend' hanswers'
    exact ⟨hanswers', last, hend'⟩
  · obtain ⟨sent, entry, rest, rfl, hfits, hlast⟩ := Message.split_of_lt hlacks
    obtain ⟨hsent, hrest⟩ := List.forall_mem_append.1 hm
    have hrefused := Message.runAll_refused hps hl hsent (hrest entry List.mem_cons_self) hfits hlast
    obtain ⟨-, hend, hanswers⟩ :=
      hsound.run_calls hp (Message.calls Item.write (sent ++ [entry]))
    rw [hrefused] at hend hanswers
    exact ⟨sent, entry, rest, rfl, hfits, hlast, hanswers, _, hend,
      hps.extends_appended hl hfits entry.1⟩

/-- Numbers in both orders, a flag, a text and zeros are written into the middle of a slice, and read
back. Behind them is no room for another flag. -/
theorem message_round_trip_slice :
    let w := (start [⟨true, false, .log⟩]).after
      [.allocate 0 16, .slice (.owner 0) 4 9, .call (.view 0) (.seekWriter 1)]
    let m : Message := [(.little, .scalar ⟨.uint16, 0x1234⟩ false), (.big, .flag true),
      (.little, .text "é" .latin1), (.little, .scalar ⟨.int16, 0x1234⟩ true), (.big, .zeros 2)]
    let longer : Message := m ++ [(.big, .flag true)]
    let writing := (m.calls Item.write).map (Prod.mk (.view 0))
    let reading := (.seekReader 1 :: m.calls Item.read).map (Prod.mk (.view 0))
    ((w.after (calling writing)).pane? (.view 0)).bind Pane.block =
        some [0, 0, 0, 0, 0, 0x34, 0x12, 1, 0xE9, 0x12, 0x34, 0, 0, 0, 0, 0] ∧
      (w.after (calling writing)).answersTo (.view 0) reading =
        (.done .unit :: m.answers Item.content).map (Outcome.map .answer) ∧
      ∃ sent next rest, longer = sent ++ next :: rest ∧ (Message.bytes sent).length ≤ 8 ∧
        8 < (Message.bytes sent).length + (next.2.bytesIn next.1).length := by
  intro w m longer writing reading
  have hbytes : ∃ bytes, Codec.latin1.encode "é" = .ok bytes := ⟨[0xE9], rfl⟩
  have hm : m.Encodable := by
    simp [m, Message.Encodable, Item.Encodable, Codec.latin1_inverts, hbytes]
  have hlonger : longer.Encodable := by
    simp [longer, m, Message.Encodable, Item.Encodable, Codec.latin1_inverts, hbytes]
  obtain ⟨hwritten, -⟩ :=
    message_round_trip (w := w) (h := .view 0) (m := m) ⟨_, _, rfl⟩ rfl rfl hm
  obtain ⟨-, hrefused⟩ :=
    message_round_trip (w := w) (h := .view 0) (m := longer) ⟨_, _, rfl⟩ rfl rfl hlonger
  obtain ⟨-, _, _, rfl, -, -, hread, -⟩ := hwritten (by decide)
  obtain ⟨sent, next, rest, hsplit, hfits, hlast, -⟩ := hrefused (by decide)
  exact ⟨by decide, hread, sent, next, rest, hsplit, hfits, hlast⟩

end World

end PacketMemory
