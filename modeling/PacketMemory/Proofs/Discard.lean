import PacketMemory.Proofs.Pane.Stream
import PacketMemory.Proofs.World.Calls

/-!
# Discarding keeps the stream

Discarding moves the readable bytes to the start of the window and all indices and marks with them.
It changes where bytes are, and nothing about what is read.

* `World.SameReads` relates two worlds in which a handle reads the same, and in which the memory of all
  others is the same. A discard in one of them keeps it (`World.SameReads.discard`), and so does every
  operation that reads at the cursor, which comes to the same in both (`World.SameReads.read`).
* `World.readings` is what a history comes to if discards are not looked at. By induction along the
  history it does not matter whether they happen (`World.SameReads.readings`).

Main statement: `World.Reachable.discard_keeps_stream`.
-/

namespace PacketMemory

/-- Discarding what was read through a handle. -/
def Operation.discards (h : Handle) : Operation → Bool
  | .call k .compact => decide (k = h)
  | _ => false

namespace World

/-- An operation that reads at the cursor of a handle: a call that does, or a transfer to other memory.
(A transfer to a handle of the same memory writes where it may read later on.) -/
inductive Reads (w : World) (h : Handle) : Operation → Prop
  | call {request : Call} : request.reading?.isSome = true → Reads w h (.call h request)
  | transfer {target : Handle} {i : Nat} (length : Nat) :
    w.root? target = some i → w.root? h ≠ some i → Reads w h (.transfer h target length)

/-- What the operations of a history come to that do not discard. Refusals count by their kind, since
their text tells the indices. -/
def readings (w : World) (h : Handle) : List Operation → List (Outcome FailureKind Reply)
  | [] => []
  | op :: rest =>
    let r := op.run w
    if op.discards h then readings r.2 h rest
    else r.1.mapError Failure.kind :: readings r.2 h rest

/-- The same can be read through the handle in two worlds that come from `origin`, and all memory but
its own is the same. -/
structure SameReads (origin : World) (h : Handle) (w w' : World) : Prop where
  left : w.Sound
  right : w'.Sound
  stream : ∃ p q, w.pane? h = some p ∧ w'.pane? h = some q ∧ p.Live ∧ q.Live ∧ p.SameStream q
  roots : ∀ k, w.root? k = origin.root? k ∧ w'.root? k = origin.root? k
  others : ∀ k i, origin.root? k = some i → origin.root? h ≠ some i → w'.pane? k = w.pane? k

variable {origin w w' : World} {h k : Handle} {i : Nat} {p p' q q' x x' : Pane} {op : Operation}

theorem readings_cons_discard (hop : op.discards h = true) (rest : List Operation) :
    w.readings h (op :: rest) = readings (op.run w).2 h rest := by
  rw [readings, if_pos hop]

theorem readings_cons_read (hop : op.discards h = false) (rest : List Operation) :
    w.readings h (op :: rest) =
      (op.run w).1.mapError Failure.kind :: readings (op.run w).2 h rest := by
  rw [readings, hop, if_neg Bool.false_ne_true]

/-- The compaction of a handle is the only operation that discards. -/
theorem eq_of_discards (hop : op.discards h = true) : op = .call h .compact := by
  unfold Operation.discards at hop
  split at hop
  · rw [of_decide_eq_true hop]
  · cases hop

theorem Reads.discards_eq (hop : w.Reads h op) : op.discards h = false := by
  cases hop with
  | call hreading =>
    unfold Operation.discards
    split
    · next heq =>
      cases heq
      cases hreading
    · rfl
  | transfer => rfl

/-! ## Work on one of two worlds, or on both -/

/-- Work through a handle leaves the memory of others alone. -/
theorem Sound.pane?_store_apart (hw : w.Sound) (hp : w.pane? h = some p) (p' : Pane)
    (hk : w.root? k = some i) (hne : w.root? h ≠ some i) :
    (w.store h p').pane? k = w.pane? k := by
  obtain ⟨-, x, -, hx, -⟩ := hw.pane_of_root hk
  have hkh : k ≠ h := fun e => hne (e ▸ hk)
  rw [pane?_store_of_ne hp p' hkh hx, hk, if_neg hne.symm, hx]

/-- What is refused of live memory is out of bounds. -/
theorem Sound.kind_readingRefusal (hw : w.Sound) (hp : w.pane? h = some p) (hl : p.Live) {length : Nat}
    (hlt : ¬length ≤ p.unread.length) : (p.readingRefusal length).kind = .outOfBounds := by
  have hlen := Pane.length_unread (hw.pane hp) hl
  rw [Pane.readingRefusal, if_pos ⟨hl, by omega⟩]
  rfl

/-- A transfer to another handle moves bytes from the front of the readable ones, if there are enough of
them and there is room. -/
theorem Sound.run_transfer_ne (hw : w.Sound) (hp : w.pane? h = some p) (hl : p.Live)
    (hx : w.pane? k = some x) (hkh : k ≠ h) (length : Nat) :
    (Operation.transfer h k length).run w =
      if length ≤ p.unread.length then
        if x.Live ∧ length ≤ x.capacity - x.cursor.writer then
          (.done .unit, (w.store h (p.consumed length)).store k (x.appended (p.unread.take length)))
        else (.failed (x.writingRefusal length), w)
      else (.failed (p.readingRefusal length), w) := by
  have hlen := Pane.length_unread (hw.pane hp) hl
  by_cases hread : length ≤ p.cursor.writer - p.cursor.reader
  · rw [if_pos (hlen ▸ hread)]
    by_cases hwrite : x.Live ∧ length ≤ x.capacity - x.cursor.writer
    · obtain ⟨_, _, hrun, rfl⟩ := transfer_succeeds hw hp hx hl hwrite.1 hread hwrite.2
      rw [cursorBehind, if_neg hkh] at hrun
      rw [if_pos hwrite, Pane.take_unread hread]
      exact Action.bind_done hrun
    · rw [if_neg hwrite]
      exact Action.bind_failed (transfer_target_refused hw hp hl hread hx hwrite)
  · rw [if_neg (hlen ▸ hread)]
    exact Action.bind_failed (transfer_source_refused hp (hw.pane hp) (fun hgiven => hread hgiven.2) k)

namespace SameReads

theorem refl (hw : w.Sound) (hp : w.pane? h = some p) (hl : p.Live) : SameReads w h w w where
  left := hw
  right := hw
  stream := ⟨p, p, hp, hp, hl, hl, .refl p⟩
  roots _ := ⟨rfl, rfl⟩
  others _ _ _ _ := rfl

/-- Work through the handle that leaves the same to read in both worlds. -/
theorem store_reader (hs : SameReads origin h w w') (hp : w.pane? h = some p)
    (hq : w'.pane? h = some q) (he : p.Evolves p') (he' : q.Evolves q') (hl : p.Live) (hl' : q.Live)
    (hstream : p'.SameStream q') : SameReads origin h (w.store h p') (w'.store h q') where
  left := hs.left.store hp he
  right := hs.right.store hq he'
  stream := ⟨p', q', pane?_store_self hp he, pane?_store_self hq he', hl.of_evolves he,
    hl'.of_evolves he', hstream⟩
  roots k := by
    rw [root?_store hp, root?_store hq]
    exact hs.roots k
  others k i hk hne := by
    have hsame := hs.others k i hk hne
    obtain ⟨hroot, hroot'⟩ := hs.roots h
    obtain ⟨hother, hother'⟩ := hs.roots k
    rw [hs.left.pane?_store_apart hp p' (hother.trans hk) (hroot ▸ hne),
      hs.right.pane?_store_apart hq q' (hother'.trans hk) (hroot' ▸ hne), hsame]

/-- The same work on memory of somebody else. -/
theorem store_other (hs : SameReads origin h w w') (hk : origin.root? k = some i)
    (hne : origin.root? h ≠ some i) (hx : w.pane? k = some x) (he : x.Evolves x') :
    SameReads origin h (w.store k x') (w'.store k x') := by
  have hx' : w'.pane? k = some x := (hs.others k i hk hne).trans hx
  obtain ⟨p, q, hp, hq, hl, hl', hstream⟩ := hs.stream
  obtain ⟨j, -, hj, -⟩ := root_of_pane hp
  obtain ⟨hroot, hroot'⟩ := hs.roots h
  obtain ⟨hother, hother'⟩ := hs.roots k
  have hij : some i ≠ some j := fun e => hne (hroot.symm.trans (hj.trans e.symm))
  refine ⟨hs.left.store hx he, hs.right.store hx' he, ⟨p, q, ?_, ?_, hl, hl', hstream⟩, ?_, ?_⟩
  · rw [hs.left.pane?_store_apart hx x' hj (hother ▸ hk ▸ hij), hp]
  · rw [hs.right.pane?_store_apart hx' x' (hroot'.trans (hroot.symm.trans hj))
      (hother' ▸ hk ▸ hij), hq]
  · intro k'
    rw [root?_store hx, root?_store hx']
    exact hs.roots k'
  · intro k' i' hk' hne'
    have hsame := hs.others k' i' hk' hne'
    obtain ⟨hthird, hthird'⟩ := hs.roots k'
    obtain ⟨-, y, -, hy, -⟩ := hs.left.pane_of_root (hthird.trans hk')
    by_cases hkk : k' = k
    · subst hkk
      rw [pane?_store_self hx he, pane?_store_self hx' he]
    · rw [pane?_store_of_ne hx x' hkk hy, pane?_store_of_ne hx' x' hkk (hsame.trans hy), hthird,
        hthird', hother, hother']

/-! ## Steps -/

/-- Discarding in one of the worlds cannot be told. -/
theorem discard (hs : SameReads origin h w w') :
    SameReads origin h ((Operation.call h .compact).run w).2 w' := by
  obtain ⟨p, q, hp, hq, hl, hl', hstream⟩ := hs.stream
  have hps := hs.left.pane hp
  have hqs := hs.right.pane hq
  have hstep := hs.store_reader hp hq hps.evolves_discarded hqs.evolves_refl hl hl'
    (hstream.discarded hps hl)
  rw [store_self hq] at hstep
  rw [run_call hp, Call.run_compact hps hl]
  exact hstep

/-- A call that reads comes to the same in both worlds. -/
theorem call (hs : SameReads origin h w w') {request : Call} (hr : request.reading?.isSome = true) :
    let op := Operation.call h request
    (op.run w').1.mapError Failure.kind = (op.run w).1.mapError Failure.kind ∧
      SameReads origin h (op.run w).2 (op.run w').2 := by
  intro op
  obtain ⟨p, q, hp, hq, hl, hl', hstream⟩ := hs.stream
  have hps := hs.left.pane hp
  have hqs := hs.right.pane hq
  obtain ⟨r, hr⟩ := Option.isSome_iff_exists.1 hr
  have he := request.run_evolves hps
  have he' := request.run_evolves hqs
  obtain ⟨hsame, hafter⟩ := Reading.run_stream hstream r
  rw [← Call.run_reading hps hl hr, ← Call.run_reading hqs hl' hr] at hsame hafter
  rw [run_call hp, run_call hq]
  refine ⟨?_, hs.store_reader hp hq he he' hl hl' hafter⟩
  simp only [Outcome.mapError_map, hsame]

/-- What comes from the readable bytes arrives in both worlds, or in neither. -/
theorem transfer (hs : SameReads origin h w w') (hk : origin.root? k = some i)
    (hne : origin.root? h ≠ some i) (length : Nat) :
    let op := Operation.transfer h k length
    (op.run w').1.mapError Failure.kind = (op.run w).1.mapError Failure.kind ∧
      SameReads origin h (op.run w).2 (op.run w').2 := by
  intro op
  obtain ⟨p, q, hp, hq, hl, hl', hstream⟩ := hs.stream
  have hps := hs.left.pane hp
  have hqs := hs.right.pane hq
  have hroot : w.root? k = some i := (hs.roots k).1.trans hk
  have hapart : w.root? h ≠ some i := (hs.roots h).1 ▸ hne
  obtain ⟨-, x, -, hx, -⟩ := hs.left.pane_of_root hroot
  have hx' : w'.pane? k = some x := (hs.others k i hk hne).trans hx
  have hkh : k ≠ h := fun e => hne (e ▸ hk)
  have hlen := Pane.length_unread hps hl
  have hlen' := Pane.length_unread hqs hl'
  rw [hs.left.run_transfer_ne hp hl hx hkh, hs.right.run_transfer_ne hq hl' hx' hkh,
    hstream.unread]
  rw [hstream.unread] at hlen'
  by_cases hread : length ≤ p.unread.length
  · rw [if_pos hread, if_pos hread]
    by_cases hwrite : x.Live ∧ length ≤ x.capacity - x.cursor.writer
    · rw [if_pos hwrite, if_pos hwrite]
      have hafter := hs.store_reader hp hq (hps.evolves_consumed (hlen ▸ hread))
        (hqs.evolves_consumed (hlen' ▸ hread)) hl hl' (hstream.consumed length)
      have hx₁ : (w.store h (p.consumed length)).pane? k = some x := by
        rw [hs.left.pane?_store_apart hp _ hroot hapart, hx]
      have hroom : (p.unread.take length).length ≤ x.capacity - x.cursor.writer :=
        Nat.le_trans (List.length_take_le ..) hwrite.2
      exact ⟨rfl, hafter.store_other hk hne hx₁ ((hs.left.pane hx).evolves_appended hroom)⟩
    · rw [if_neg hwrite, if_neg hwrite]
      exact ⟨rfl, hs⟩
  · rw [if_neg hread, if_neg hread]
    have hkind := hs.right.kind_readingRefusal hq hl' (hstream.unread ▸ hread)
    rw [← hs.left.kind_readingRefusal hp hl hread] at hkind
    exact ⟨congrArg Outcome.failed hkind, hs⟩

/-- **A step that reads** comes to the same in both worlds, and they stay alike. -/
theorem read (hs : SameReads origin h w w') (hop : origin.Reads h op) :
    (op.run w').1.mapError Failure.kind = (op.run w).1.mapError Failure.kind ∧
      SameReads origin h (op.run w).2 (op.run w').2 := by
  cases hop with
  | call hreading => exact hs.call hreading
  | transfer length hk hne => exact hs.transfer hk hne length

/-! ## Runs -/

/-- **Histories that read come to the same**, whether what was read is discarded in between or not. -/
theorem readings (hs : SameReads origin h w w') (history : List Operation)
    (honly : ∀ op ∈ history, op.discards h = true ∨ origin.Reads h op) :
    let reads := history.filter fun op => !op.discards h
    w'.readings h reads = w.readings h history ∧
      SameReads origin h (w.after history) (w'.after reads) := by
  induction history generalizing w w' with
  | nil => exact ⟨rfl, hs⟩
  | cons op rest ih =>
    have hrest : ∀ op ∈ rest, op.discards h = true ∨ origin.Reads h op := fun op hop =>
      honly op (List.mem_cons_of_mem _ hop)
    intro reads
    rcases honly op List.mem_cons_self with hop | hop
    · have hreads : reads = rest.filter fun op => !op.discards h :=
        List.filter_cons_of_neg (by rw [hop]; decide)
      rw [hreads, readings_cons_discard hop, after_cons, eq_of_discards hop]
      exact ih hs.discard hrest
    · have hdiscards := hop.discards_eq
      have hreads : reads = op :: rest.filter fun op => !op.discards h :=
        List.filter_cons_of_pos (by rw [hdiscards]; rfl)
      obtain ⟨hsame, hs'⟩ := hs.read hop
      obtain ⟨hreadings, hafter⟩ := ih hs' hrest
      rw [hreads, readings_cons_read hdiscards, readings_cons_read hdiscards, hsame, hreadings]
      exact ⟨rfl, hafter⟩

end SameReads

/-- Asking what can be read and what there is room for. -/
theorem run_room (hp : w.pane? h = some p) (hs : p.Sound) :
    (Operation.call h .room).run w = (.done (.answer (.room (p.cursor.writer - p.cursor.reader)
      (p.capacity - p.cursor.writer))), w) := by
  have hreadable := Cursor.readable_apply (ε := Failure) hs.cursor.reader_le
  have hwritable := Cursor.writable_apply (ε := Failure) hs.cursor.writer_le
  exact call_query hp ((Action.bind_done (Pane.onCursor_query hreadable)).trans
    (Action.bind_done (Pane.onCursor_query hwritable)))

theorem run_compact (hp : w.pane? h = some p) (hs : p.Sound) (hl : p.Live) :
    (Operation.call h .compact).run w = (.done .unit, w.store h p.discarded) := by
  rw [run_call hp, Call.run_compact hs hl]
  rfl

/-! ## After a discard -/

/-- What can be read is what could be read before, at the start of the window. -/
theorem contents_discarded (hp' : w'.pane? h = some p.discarded) (hs : p.Sound) (hl : p.Live) :
    (Operation.call h .contents).run w' = (.done (.answer (.bytes p.unread)), w') ∧
      (Operation.call h (.peekBytes 0 (p.cursor.writer - p.cursor.reader))).run w' =
        (.done (.answer (.bytes p.unread)), w') := by
  have he := hs.evolves_discarded
  have hreader := hs.cursor.reader_le
  have hwriter := hs.cursor.writer_le
  have hfit : 0 + (p.cursor.writer - p.cursor.reader) ≤ p.discarded.capacity := by
    show _ ≤ p.capacity
    omega
  rw [← Pane.unread_discarded hs hl]
  exact ⟨run_contents hp' (hs.of_evolves he) (hl.of_evolves he),
    run_peekBytes hp' (hs.of_evolves he) (hl.of_evolves he) hfit⟩

/-- There is more room by as many bytes as were read. -/
theorem room_discarded (hp' : w'.pane? h = some p.discarded) (hs : p.Sound) :
    (Operation.call h .room).run w' = (.done (.answer (.room (p.cursor.writer - p.cursor.reader)
      (p.capacity - p.cursor.writer + p.cursor.reader))), w') := by
  have hreader := hs.cursor.reader_le
  have hwriter := hs.cursor.writer_le
  have hroom : p.capacity - (p.cursor.writer - p.cursor.reader) =
      p.capacity - p.cursor.writer + p.cursor.reader := by omega
  rw [← hroom]
  exact run_room hp' (hs.of_evolves hs.evolves_discarded)

/-- Where nothing was read, there is nothing to discard. -/
theorem run_compact_of_start (hp : w.pane? h = some p) (hs : p.Sound) (hl : p.Live)
    (hstart : p.cursor.reader = 0) :
    (Operation.call h .compact).run w = (.done .unit, w) := by
  have hrun := run_compact hp hs hl
  rwa [Pane.discarded_of_start hs hstart, store_self hp] at hrun

/-- **Discarding keeps the stream.** On memory that was not released, discarding through any handle
succeeds. Afterwards the readable bytes are those of before, and lie at the start of the window; there
is more room by as many bytes as were read, the marks are shifted with the reader, and a byte at a mark
in the readable bytes is still there. The bytes behind the readable ones, and those outside of the
window, are what they were. Discarding once more changes nothing, as long as nothing is read. And however
often it happens in a sequence of operations that read at the cursor, these come to what they come to
without it, and so does all other memory they write to. Transfers to the same memory are no such
operations (`Reads`): they also write, and where they do, a discard may have moved bytes that are still to
be read. -/
theorem Reachable.discard_keeps_stream (hw : w.Reachable) (hp : w.pane? h = some p)
    (hr : p.released = false) :
    let discard := Operation.call h .compact
    let c := p.cursor
    let readable := c.writer - c.reader
    (∃ w' b b', discard.run w = (.done .unit, w') ∧ p.block = some b ∧
      w'.pane? h = some { p with
        block := some b'
        cursor := ⟨0, readable, c.markedReader - c.reader, c.markedWriter - c.reader⟩ } ∧
      (∃ bytes, bytes.length = readable ∧
        (Operation.call h .contents).run w = (.done (.answer (.bytes bytes)), w) ∧
        (Operation.call h .contents).run w' = (.done (.answer (.bytes bytes)), w') ∧
        (Operation.call h (.peekBytes 0 readable)).run w' =
          (.done (.answer (.bytes bytes)), w')) ∧
      (∃ room, (Operation.call h .room).run w = (.done (.answer (.room readable room)), w) ∧
        (Operation.call h .room).run w' =
          (.done (.answer (.room readable (room + c.reader))), w')) ∧
      b'.length = b.length ∧
      (∀ i, i < p.offset ∨ p.offset + readable ≤ i → b'[i]? = b[i]?) ∧
      (∀ mark, c.reader ≤ mark → mark < c.writer →
        b'[p.offset + (mark - c.reader)]? = b[p.offset + mark]?) ∧
      discard.run w' = (.done .unit, w')) ∧
    (c.reader = 0 → discard.run w = (.done .unit, w)) ∧
    ∀ history, (∀ op ∈ history, op.discards h = true ∨ w.Reads h op) →
      let reads := history.filter fun op => !op.discards h
      w.readings h reads = w.readings h history ∧
        ∀ k i, w.root? k = some i → w.root? h ≠ some i →
          (w.after reads).pane? k = (w.after history).pane? k := by
  intro discard c readable
  have hs := hw.sound
  have hps := hs.pane hp
  have hl := hs.live_of_pane hp hr
  refine ⟨?_, ?_, ?_⟩
  · have he := hps.evolves_discarded
    have hp' := pane?_store_self hp he
    have hl' : p.discarded.Live := hl.of_evolves he
    obtain ⟨b, hb⟩ := Option.isSome_iff_exists.1 hl.2
    obtain ⟨b', hb'⟩ := Option.isSome_iff_exists.1 hl'.2
    have hsize := he.size
    rw [hb, hb'] at hsize
    refine ⟨_, b, b', run_compact hp hps hl, hb, ?_, ?_, ?_, Option.some.inj hsize,
      fun i hi => Pane.discarded_outside hps hb hb' hi,
      fun mark hle hlt => Pane.discarded_shifted hps hl hb hb' hle hlt, ?_⟩
    · rw [hp', ← hb']
      rfl
    · exact ⟨p.unread, Pane.length_unread hps hl, run_contents hp hps hl,
        contents_discarded hp' hps hl⟩
    · exact ⟨_, run_room hp hps, room_discarded hp' hps⟩
    · exact run_compact_of_start hp' (hps.of_evolves he) hl' rfl
  · exact run_compact_of_start hp hps hl
  · intro history honly
    obtain ⟨hreadings, hafter⟩ := (SameReads.refl hs hp hl).readings history honly
    exact ⟨hreadings, hafter.others⟩

/-- A slice, of which one byte was read; one mark is behind the reader and one before it. Discarding
moves the four bytes that are left. Taking one of them, then two to another owner, and then asking for
two where one is left, comes to the same with discards in between. -/
theorem discard_keeps_stream_slice :
    let w := (start [.standard]).after [.allocate 0 8, .allocate 0 4,
      .call (.owner 0) (.pokeBytes 0 [1, 2, 3, 4, 5, 6, 7, 8]), .slice (.owner 0) 2 5,
      .call (.view 0) (.seekReader 3), .call (.view 0) .saveReader,
      .call (.view 0) (.seekReader 1)]
    let discard := Operation.call (.view 0) .compact
    let first := Operation.call (.view 0) (.readBytes 1)
    let second := Operation.transfer (.view 0) (.owner 1) 2
    let third := Operation.call (.view 0) (.readScalar .uint16 false)
    (∃ w' b', discard.run w = (.done .unit, w') ∧
      w'.pane? (.view 0) = some ⟨some b', false, 2, 5, ⟨0, 4, 2, 0⟩, default⟩ ∧
      (Operation.call (.view 0) (.peekBytes 0 4)).run w' =
        (.done (.answer (.bytes [4, 5, 6, 7])), w') ∧
      b'[6]? = some 7 ∧ b'[4]? = some 6 ∧ discard.run w' = (.done .unit, w')) ∧
    w.readings (.view 0) [first, second, third] =
      w.readings (.view 0) [discard, first, discard, discard, second, discard, third] := by
  intro w discard first second third
  have hw : w.Reachable := ⟨_, _, rfl⟩
  have hp : w.pane? (.view 0) =
      some ⟨some [1, 2, 3, 4, 5, 6, 7, 8], false, 2, 5, ⟨1, 5, 3, 0⟩, default⟩ := by rfl
  obtain ⟨⟨w', b, b', hrun, hb, hp', ⟨bytes, -, hcontents, -, hpeek⟩, -, -, houtside, hmark, hagain⟩,
    -, hreadings⟩ := hw.discard_keeps_stream hp rfl
  refine ⟨⟨w', b', hrun, hp', ?_, ?_, ?_, hagain⟩, ?_⟩
  · have hbytes := (by rfl : (Operation.call (.view 0) .contents).run w =
      (.done (.answer (.bytes [4, 5, 6, 7])), w)).symm.trans hcontents
    cases hbytes
    exact hpeek
  · obtain rfl := Option.some.inj hb
    exact houtside 6 (by decide)
  · obtain rfl := Option.some.inj hb
    exact hmark 3 (by decide) (by decide)
  · have hdiscard : discard.discards (.view 0) = true := by rfl
    have hfirst : w.Reads (.view 0) first := .call rfl
    have hroot : w.root? (.view 0) = some 0 := by rfl
    have hother : w.root? (.owner 1) = some 1 := by rfl
    have hsecond : w.Reads (.view 0) second := .transfer 2 hother (by rw [hroot]; decide)
    have hthird : w.Reads (.view 0) third := .call rfl
    have honly : ∀ op ∈ [discard, first, discard, discard, second, discard, third],
        op.discards (.view 0) = true ∨ w.Reads (.view 0) op := by
      simp [hdiscard, hfirst, hsecond, hthird]
    exact (hreadings _ honly).1

/-- A transfer to another slice of the same memory writes the bytes 5 and 6 where 3 and 4 were, which has
no influence on what is read unless a discard has moved 7 and 8 there. -/
example :
    let w := (start [.standard]).after [.allocateCopy 0 [1, 2, 3, 4, 5, 6, 7, 8],
      .slice (.owner 0) 0 8, .slice (.owner 0) 2 2, .call (.view 1) (.seek 0 0)]
    let discard := Operation.call (.view 0) .compact
    let first := Operation.call (.view 0) (.readBytes 4)
    let second := Operation.transfer (.view 0) (.view 1) 2
    let third := Operation.call (.view 0) (.readBytes 2)
    w.readings (.view 0) [first, second, third] =
        [.done (.answer (.bytes [1, 2, 3, 4])), .done .unit, .done (.answer (.bytes [7, 8]))] ∧
      w.readings (.view 0) [first, discard, second, third] =
        [.done (.answer (.bytes [1, 2, 3, 4])), .done .unit, .done (.answer (.bytes [5, 6]))] :=
  ⟨rfl, rfl⟩

end World

end PacketMemory
