import PacketMemory.Proofs.Bounds
import PacketMemory.Proofs.Pane.Released
import PacketMemory.Proofs.World.Run

/-!
# Between handles, exactly

Bytes move between handles as if they were put aside in between, in whatever way the two handles
alias each other.

* `World.Reachable.copyBytes_moves` — when a copy from an index to an index succeeds, with what it is
  refused otherwise, and which bytes are where afterwards.
* `World.Reachable.transfer_relays` — a transfer is a reading and an appending, but one that happens
  as a whole or not at all.
-/

namespace PacketMemory

namespace World

variable {w : World} {source target : Handle} {p q : Pane} {index targetIndex length r : Nat}

/-! ## Copies at an index -/

/-- Where there is access on both sides, the bytes of the source come to the target, and nothing else
happens. -/
theorem Sound.copyBytes_apply (hw : w.Sound) (hp : w.pane? source = some p)
    (hq : w.pane? target = some q) (hpl : p.Live) (hql : q.Live)
    (hpr : index + length ≤ p.capacity) (hqr : targetIndex + length ≤ q.capacity) :
    ∃ r b b', w.root? target = some r ∧ q.block = some b ∧
      copyBytes source index target targetIndex length w = (.done (), w.setBlock r (some b')) ∧
      (w.setBlock r (some b')).pane? target = some { q with block := some b' } ∧
      Pane.bytesAt { q with block := some b' } targetIndex length = p.bytesAt index length ∧
      b'.length = b.length ∧
      ∀ k, k < q.offset + targetIndex ∨ q.offset + targetIndex + length ≤ k → b'[k]? = b[k]? := by
  have hqs := hw.pane hq
  have he := evolves_copied hw hp hq hpl hpr hqr
  have hlen := Pane.length_bytesAt (hw.pane hp) hpl hpr
  obtain ⟨_, _, hrun, rfl⟩ := copyBytes_succeeds hw hp hq hpl hql hpr hqr
  generalize p.bytesAt index length = bytes at he hlen hrun ⊢
  subst hlen
  obtain ⟨r, -, hr, -⟩ := root_of_pane hq
  obtain ⟨b, hb⟩ := Option.isSome_iff_exists.1 hql.2
  obtain ⟨b', hb'⟩ : ∃ b', (q.overwrite targetIndex bytes).block = some b' := by
    rw [Pane.overwrite, hb]
    exact ⟨_, rfl⟩
  have hoverwritten : q.overwrite targetIndex bytes = { q with block := some b' } := by
    rw [← hb']
    rfl
  have hstart : targetIndex ≤ q.capacity := Nat.le_trans (Nat.le_add_right ..) hqr
  have hsize := he.size
  rw [hb, hb'] at hsize
  have hinside : (q.overwrite targetIndex bytes).bytesAt targetIndex bytes.length = bytes :=
    Pane.bytesAt_overwrite hqs hql hstart
  have hseen := pane?_store_self hq he
  rw [hoverwritten, store_block hq hr] at hseen hrun
  rw [hoverwritten] at hinside
  exact ⟨r, b, b', hr, hb, hrun, hseen, hinside, Option.some.inj hsize,
    fun k hk => Pane.overwrite_outside hqs hb hb' hstart hk⟩

/-- **Copies move bytes as if they were put aside.** A copy between two handles succeeds iff neither
memory was released, the source has all of the bytes and the target has a place for all of them; the
source is checked first. Then the bytes that the source had before are those that the target has
now, however the two windows overlap, and every other byte and every index is what it was. -/
theorem Reachable.copyBytes_moves (hw : w.Reachable) (hp : w.pane? source = some p)
    (hq : w.pane? target = some q) (index targetIndex length : Nat) :
    let run := (Operation.copyBytes source index target targetIndex length).run w
    let given := p.released = false ∧ index + length ≤ p.capacity
    let taken := q.released = false ∧ targetIndex + length ≤ q.capacity
    ((∃ a w', run = (.done a, w')) ↔ given ∧ taken) ∧
    (¬given → run = (.failed (p.rangeRefusal index length), w)) ∧
    (given → ¬taken → run = (.failed (q.rangeRefusal targetIndex length), w)) ∧
    (given → taken → ∃ r b b', w.root? target = some r ∧ q.block = some b ∧
      run = (.done .unit, w.setBlock r (some b')) ∧
      (w.setBlock r (some b')).pane? target = some { q with block := some b' } ∧
      Pane.bytesAt { q with block := some b' } targetIndex length = p.bytesAt index length ∧
      b'.length = b.length ∧
      ∀ k, k < q.offset + targetIndex ∨ q.offset + targetIndex + length ≤ k → b'[k]? = b[k]?) := by
  intro run given taken
  have hs := hw.sound
  have hgiven : given ↔ p.Live ∧ index + length ≤ p.capacity :=
    and_congr_left' ⟨hs.live_of_pane hp, And.left⟩
  have htaken : taken ↔ q.Live ∧ targetIndex + length ≤ q.capacity :=
    and_congr_left' ⟨hs.live_of_pane hq, And.left⟩
  have hsource : ¬given → run = (.failed (p.rangeRefusal index length), w) := fun h =>
    Action.bind_failed (copyBytes_source_refused hp (hs.pane hp) (mt hgiven.2 h) ..)
  have htarget : given → ¬taken → run = (.failed (q.rangeRefusal targetIndex length), w) :=
    fun h h' => Action.bind_failed (copyBytes_target_refused hs hp (hgiven.1 h).1 (hgiven.1 h).2 hq
      (mt htaken.2 h'))
  have hdone := fun (h : given) (h' : taken) => hs.copyBytes_apply hp hq (hgiven.1 h).1
    (htaken.1 h').1 (hgiven.1 h).2 (htaken.1 h').2
  refine ⟨⟨?_, ?_⟩, hsource, htarget, ?_⟩
  · rintro ⟨a, w', hrun⟩
    by_cases h : given
    · by_cases h' : taken
      · exact ⟨h, h'⟩
      · exact nomatch hrun.symm.trans (htarget h h')
    · exact nomatch hrun.symm.trans (hsource h)
  · rintro ⟨h, h'⟩
    obtain ⟨r, b, b', -, -, hrun, -⟩ := hdone h h'
    exact ⟨_, _, Action.bind_done hrun⟩
  · intro h h'
    obtain ⟨r, b, b', hr, hb, hrun, hrest⟩ := hdone h h'
    exact ⟨r, b, b', hr, hb, Action.bind_done hrun, hrest⟩

/-- Two slices of six bytes, two bytes apart, and a copy of four bytes from the lower to the higher
one: the last two of them are overwritten before they could be read again. If both ranges are too
long, it is the one of the source that is reported. -/
theorem copyBytes_moves_overlapping :
    let w := (start [.standard]).after [.allocate 0 8,
      .call (.owner 0) (.pokeBytes 0 [1, 2, 3, 4, 5, 6]), .slice (.owner 0) 0 6,
      .slice (.owner 0) 2 6]
    (∃ b', (Operation.copyBytes (.view 0) 0 (.view 1) 0 4).run w =
        (.done .unit, w.setBlock 0 (some b')) ∧
      (b'.drop 2).take 4 = [1, 2, 3, 4] ∧ b'[1]? = some 2 ∧ b'[6]? = some 0) ∧
    (Operation.copyBytes (.view 0) 5 (.view 1) 6 4).run w =
      (.failed (.outOfBounds (.range 5 4 6)), w) := by
  intro w
  have hw : w.Reachable := ⟨_, _, rfl⟩
  have hp : w.pane? (.view 0) =
      some ⟨some [1, 2, 3, 4, 5, 6, 0, 0], false, 0, 6, Cursor.holding 6, default⟩ := by rfl
  have hq : w.pane? (.view 1) =
      some ⟨some [1, 2, 3, 4, 5, 6, 0, 0], false, 2, 6, Cursor.holding 6, default⟩ := by rfl
  refine ⟨?_, ?_⟩
  · obtain ⟨-, -, -, hdone⟩ := hw.copyBytes_moves hp hq 0 0 4
    obtain ⟨r, b, b', hr, hb, hrun, -, hbytes, -, houtside⟩ := hdone (by decide) (by decide)
    obtain rfl : 0 = r := Option.some.inj ((by rfl : w.root? (.view 1) = some 0).symm.trans hr)
    obtain rfl := Option.some.inj hb
    exact ⟨b', hrun, hbytes, houtside 1 (by decide), houtside 6 (by decide)⟩
  · exact (hw.copyBytes_moves hp hq 5 6 4).2.1 (by decide)

/-! ## Transfers -/

/-- Reading through a handle what is there. -/
theorem run_readBytes (hp : w.pane? source = some p) (hs : p.Sound) (hl : p.Live)
    (hread : length ≤ p.cursor.writer - p.cursor.reader) :
    (Operation.call source (.readBytes length)).run w =
      (.done (.answer (.bytes (p.bytesAt p.cursor.reader length))),
        w.store source (p.consumed length)) := by
  have hrun : (Call.readBytes length).run p = _ := Action.bind_done (Pane.readBytes_apply hs hl hread)
  rw [run_call hp, hrun]
  rfl

/-- What was read can be appended where there is room for it. -/
theorem run_appendBytes (hw : w.Sound) (hp : w.pane? source = some p) (hpl : p.Live)
    (hread : length ≤ p.cursor.writer - p.cursor.reader) (hq : w.pane? target = some q)
    (hql : q.Live) (hwrite : length ≤ q.capacity - q.cursor.writer) :
    let w' := w.store source (p.consumed length)
    let bytes := p.bytesAt p.cursor.reader length
    (Operation.call target (.appendBytes bytes)).run w' = (.done .unit,
      w'.store target
        (Pane.appended { q with cursor := cursorBehind source target p q length } bytes)) := by
  intro w' bytes
  have hps := hw.pane hp
  have hlen : bytes.length = length :=
    Pane.length_bytesAt hps hpl (Demand.range_of_readable hps hread)
  have hw' : w'.Sound := hw.store hp (hps.evolves_consumed hread)
  have hq' := pane?_consumed hps hp hq hread
  have hwriter := writer_cursorBehind hp hq length
  generalize cursorBehind source target p q length = c at hq' hwriter
  have hroom : bytes.length ≤ q.capacity - c.writer := by rw [hlen, hwriter]; exact hwrite
  have hrun : (Call.appendBytes bytes).run { q with cursor := c } = _ :=
    Action.bind_done (Pane.appendBytes_apply (hw'.pane hq') hql hroom)
  rw [run_call hq', hrun]
  rfl

/-- Where bytes are refused does not depend on what was read. -/
theorem run_appendBytes_refused (hw : w.Sound) (hp : w.pane? source = some p)
    (hread : length ≤ p.cursor.writer - p.cursor.reader) (hq : w.pane? target = some q)
    (h : ¬(q.Live ∧ length ≤ q.capacity - q.cursor.writer)) {bytes : List UInt8}
    (hlen : bytes.length = length) :
    let w' := w.store source (p.consumed length)
    (Operation.call target (.appendBytes bytes)).run w' =
      (.failed (q.writingRefusal length), w') := by
  intro w'
  have hps := hw.pane hp
  have hw' : w'.Sound := hw.store hp (hps.evolves_consumed hread)
  have hq' := pane?_consumed hps hp hq hread
  have hwriter := writer_cursorBehind hp hq length
  generalize cursorBehind source target p q length = c at hq' hwriter
  have hrefusal : Pane.writingRefusal { q with cursor := c } length = q.writingRefusal length := by
    show (if q.Live ∧ q.capacity - c.writer < length then
      Failure.outOfBounds (.unwritable c.writer length q.capacity) else .memoryAccess) = _
    rw [hwriter]
    rfl
  subst hlen
  refine call_ends (o := some _) hq' (Action.bind_failed (Action.bind_failed ?_))
  rw [← hrefusal]
  exact Pane.writingAt_refused (hw'.pane hq') (hwriter ▸ h)

/-- **A transfer is a reading and an appending in one.** It succeeds iff neither memory was released,
the bytes can be read from the source and there is room for them in the target. Then it leads to the
world that reading the bytes and appending them leads to, however the two handles alias each other.
Otherwise nothing changes, and it fails like the first of the two that fails; done separately, the
reading would be lost if the appending fails. -/
theorem Reachable.transfer_relays (hw : w.Reachable) (hp : w.pane? source = some p)
    (hq : w.pane? target = some q) (length : Nat) :
    let run := (Operation.transfer source target length).run w
    let reading := (Operation.call source (.readBytes length)).run w
    let writing bytes := (Operation.call target (.appendBytes bytes)).run reading.2
    let given := p.released = false ∧
      (Operation.call source (.canRead length)).run w = (.done (.answer (.flag true)), w)
    let taken := q.released = false ∧
      (Operation.call target (.canWrite length)).run w = (.done (.answer (.flag true)), w)
    ((∃ a w', run = (.done a, w')) ↔ given ∧ taken) ∧
    (given → taken → ∃ bytes w', reading.1 = .done (.answer (.bytes bytes)) ∧
      writing bytes = (.done .unit, w') ∧ run = (.done .unit, w')) ∧
    (¬given → ∃ e, reading = (.failed e, w) ∧ run = (.failed e, w)) ∧
    (given → ¬taken → ∃ bytes e, reading.1 = .done (.answer (.bytes bytes)) ∧
      reading.2.pane? source = some (p.consumed length) ∧
      writing bytes = (.failed e, reading.2) ∧ run = (.failed e, w)) := by
  intro run reading writing given taken
  have hs := hw.sound
  have hps := hs.pane hp
  have hqs := hs.pane hq
  have hgiven : given ↔ p.Live ∧ length ≤ p.cursor.writer - p.cursor.reader :=
    and_congr ⟨hs.live_of_pane hp, And.left⟩ (run_canRead_iff hp hps)
  have htaken : taken ↔ q.Live ∧ length ≤ q.capacity - q.cursor.writer :=
    and_congr ⟨hs.live_of_pane hq, And.left⟩ (run_canWrite_iff hq (hs.pane hq))
  have hdone : given → taken → ∃ bytes w', reading.1 = .done (.answer (.bytes bytes)) ∧
      writing bytes = (.done .unit, w') ∧ run = (.done .unit, w') := by
    intro h h'
    obtain ⟨hpl, hread⟩ := hgiven.1 h
    obtain ⟨hql, hwrite⟩ := htaken.1 h'
    have hreading : reading = _ := run_readBytes hp hps hpl hread
    obtain ⟨_, w', hrun, hw'⟩ := transfer_succeeds hs hp hq hpl hql hread hwrite
    refine ⟨p.bytesAt p.cursor.reader length, w', by rw [hreading], ?_, Action.bind_done hrun⟩
    show (Operation.call target (.appendBytes _)).run reading.2 = _
    rw [hreading, hw']
    exact run_appendBytes hs hp hpl hread hq hql hwrite
  have hsource : ¬given → ∃ e, reading = (.failed e, w) ∧ run = (.failed e, w) := by
    intro h
    have hrefused := Pane.readingAt_refused hps (mt hgiven.2 h)
    exact ⟨p.readingRefusal length,
      call_ends (o := some _) hp (Action.bind_failed (Action.bind_failed hrefused)),
      Action.bind_failed (transfer_source_refused hp hps (mt hgiven.2 h) target)⟩
  have htarget : given → ¬taken → ∃ bytes e, reading.1 = .done (.answer (.bytes bytes)) ∧
      reading.2.pane? source = some (p.consumed length) ∧
      writing bytes = (.failed e, reading.2) ∧ run = (.failed e, w) := by
    intro h h'
    obtain ⟨hpl, hread⟩ := hgiven.1 h
    have hreading : reading = _ := run_readBytes hp hps hpl hread
    have hlen := Pane.length_bytesAt hps hpl (Demand.range_of_readable hps hread)
    refine ⟨p.bytesAt p.cursor.reader length, q.writingRefusal length, by rw [hreading], ?_, ?_,
      Action.bind_failed (transfer_target_refused hs hp hpl hread hq (mt htaken.2 h'))⟩
    · rw [hreading]
      exact pane?_store_self hp (hps.evolves_consumed hread)
    · show (Operation.call target (.appendBytes _)).run reading.2 = (_, reading.2)
      rw [hreading]
      exact run_appendBytes_refused hs hp hread hq (mt htaken.2 h') hlen
  refine ⟨⟨?_, ?_⟩, hdone, hsource, htarget⟩
  · rintro ⟨a, w', hrun⟩
    by_cases h : given
    · by_cases h' : taken
      · exact ⟨h, h'⟩
      · obtain ⟨-, e, -, -, -, hfailed⟩ := htarget h h'
        exact nomatch hrun.symm.trans hfailed
    · obtain ⟨e, -, hfailed⟩ := hsource h
      exact nomatch hrun.symm.trans hfailed
  · rintro ⟨h, h'⟩
    obtain ⟨-, w', -, -, hrun⟩ := hdone h h'
    exact ⟨_, w', hrun⟩

/-- Two slices of six bytes, two bytes apart, the higher one with room for five. Four bytes are
transferred as if they were read first. Six are not transferred, and stay to be read; read on their
own, they would be gone. -/
theorem transfer_relays_aliasing :
    let w := (start [.standard]).after [.allocate 0 8,
      .call (.owner 0) (.pokeBytes 0 [1, 2, 3, 4, 5, 6]), .slice (.owner 0) 0 6,
      .slice (.owner 0) 2 6, .call (.view 1) (.seekWriter 1)]
    (∃ bytes w', ((Operation.call (.view 0) (.readBytes 4)).run w).1 =
        .done (.answer (.bytes bytes)) ∧
      (Operation.call (.view 1) (.appendBytes bytes)).run
        ((Operation.call (.view 0) (.readBytes 4)).run w).2 = (.done .unit, w') ∧
      (Operation.transfer (.view 0) (.view 1) 4).run w = (.done .unit, w')) ∧
    ∃ e, (Operation.transfer (.view 0) (.view 1) 6).run w = (.failed e, w) ∧
      (((Operation.call (.view 0) (.readBytes 6)).run w).2.pane? (.view 0)).map
        (fun p => p.cursor.reader) = some 6 := by
  intro w
  have hw : w.Reachable := ⟨_, _, rfl⟩
  have hp : w.pane? (.view 0) =
      some ⟨some [1, 2, 3, 4, 5, 6, 0, 0], false, 0, 6, Cursor.holding 6, default⟩ := by rfl
  have hq : w.pane? (.view 1) =
      some ⟨some [1, 2, 3, 4, 5, 6, 0, 0], false, 2, 6, ⟨0, 1, 0, 0⟩, default⟩ := by rfl
  refine ⟨?_, ?_⟩
  · obtain ⟨-, hdone, -, -⟩ := hw.transfer_relays hp hq 4
    exact hdone ⟨rfl, by rfl⟩ ⟨rfl, by rfl⟩
  · obtain ⟨-, -, -, htarget⟩ := hw.transfer_relays hp hq 6
    obtain ⟨bytes, e, -, hlost, -, hrun⟩ := htarget ⟨rfl, by rfl⟩ fun h => nomatch h.2
    exact ⟨e, hrun, by rw [hlost]; rfl⟩

end World

end PacketMemory
