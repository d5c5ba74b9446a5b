import PacketMemory.Proofs.Frame
import PacketMemory.Proofs.Release
import PacketMemory.Proofs.Transfer

/-!
# Going back to marks

A handle can remember its reader, read on, and come back to read the same bytes again; and it can
remember its writer, write on, and come back to overwrite what it wrote. Nothing is checked when an
index is remembered. Whether it can be put back is a matter of the other index at that time: the reader
must not be put behind the writer, nor the writer before the reader. The capacity is no obstacle,
because marks never exceed it.

* `Operation.keepsReaderMark` and `Operation.keepsWriterMark` tell what may happen in between.
* One step of the first kind leaves the mark of the reader alone and does not put the writer back
  (`World.Sound.run_readerMark`); one of the second kind leaves the mark of the writer and the reader
  alone (`World.Sound.run_writerMark`). By induction, the same holds of a history
  (`World.Sound.after_leads`).

Main statement: `World.Reachable.marks_recalled`.
-/

namespace PacketMemory

/-! ## What may happen in between -/

/-- Calls that leave the mark of the reader in force: they remember no other one, and move the writer
only over bytes that they append. -/
def Call.keepsReaderMark : Call → Bool
  | saveReader | seekWriter _ | recallWriter | seek .. | rewind | compact => false
  | _ => true

/-- Calls that leave the mark of the writer in force: they remember no other one, and do not move the
reader. -/
def Call.keepsWriterMark : Call → Bool
  | saveWriter | seekReader _ | recallReader | skip _ | readScalar .. | readFlag | readBytes _
  | readText .. | seek .. | rewind | compact => false
  | _ => true

theorem Call.markedReader_notMem_moves {call : Call} :
    call.keepsReaderMark = true → Part.markedReader ∉ call.moves := by
  cases call <;> simp [keepsReaderMark, moves]

theorem Call.notMem_moves_of_keepsWriterMark {call : Call} :
    call.keepsWriterMark = true → Part.markedWriter ∉ call.moves ∧ Part.reader ∉ call.moves := by
  cases call <;> simp [keepsWriterMark, moves]

namespace Operation

/-- Operations that release nothing, and leave the handle and its capacity alone. -/
def retains (h : Handle) : Operation → Bool
  | release _ | close _ => false
  | drop k => decide (k ≠ h)
  | resize i _ => decide (.owner i ≠ h)
  | _ => true

/-- What may happen between remembering the reader of a handle and going back to it. Through the handle,
these are access at the cursor and at an index, moves of the reader, transfers in either direction, and
questions; and whatever goes through other handles, except for releases. -/
def keepsReaderMark (h : Handle) : Operation → Bool
  | call k request => decide (k ≠ h) || request.keepsReaderMark
  | op => op.retains h

/-- What may happen between remembering the writer of a handle and going back to it. Through the handle,
these are writes at the cursor, access at an index, moves of the writer, and questions; and whatever goes
through other handles, except for releases. -/
def keepsWriterMark (h : Handle) : Operation → Bool
  | call k request => decide (k ≠ h) || request.keepsWriterMark
  | transfer source _ _ => decide (source ≠ h)
  | op => op.retains h

variable {h : Handle} {op : Operation}

theorem retains_of_keepsReaderMark (hop : op.keepsReaderMark h = true) : op.retains h = true := by
  cases op <;> first | exact hop | rfl

theorem retains_of_keepsWriterMark (hop : op.keepsWriterMark h = true) : op.retains h = true := by
  cases op <;> first | exact hop | rfl

theorem given?_of_retains (hop : op.retains h = true) : op.given? = none := by
  cases op <;> first | rfl | cases hop

theorem notMem_givesUp_of_retains (hop : op.retains h = true) : h ∉ op.givesUp := by
  cases op with
  | close k => cases hop
  | drop k =>
    have hk : k ≠ h := of_decide_eq_true hop
    exact fun hmem => hk (List.mem_singleton.1 hmem).symm
  | _ => exact List.not_mem_nil

theorem markedReader_notMem_moves (hop : op.keepsReaderMark h = true) :
    Part.markedReader ∉ op.moves h := by
  cases op with
  | call k request =>
    rcases Bool.or_eq_true_iff.1 hop with hk | hrequest
    · simp [moves, (of_decide_eq_true hk).symm]
    · simp only [moves]
      split
      · exact Call.markedReader_notMem_moves hrequest
      · exact List.not_mem_nil
  | writeRecord k header => simp [moves]
  | transfer source target length => simp [moves]
  | resize i capacity => simp [moves, (of_decide_eq_true hop).symm]
  | _ => exact List.not_mem_nil

theorem notMem_moves_of_keepsWriterMark (hop : op.keepsWriterMark h = true) :
    Part.markedWriter ∉ op.moves h ∧ Part.reader ∉ op.moves h := by
  cases op with
  | call k request =>
    rcases Bool.or_eq_true_iff.1 hop with hk | hrequest
    · simp [moves, (of_decide_eq_true hk).symm]
    · simp only [moves]
      split
      · exact Call.notMem_moves_of_keepsWriterMark hrequest
      · exact ⟨List.not_mem_nil, List.not_mem_nil⟩
  | writeRecord k header => simp [moves]
  | transfer source target length => simp [moves, (of_decide_eq_true hop).symm]
  | resize i capacity => simp [moves, (of_decide_eq_true hop).symm]
  | _ => exact ⟨List.not_mem_nil, List.not_mem_nil⟩

end Operation

/-! ## The writer goes forward -/

open PacketMemory.Action

/-- What is produced goes behind the written bytes. -/
theorem Cursor.raises_produce (length : Nat) :
    Raises Cursor.writer (Cursor.produce length : Action Cursor Failure Unit) := by
  intro c
  rw [Cursor.produce, Action.state_bind_apply, Word.add]
  rcases hsum : Word.add? c.writer length with _ | writer
  · exact Nat.le_refl _
  · obtain ⟨-, rfl⟩ := Word.add?_eq_some_iff.1 hsum
    exact Nat.le_add_right _ _

namespace Pane

variable {length : Nat}

/-- Writing at the writer puts it forward. -/
theorem raises_append {poke : Nat → Task Unit}
    (hpoke : ∀ index, Keeps (fun p => p.cursor.writer) (poke index)) :
    Raises (fun p => p.cursor.writer) (do
      let index ← writingAt length
      poke index
      onCursor (Cursor.produce length)) :=
  Raises.bind (.of_keeps keeps_writingAt) fun index => Raises.bind (.of_keeps (hpoke index)) fun _ p =>
    Cursor.raises_produce length p.cursor

end Pane

/-- **A call that leaves the mark of the reader in force does not put the writer back.** -/
theorem Call.raises_writer {call : Call} (h : call.keepsReaderMark = true) :
    Raises (fun p => p.cursor.writer) call.run := by
  by_cases hmoves : Part.writer ∈ call.moves
  · have hblock : ∀ (p : Pane) b, ({ p with block := b } : Pane).cursor.writer = p.cursor.writer :=
      fun _ _ => rfl
    cases call with
    | appendScalar value reversed =>
      exact (Pane.raises_append fun _ => Pane.keeps_pokeScalar hblock value reversed).answer _
    | appendFlag value =>
      exact (Pane.raises_append fun _ => Pane.keeps_pokeScalar hblock _ false).answer _
    | appendBytes bytes =>
      exact (Pane.raises_append fun _ => Pane.keeps_pokeBytes hblock bytes).answer _
    | appendZero length =>
      exact (Pane.raises_append fun _ => Pane.keeps_pokeZero hblock).answer _
    | appendText text codec =>
      exact Raises.answer (Raises.bind (.of_keeps (.ofExcept _)) fun bytes =>
        (Pane.raises_append fun _ => Pane.keeps_pokeBytes hblock bytes).answer fun _ => bytes.length) _
    | _ => simp [keepsReaderMark, moves] at h hmoves
  · exact .of_keeps fun p => Part.others_eq_iff.1 (call.keeps p) .writer hmoves

theorem CaptureInfo.raises_writer (info : CaptureInfo) :
    Raises (fun p => p.cursor.writer) info.write := by
  have append : ∀ value : Scalar,
      Raises (fun p => p.cursor.writer) (Pane.appendScalar value false) := fun value =>
    Pane.raises_append fun _ => Pane.keeps_pokeScalar (fun _ _ => rfl) value false
  have room := Pane.keeps_moveWithin (g := fun p => p.cursor.writer)
    (Cursor.checkWritable CaptureRecord.size) fun _ _ => Cursor.keeps_checkWritable
  exact Raises.bind (.of_keeps (.ofExcept _)) fun _ => Raises.bind (.of_keeps room) fun _ =>
    (append _).bind fun _ => (append _).bind fun _ => (append _).bind fun _ => append _

/-! ## Marks in force -/

namespace Pane

/-- The mark of the reader stays in force: it is where it was, and the writer is no further down. -/
structure HoldsReaderMark (p p' : Pane) : Prop where
  released : p'.released = p.released
  mark : p'.cursor.markedReader = p.cursor.markedReader
  writer : p.cursor.writer ≤ p'.cursor.writer

/-- The mark of the writer stays in force: it is where it was, and so is the reader. -/
structure HoldsWriterMark (p p' : Pane) : Prop where
  released : p'.released = p.released
  mark : p'.cursor.markedWriter = p.cursor.markedWriter
  reader : p'.cursor.reader = p.cursor.reader

variable {p p' p'' : Pane}

theorem HoldsReaderMark.refl (p : Pane) : p.HoldsReaderMark p := ⟨rfl, rfl, Nat.le_refl _⟩

theorem HoldsReaderMark.trans (h : p.HoldsReaderMark p') (h' : p'.HoldsReaderMark p'') :
    p.HoldsReaderMark p'' :=
  ⟨h'.released.trans h.released, h'.mark.trans h.mark, Nat.le_trans h.writer h'.writer⟩

theorem HoldsWriterMark.refl (p : Pane) : p.HoldsWriterMark p := ⟨rfl, rfl, rfl⟩

theorem HoldsWriterMark.trans (h : p.HoldsWriterMark p') (h' : p'.HoldsWriterMark p'') :
    p.HoldsWriterMark p'' :=
  ⟨h'.released.trans h.released, h'.mark.trans h.mark, h'.reader.trans h.reader⟩

end Pane

/-! ## Remembering and going back -/

namespace Pane

variable {p : Pane}

/-- Going back to the mark of the reader is putting the reader there. -/
theorem recallReader_apply (hl : p.Live) :
    recallReader p = if p.cursor.markedReader ≤ p.cursor.writer then
      (.done (), { p with cursor := { p.cursor with reader := p.cursor.markedReader } })
    else
      (.failed (.outOfBounds (.reader p.cursor.markedReader p.cursor.writer)), p) := by
  have hsame : recallReader p = seekReader p.cursor.markedReader p := by
    rw [recallReader, seekReader, bind_done (checkLive_of_live hl), bind_done (checkLive_of_live hl)]
    rfl
  split
  · next h => exact hsame.trans (seekReader_apply hl h)
  · next h => exact hsame.trans (seekReader_refused hl h)

/-- Going back to the mark of the writer is putting the writer there, and the capacity does not stand
against it. -/
theorem recallWriter_apply (hp : p.Sound) (hl : p.Live) :
    recallWriter p = if p.cursor.reader ≤ p.cursor.markedWriter then
      (.done (), { p with cursor := { p.cursor with writer := p.cursor.markedWriter } })
    else
      (.failed (.outOfBounds (.writer p.cursor.markedWriter p.cursor.reader p.capacity)), p) := by
  have hsame : recallWriter p = seekWriter p.cursor.markedWriter p := by
    rw [recallWriter, seekWriter, bind_done (checkLive_of_live hl), bind_done (checkLive_of_live hl)]
    rfl
  split
  · next h => exact hsame.trans (seekWriter_apply hl ⟨h, hp.cursor.markedWriter_le⟩)
  · next h => exact hsame.trans (seekWriter_refused hl fun hgiven => h hgiven.1)

theorem saveReader_apply (hl : p.Live) :
    saveReader p = (.done (), { p with cursor := { p.cursor with markedReader := p.cursor.reader } }) :=
  bind_done (checkLive_of_live hl)

theorem saveWriter_apply (hl : p.Live) :
    saveWriter p = (.done (), { p with cursor := { p.cursor with markedWriter := p.cursor.writer } }) :=
  bind_done (checkLive_of_live hl)

end Pane

namespace World

variable {w w' : World} {h source target : Handle} {p p' q : Pane} {op : Operation}
variable {length : Nat}

/-- What is transferred goes behind the written bytes of the target. -/
theorem Sound.writer_le_transfer (hw : w.Sound) (hq : w.pane? target = some q) (source : Handle)
    (length : Nat) :
    ∃ q', (transfer source target length w).2.pane? target = some q' ∧
      q.cursor.writer ≤ q'.cursor.writer := by
  refine (transfer_stores hw source target length).leads
    (L := fun _ w' => ∃ q', w'.pane? target = some q' ∧ q.cursor.writer ≤ q'.cursor.writer)
    ⟨q, hq, Nat.le_refl _⟩ ?_
  rintro _ _ ⟨p, q', hp, hq', hpl, -, hread, hwrite, rfl⟩
  obtain rfl := Option.some.inj (hq.symm.trans hq')
  refine ⟨_, pane?_store_self (pane?_consumed (hw.pane hp) hp hq hread)
    (evolves_transferred hw hp hq hpl hread hwrite), ?_⟩
  show q.cursor.writer ≤ (cursorBehind source target p q length).writer + _
  rw [writer_cursorBehind hp hq]
  exact Nat.le_add_right _ _

/-- The writer of the handle goes forward, if it moves at all. -/
theorem Sound.writer_le_run (hw : w.Sound) (hp : w.pane? h = some p)
    (hop : op.keepsReaderMark h = true) (hmoves : Part.writer ∈ op.moves h) :
    ∃ p', (op.run w).2.pane? h = some p' ∧ p.cursor.writer ≤ p'.cursor.writer := by
  have hps := hw.pane hp
  cases op with
  | call k request =>
    by_cases hk : h = k
    · subst hk
      have hrequest : request.keepsReaderMark = true := by
        simpa [Operation.keepsReaderMark] using hop
      rw [run_call hp]
      exact ⟨_, pane?_store_self hp (request.run_evolves hps), Call.raises_writer hrequest p⟩
    · simp [Operation.moves, hk] at hmoves
  | writeRecord k header =>
    by_cases hk : h = k
    · subst hk
      have he : p.Evolves (header.write p).2 :=
        (CaptureInfo.write_careful (T := Trap.never) hps header).leads hps.evolves_refl fun _ _ h => h
      have hrun : ((Operation.writeRecord h header).run w).2 = w.store h (header.write p).2 :=
        (Action.state_answer _ _ w).trans (congrArg Prod.snd (through_apply hp))
      rw [hrun]
      exact ⟨_, pane?_store_self hp he, header.raises_writer p⟩
    · simp [Operation.moves, hk] at hmoves
  | transfer source target length =>
    have htarget : h = target := by simpa [Operation.moves] using hmoves
    subst htarget
    rw [show ((Operation.transfer source h length).run w).2 = (transfer source h length w).2 from
      Action.state_answer _ _ w]
    exact hw.writer_le_transfer hp source length
  | resize i capacity =>
    simp [Operation.moves, (of_decide_eq_true hop).symm] at hmoves
  | _ => cases hmoves

/-! ## One step -/

/-- Unless an operation releases, the memory of a handle stays what it is in this respect. -/
theorem Sound.released_run (hw : w.Sound) (hp : w.pane? h = some p) (hop : op.given? = none)
    (hp' : (op.run w).2.pane? h = some p') (hroot : (op.run w).2.root? h = w.root? h) :
    p'.released = p.released := by
  obtain ⟨i, o, hi, ho, -, hr⟩ := root_of_pane hp
  obtain ⟨j, o', hj, ho', -, hr'⟩ := root_of_pane hp'
  obtain rfl : j = i := Option.some.inj (hj.symm.trans (hroot.trans hi))
  have hnone : w.releaseCall? j op = none := by rw [releaseCall?, hop]
  have hflag : (op.run w).2.isReleased j = w.isReleased j := by
    rcases hw.releaseCall j op with ⟨-, hsame⟩ | ⟨hcall | hcall, -⟩
    · exact hsame
    · rw [hnone] at hcall
      cases hcall
    · rw [hnone] at hcall
      cases hcall
  rw [isReleased_of_owner ho, isReleased_of_owner ho'] at hflag
  rw [hr, hr', hflag]

/-- The handle is still there, its memory was not released, and what the operation does not move is
what it was. -/
theorem Sound.run_retains (hw : w.Sound) (hp : w.pane? h = some p) (hop : op.retains h = true) :
    ∃ p', (op.run w).2.pane? h = some p' ∧ p'.released = p.released ∧
      ∀ part ∉ op.moves h, Part.of p' part = Part.of p part := by
  obtain ⟨p', hp', hroot, hparts⟩ := (hw.changesOnly op).handle h p hp
    (Operation.notMem_givesUp_of_retains hop)
  exact ⟨p', hp', hw.released_run hp (Operation.given?_of_retains hop) hp' hroot,
    Part.others_eq_iff.1 hparts⟩

/-- **Such an operation leaves the mark of the reader in force.** -/
theorem Sound.run_readerMark (hw : w.Sound) (hp : w.pane? h = some p)
    (hop : op.keepsReaderMark h = true) :
    ∃ p', (op.run w).2.pane? h = some p' ∧ p.HoldsReaderMark p' := by
  obtain ⟨p', hp', hr, hparts⟩ := hw.run_retains hp (Operation.retains_of_keepsReaderMark hop)
  refine ⟨p', hp', hr, hparts .markedReader (Operation.markedReader_notMem_moves hop), ?_⟩
  by_cases hmoves : Part.writer ∈ op.moves h
  · obtain ⟨p'', hp'', hle⟩ := hw.writer_le_run hp hop hmoves
    obtain rfl : p' = p'' := Option.some.inj (hp'.symm.trans hp'')
    exact hle
  · exact Nat.le_of_eq (hparts .writer hmoves).symm

/-- **Such an operation leaves the mark of the writer in force.** -/
theorem Sound.run_writerMark (hw : w.Sound) (hp : w.pane? h = some p)
    (hop : op.keepsWriterMark h = true) :
    ∃ p', (op.run w).2.pane? h = some p' ∧ p.HoldsWriterMark p' := by
  obtain ⟨p', hp', hr, hparts⟩ := hw.run_retains hp (Operation.retains_of_keepsWriterMark hop)
  obtain ⟨hmark, hreader⟩ := Operation.notMem_moves_of_keepsWriterMark hop
  exact ⟨p', hp', hr, hparts .markedWriter hmark, hparts .reader hreader⟩

/-! ## Histories -/

/-- A call that answers nothing but success. -/
theorem Sound.run_move (hw : w.Sound) (hp : w.pane? h = some p) {request : Call}
    (hrun : request.run p = (.done .unit, p')) :
    ∃ w', (Operation.call h request).run w = (.done .unit, w') ∧ w'.Sound ∧
      w'.pane? h = some p' := by
  have he := request.run_evolves (hw.pane hp)
  rw [hrun] at he
  refine ⟨w.store h p', ?_, hw.store hp he, pane?_store_self hp he⟩
  rw [run_call hp, hrun]
  rfl

/-- What each step of a history does to what a handle sees, the history does. -/
theorem Sound.after_leads {K : Operation → Prop} {L : Pane → Pane → Prop} (hrefl : ∀ p, L p p)
    (htrans : ∀ {p p' p''}, L p p' → L p' p'' → L p p'')
    (hstep : ∀ {w p op}, Sound w → w.pane? h = some p → K op →
      ∃ p', (op.run w).2.pane? h = some p' ∧ L p p')
    (hw : w.Sound) (hp : w.pane? h = some p) {history : List Operation}
    (honly : ∀ op ∈ history, K op) : ∃ p', (w.after history).pane? h = some p' ∧ L p p' := by
  induction history generalizing w p with
  | nil => exact ⟨p, hp, hrefl p⟩
  | cons op rest ih =>
    obtain ⟨p', hp', hfirst⟩ := hstep hw hp (honly op List.mem_cons_self)
    obtain ⟨p'', hp'', hrest⟩ := ih (hw.run op).sound hp' fun op hop =>
      honly op (List.mem_cons_of_mem _ hop)
    exact ⟨p'', hp'', htrans hfirst hrest⟩

/-- The same of a history that starts with a call on the handle. -/
theorem Sound.after_call_leads {K : Operation → Prop} {L : Pane → Pane → Prop} (hrefl : ∀ p, L p p)
    (htrans : ∀ {p p' p''}, L p p' → L p' p'' → L p p'')
    (hstep : ∀ {w p op}, Sound w → w.pane? h = some p → K op →
      ∃ p', (op.run w).2.pane? h = some p' ∧ L p p')
    (hw : w.Sound) (hp : w.pane? h = some p) {request : Call}
    (hrun : request.run p = (.done .unit, p')) {history : List Operation}
    (honly : ∀ op ∈ history, K op) :
    let w' := w.after (.call h request :: history)
    w'.Sound ∧ ∃ p'', w'.pane? h = some p'' ∧ L p' p'' := by
  intro w'
  obtain ⟨w₁, hcall, hw₁, hp₁⟩ := hw.run_move hp hrun
  have hafter : w' = w₁.after history := by
    rw [show w' = _ from after_cons .., hcall]
  rw [hafter]
  exact ⟨hw₁.after history, hw₁.after_leads hrefl htrans hstep hp₁ honly⟩

/-- A call that is refused. -/
theorem run_refused (hp : w.pane? h = some p) {request : Call} {e : Failure}
    (hrun : request.run p = (.failed e, p)) :
    (Operation.call h request).run w = (.failed e, w) := call_ends (o := some e) hp hrun

/-! ## Going back -/

/-- Going back to the mark of the reader succeeds unless the mark lies behind the writer. -/
theorem Sound.run_recallReader (hw : w.Sound) (hp : w.pane? h = some p) (hl : p.Live)
    (hle : p.cursor.markedReader ≤ p.cursor.writer) :
    ∃ w', (Operation.call h .recallReader).run w = (.done .unit, w') ∧ w'.Sound ∧
      w'.pane? h = some { p with cursor := { p.cursor with reader := p.cursor.markedReader } } :=
  hw.run_move hp (bind_done ((Pane.recallReader_apply hl).trans (if_pos hle)))

/-- Going back to the mark of the writer succeeds unless the mark lies before the reader. -/
theorem Sound.run_recallWriter (hw : w.Sound) (hp : w.pane? h = some p) (hl : p.Live)
    (hle : p.cursor.reader ≤ p.cursor.markedWriter) :
    ∃ w', (Operation.call h .recallWriter).run w = (.done .unit, w') ∧ w'.Sound ∧
      w'.pane? h = some { p with cursor := { p.cursor with writer := p.cursor.markedWriter } } :=
  hw.run_move hp (bind_done ((Pane.recallWriter_apply (hw.pane hp) hl).trans (if_pos hle)))

/-- From the moment the reader was remembered on, the handle can go back there, and reads again what is
in memory. -/
theorem Sound.reader_recalled (hw : w.Sound) (hp : w.pane? h = some p) (hl : p.Live)
    {history : List Operation} (honly : ∀ op ∈ history, op.keepsReaderMark h = true) :
    let w' := w.after (.call h .saveReader :: history)
    ∃ p' w'', w'.pane? h = some p' ∧ p'.released = false ∧
      (Operation.call h .recallReader).run w' = (.done .unit, w'') ∧
      w''.pane? h = some { p' with cursor := { p'.cursor with reader := p.cursor.reader } } ∧
      ∀ length, p.cursor.reader + length ≤ p'.cursor.writer → ∃ bytes,
        (Operation.call h (.peekBytes p.cursor.reader length)).run w' =
          (.done (.answer (.bytes bytes)), w') ∧
        ((Operation.call h (.readBytes length)).run w'').1 = .done (.answer (.bytes bytes)) := by
  intro w'
  have hsave : Call.run .saveReader p =
      (.done .unit, { p with cursor := { p.cursor with markedReader := p.cursor.reader } }) :=
    bind_done (Pane.saveReader_apply hl)
  obtain ⟨hw', p', hp', hheld⟩ := hw.after_call_leads .refl .trans
    (fun hw hp hop => hw.run_readerMark hp hop) hp hsave honly
  have hl' : p'.Live := hw'.live_of_pane hp' (hheld.released.trans hl.1)
  have hmark : p'.cursor.markedReader = p.cursor.reader := hheld.mark
  have hwriter : p.cursor.writer ≤ p'.cursor.writer := hheld.writer
  have hreader := (hw.pane hp).cursor.reader_le
  obtain ⟨w'', hrecall, hw'', hp''⟩ := hw'.run_recallReader hp' hl' (by omega)
  rw [hmark] at hp''
  refine ⟨p', w'', hp', hl'.1, hrecall, hp'', fun length hfit => ?_⟩
  have hcapacity := (hw'.pane hp').cursor.writer_le
  refine ⟨_, run_peekBytes hp' (hw'.pane hp') hl' (by omega), ?_⟩
  refine congrArg Prod.fst (run_readBytes hp'' (hw''.pane hp'') hl' ?_)
  show length ≤ p'.cursor.writer - p.cursor.reader
  omega

/-- From the moment the writer was remembered on, the handle can go back there, and its reader is where
it was all the time. -/
theorem Sound.writer_recalled (hw : w.Sound) (hp : w.pane? h = some p) (hl : p.Live)
    {history : List Operation} (honly : ∀ op ∈ history, op.keepsWriterMark h = true) :
    let w' := w.after (.call h .saveWriter :: history)
    ∃ p' w'', w'.pane? h = some p' ∧ p'.released = false ∧ p'.cursor.reader = p.cursor.reader ∧
      (Operation.call h .recallWriter).run w' = (.done .unit, w'') ∧
      w''.pane? h = some { p' with cursor := { p'.cursor with writer := p.cursor.writer } } := by
  intro w'
  have hsave : Call.run .saveWriter p =
      (.done .unit, { p with cursor := { p.cursor with markedWriter := p.cursor.writer } }) :=
    bind_done (Pane.saveWriter_apply hl)
  obtain ⟨hw', p', hp', hheld⟩ := hw.after_call_leads .refl .trans
    (fun hw hp hop => hw.run_writerMark hp hop) hp hsave honly
  have hl' : p'.Live := hw'.live_of_pane hp' (hheld.released.trans hl.1)
  have hmark : p'.cursor.markedWriter = p.cursor.writer := hheld.mark
  have hreader : p'.cursor.reader = p.cursor.reader := hheld.reader
  have hle := (hw.pane hp).cursor.reader_le
  obtain ⟨w'', hrecall, -, hp''⟩ := hw'.run_recallWriter hp' hl' (by omega)
  rw [hmark] at hp''
  exact ⟨p', w'', hp', hl'.1, hreader, hrecall, hp''⟩

/-- **Marks are safe to go back to.** On memory that was not released, marks do not exceed the capacity.
Going back to the mark of the reader is refused iff the mark lies behind the writer, and going back to
that of the writer iff it lies before the reader; otherwise one index is put where it was remembered and
the handle stays what it was in all else. So after the reader was remembered, whatever operations follow
that leave its mark in force, refused or not, going back to it succeeds, leaves the writer alone, and
what is read again is what access at the index finds in memory. After the writer was remembered, going
back to it succeeds in the same way, and the reader is where it was. -/
theorem Reachable.marks_recalled (hw : w.Reachable) (hp : w.pane? h = some p)
    (hr : p.released = false) :
    let c := p.cursor
    let call request := Operation.call h request
    (c.markedReader ≤ p.capacity ∧ c.markedWriter ≤ p.capacity) ∧
    (c.writer < c.markedReader → (call .recallReader).run w =
      (.failed (.outOfBounds (.reader c.markedReader c.writer)), w)) ∧
    (c.markedReader ≤ c.writer → ∃ w', (call .recallReader).run w = (.done .unit, w') ∧
      w'.pane? h = some { p with cursor := { c with reader := c.markedReader } }) ∧
    (c.markedWriter < c.reader → (call .recallWriter).run w =
      (.failed (.outOfBounds (.writer c.markedWriter c.reader p.capacity)), w)) ∧
    (c.reader ≤ c.markedWriter → ∃ w', (call .recallWriter).run w = (.done .unit, w') ∧
      w'.pane? h = some { p with cursor := { c with writer := c.markedWriter } }) ∧
    (∀ history, (∀ op ∈ history, op.keepsReaderMark h = true) →
      let w' := w.after (call .saveReader :: history)
      ∃ p' w'', w'.pane? h = some p' ∧ p'.released = false ∧
        (call .recallReader).run w' = (.done .unit, w'') ∧
        w''.pane? h = some { p' with cursor := { p'.cursor with reader := c.reader } } ∧
        ∀ length, c.reader + length ≤ p'.cursor.writer → ∃ bytes,
          (call (.peekBytes c.reader length)).run w' = (.done (.answer (.bytes bytes)), w') ∧
          ((call (.readBytes length)).run w'').1 = .done (.answer (.bytes bytes))) ∧
    ∀ history, (∀ op ∈ history, op.keepsWriterMark h = true) →
      let w' := w.after (call .saveWriter :: history)
      ∃ p' w'', w'.pane? h = some p' ∧ p'.released = false ∧ p'.cursor.reader = c.reader ∧
        (call .recallWriter).run w' = (.done .unit, w'') ∧
        w''.pane? h = some { p' with cursor := { p'.cursor with writer := c.writer } } := by
  intro c call
  have hs := hw.sound
  have hps := hs.pane hp
  have hl := hs.live_of_pane hp hr
  refine ⟨⟨hps.cursor.markedReader_le, hps.cursor.markedWriter_le⟩, ?_, ?_, ?_, ?_, ?_, ?_⟩
  · intro hlt
    exact run_refused hp
      (bind_failed ((Pane.recallReader_apply hl).trans (if_neg (Nat.not_le.2 hlt))))
  · intro hle
    obtain ⟨w', hrun, -, hp'⟩ := hs.run_recallReader hp hl hle
    exact ⟨w', hrun, hp'⟩
  · intro hlt
    exact run_refused hp
      (bind_failed ((Pane.recallWriter_apply hps hl).trans (if_neg (Nat.not_le.2 hlt))))
  · intro hle
    obtain ⟨w', hrun, -, hp'⟩ := hs.run_recallWriter hp hl hle
    exact ⟨w', hrun, hp'⟩
  · exact fun history honly => hs.reader_recalled hp hl honly
  · exact fun history honly => hs.writer_recalled hp hl honly

/-- A slice of six bytes, of which three can be read from the second one on, and neither mark has been
set. The reader could be put back to the beginning, the writer could not. Then two bytes are read, more is
asked for than there is, one of them is overwritten, and another one by the owner of the memory; what is
read again are the new bytes. Or else a byte is appended, the writer is put to the end, and back. -/
theorem marks_recalled_slice :
    let w := (start [.standard]).after [.allocate 0 8,
      .call (.owner 0) (.pokeBytes 0 [1, 2, 3, 4, 5, 6, 7, 8]), .slice (.owner 0) 1 6,
      .call (.view 0) (.seek 1 4)]
    let call request := Operation.call (.view 0) request
    let reading := w.after [call .saveReader, call (.readBytes 2), call (.skip 9),
      call (.pokeBytes 1 [0]), .call (.owner 0) (.pokeBytes 3 [0]), .transfer (.view 0) (.owner 0) 1]
    let writing := w.after [call .saveWriter, call (.appendBytes [9]), call (.seekWriter 6),
      .copyBytes (.owner 0) 0 (.view 0) 4 2, call (.appendBytes [9])]
    ((call .recallReader).run w).1 = .done .unit ∧
    (call .recallWriter).run w = (.failed (.outOfBounds (.writer 0 1 6)), w) ∧
    (∃ w'', (call .recallReader).run reading = (.done .unit, w'') ∧
      ((call (.readBytes 3)).run w'').1 = .done (.answer (.bytes [0, 0, 5]))) ∧
    ∃ w'', (call .recallWriter).run writing = (.done .unit, w'') ∧ w''.pane? (.view 0) =
      some ⟨some [1, 2, 3, 4, 5, 1, 2, 8], false, 1, 6, ⟨1, 4, 0, 4⟩, default⟩ := by
  intro w call reading writing
  have hw : w.Reachable := ⟨_, _, rfl⟩
  have hp : w.pane? (.view 0) =
      some ⟨some [1, 2, 3, 4, 5, 6, 7, 8], false, 1, 6, ⟨1, 4, 0, 0⟩, default⟩ := by rfl
  obtain ⟨-, -, hreader, hwriter, -, hread, hwrite⟩ := hw.marks_recalled hp rfl
  refine ⟨?_, hwriter (by decide), ?_, ?_⟩
  · obtain ⟨w', hrun, -⟩ := hreader (by decide)
    rw [hrun]
  · obtain ⟨p', w'', hp', -, hrun, -, hagain⟩ := hread [call (.readBytes 2), call (.skip 9),
      call (.pokeBytes 1 [0]), .call (.owner 0) (.pokeBytes 3 [0]),
      .transfer (.view 0) (.owner 0) 1] (by decide)
    have hnow : reading.pane? (.view 0) =
        some ⟨some [5, 2, 0, 0, 5, 6, 7, 8], false, 1, 6, ⟨4, 4, 1, 0⟩, default⟩ := by
      decide +kernel
    cases hp'.symm.trans hnow
    obtain ⟨bytes, hpeek, hreread⟩ := hagain 3 (by decide)
    have hs : reading.Sound := hw.sound.after _
    cases hpeek.symm.trans
      (run_peekBytes hnow (hs.pane hnow) (hs.live_of_pane hnow rfl) (by decide))
    exact ⟨w'', hrun, hreread⟩
  · obtain ⟨p', w'', hp', -, -, hrun, hafter⟩ := hwrite [call (.appendBytes [9]),
      call (.seekWriter 6), .copyBytes (.owner 0) 0 (.view 0) 4 2, call (.appendBytes [9])] (by decide)
    have hnow : writing.pane? (.view 0) =
        some ⟨some [1, 2, 3, 4, 5, 1, 2, 8], false, 1, 6, ⟨1, 6, 0, 4⟩, default⟩ := by
      decide +kernel
    cases hp'.symm.trans hnow
    exact ⟨w'', hrun, hafter⟩

end World

end PacketMemory
