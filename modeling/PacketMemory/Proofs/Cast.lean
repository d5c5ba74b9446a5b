import PacketMemory.Proofs.CaptureRecord
import PacketMemory.Proofs.UseAfterRelease
import PacketMemory.Proofs.TypedAccess

/-!
# What a cast comes to

A cast checks what is written, then that the memory is live, and then asks the type. Each of the three
has a failure of its own, so the failure tells how far the cast came: whatever the type objects to is
wrapped up (`Failure.cast`), even if this is a failure of memory access itself.

The slice that the type is handed depends on where the window of the handle lies and on its byte order,
but not on what was read or marked (`World.Sound.castWith_slice`).

A type that only looks at fixed places inside of what it covers is never in trouble with memory access:
once it is asked, the cast succeeds, or it fails in the words of the type
(`World.Reachable.probe_in_words`). For a type that only looks at one byte, which of the two it is is up to
this byte (`World.Reachable.probe_marked`).

Main statement: `World.Reachable.cast_outcome`.
-/

namespace PacketMemory

/-- The whole of what an overlay covers on a handle that leads to the owner `root`, all of it readable. -/
def Overlay.slice (o : Overlay) (root : Nat) (p : Pane) : View :=
  ⟨root, p.offset, o.covered p, ⟨0, o.covered p, 0, 0⟩, p.order, .slice⟩

namespace World

variable {α : Type} {w : World} {h : Handle} {p : Pane} {o : Overlay} {root : Nat}

theorem Sound.slice_eq_cut (hw : w.Sound) (hh : h.isRecord = false)
    (hroot : w.root? h = some root) (hp : w.pane? h = some p) (o : Overlay) :
    ∃ v, w.basis? h = some v ∧ o.slice root p = v.cut 0 (o.covered p) := by
  obtain ⟨v, hv⟩ := basis_of_root hroot hh
  obtain ⟨u, -, -, hp'⟩ := hw.basis hv
  obtain rfl : p = v.pane u := Option.some.inj (hp.symm.trans hp')
  obtain rfl : v.root = root := Option.some.inj ((root_of_basis hv).symm.trans hroot)
  exact ⟨v, hv, rfl⟩

/-- Whatever handle it is cast through, the type is handed the start of its window. -/
theorem Sound.castWith_slice (hw : w.Sound) (hh : h.isRecord = false)
    (hroot : w.root? h = some root) (hp : w.pane? h = some p) (hpopulated : o.Populated p)
    (hl : p.Live) (wrap : View → Action World Cause α) :
    castWith h o wrap w = ((wrap (o.slice root p) w).1.mapError (Failure.cast o.name),
      (wrap (o.slice root p) w).2) := by
  obtain ⟨v, hv, hslice⟩ := hw.slice_eq_cut hh hroot hp o
  rw [hslice]
  exact castWith_of_populated hw hv hp hpopulated hl wrap

/-- The slice is cut before the type is asked. On released memory this fails, and otherwise the slice
fits. -/
theorem Sound.slicing_covered (hw : w.Sound) (hh : h.isRecord = false)
    (hroot : w.root? h = some root) (hp : w.pane? h = some p) (hpopulated : o.Populated p) :
    slicing h 0 (o.covered p) w =
      (if p.released then .failed .memoryAccess else .done (o.slice root p), w) := by
  split
  · next hr =>
    have hn : ¬p.Live := fun hl => absurd (hl.1.symm.trans hr) (by decide)
    exact slicing_refused hh hp (Pane.checkRange_of_not_live hn 0 _)
  · next hr =>
    obtain ⟨v, hv, hslice⟩ := hw.slice_eq_cut hh hroot hp o
    have hl := hw.live_of_pane hp (eq_false_of_ne_true hr)
    rw [hslice]
    exact slicing_apply hw hv hp hl (Overlay.covered_fits (hw.pane hp) hpopulated)

/-- Only what is not written enough is a bad argument of its own, and only what is released is out of
reach: what the type objects to is neither. -/
theorem Sound.castWith_failed (hw : w.Sound) (hh : h.isRecord = false)
    (hroot : w.root? h = some root) (hp : w.pane? h = some p)
    (wrap : View → Action World Cause α) :
    ((∃ why, (castWith h o wrap w).1 = .failed (.illegalArgument why)) ↔ ¬o.Populated p) ∧
      ((castWith h o wrap w).1 = .failed .memoryAccess ↔ o.Populated p ∧ p.released = true) := by
  by_cases hpopulated : o.Populated p
  · by_cases hr : p.released = false
    · have hrun := hw.castWith_slice hh hroot hp hpopulated (hw.live_of_pane hp hr) wrap
      rw [hrun]
      rcases (wrap (o.slice root p) w).1 with a | e | t <;>
        simp [Outcome.mapError, hpopulated, hr]
    · have hn : ¬p.Live := fun hl => hr hl.1
      rw [castWith_of_not_live hh hp hpopulated hn wrap]
      simp [hpopulated, eq_true_of_ne_false hr]
  · rw [castWith_of_not_populated hp hpopulated wrap]
    simp [hpopulated]

/-- A cast that keeps nothing comes to what the check comes to on the slice. -/
theorem Sound.run_probe (hw : w.Sound) (hh : h.isRecord = false) (hp : w.pane? h = some p)
    (hpopulated : o.Populated p) (hl : p.Live) :
    ((Operation.probe h o).run w).1 = ((o.check.run (p.cut 0 (o.covered p))).1.mapError
      (Failure.cast o.name)).map fun _ => Reply.unit := by
  obtain ⟨root, -, hroot, -⟩ := root_of_pane hp
  obtain ⟨v, hv⟩ := basis_of_root hroot hh
  obtain ⟨u, hu, -, hp'⟩ := hw.basis hv
  obtain rfl : p = v.pane u := Option.some.inj (hp.symm.trans hp')
  have hrun := castWith_of_populated hw hv hp hpopulated hl (acceptance o)
  have hcut : (v.cut 0 (o.covered (v.pane u))).pane u = (v.pane u).cut 0 (o.covered (v.pane u)) :=
    rfl
  rw [acceptance_apply (v := v.cut 0 _) hu, hcut] at hrun
  rcases hcheck : o.check.run ((v.pane u).cut 0 (o.covered (v.pane u))) with ⟨a | e | t, q⟩ <;>
    rw [hcheck] at hrun
  · have hdone : probe h o w = (.done (), _) := Action.bind_done hrun
    have hprobe : (Operation.probe h o).run w = (.done .unit, _) := Action.bind_done hdone
    exact congrArg Prod.fst hprobe
  · exact congrArg Prod.fst (Action.bind_failed (Action.bind_failed hrun))
  · exact congrArg Prod.fst (Action.bind_trapped (Action.bind_trapped hrun))

theorem Sound.run_peekWord (hw : w.Sound) (hp : w.pane? h = some p) (hl : p.Live) {index : Nat}
    (hfit : index + 4 ≤ p.capacity) :
    (Operation.call h (.peekScalar .uint32 index false)).run w =
      (.done (.answer (.scalar (.ofWord (p.wordAt index)))), w) := by
  rw [run_peekScalar hp (hw.pane hp) hl hfit false, Pane.wordAt,
    Scalar.ofWord_ofNat_toNat (Scalar.type_ofBytes _ _ _)]
  rfl

/-- **When a record is laid over bytes**: there are enough of them, and the microseconds do not exceed a
second. -/
theorem Sound.run_layRecord_iff (hw : w.Sound) (hh : h.isRecord = false) (hp : w.pane? h = some p) :
    (∃ k w', (Operation.layRecord h).run w = (.done (.handle (.record k)), w')) ↔
      CaptureRecord.size ≤ p.cursor.writer ∧ p.released = false ∧
        (p.wordAt CaptureRecord.microsAt).toNat < microsPerSecond := by
  have hcut : (p.cut 0 CaptureRecord.size).wordAt CaptureRecord.microsAt =
      p.wordAt CaptureRecord.microsAt := by
    simp only [Pane.wordAt, Pane.bytesAt_cut, Nat.zero_add]
    rfl
  constructor
  · rintro ⟨k, w', hrun⟩
    obtain ⟨q, hrec⟩ := records_of_layRecord hw (layRecord_of_run hrun)
    obtain rfl : p = q := Option.some.inj (hp.symm.trans hrec.sees)
    exact ⟨hrec.written, hrec.live.1, hcut ▸ hrec.micros⟩
  · rintro ⟨hwritten, hr, hmicros⟩
    obtain ⟨k, w', hrun, -⟩ :=
      layRecord_apply hw ⟨hh, hp, hw.live_of_pane hp hr, hwritten, hcut ▸ hmicros⟩
    exact ⟨k, w', Action.bind_done hrun⟩

/-- **What a cast comes to**, through an owner or a view, for a type of any size and whatever it does. If
not enough is written, the argument is bad, released or not. If enough is written and the memory was
released, it is out of reach. Otherwise the type is handed a slice of the owner: at the offset of the
handle, as long as the type, or the window for a type of variable size, all of it readable and without
marks, in the byte order of the handle. Its answer is the answer of the cast, and what it objects to is
the source of a failure that counts as a bad argument, also if it is a failure of this library. Cutting
the slice is never out of bounds. A record can be laid over a handle iff its bytes are written, the memory
is live, and the microseconds are less than a second. -/
theorem Reachable.cast_outcome (hw : w.Reachable) (hh : h.isRecord = false)
    (hroot : w.root? h = some root) (hp : w.pane? h = some p) :
    (∀ (o : Overlay) (α : Type) (wrap : View → Action World Cause α),
      let populated := if o.size = 0 then p.cursor.writer = p.capacity else o.size ≤ p.cursor.writer
      let length := if o.size = 0 then p.capacity else o.size
      let slice : View := ⟨root, p.offset, length, ⟨0, length, 0, 0⟩, p.order, .slice⟩
      let casting := castWith h o wrap
      (¬populated → casting w = (.failed (.illegalArgument (o.shortage p)), w)) ∧
      (populated → p.released = true → casting w = (.failed .memoryAccess, w)) ∧
      (populated → p.released = false → casting w =
        ((wrap slice w).1.mapError (Failure.cast o.name), (wrap slice w).2)) ∧
      (∀ cause, (Failure.cast o.name cause).kind = .illegalArgument ∧
        (Failure.cast o.name cause).source = some cause) ∧
      ((∃ why, (casting w).1 = .failed (.illegalArgument why)) ↔ ¬populated) ∧
      ((casting w).1 = .failed .memoryAccess ↔ populated ∧ p.released = true) ∧
      (populated → slicing h 0 length w =
        (if p.released then .failed .memoryAccess else .done slice, w))) ∧
    (∀ o : Overlay, o.Populated p → p.released = false →
      ((Operation.probe h o).run w).1 = ((o.check.run (p.cut 0 (o.covered p))).1.mapError
        (Failure.cast o.name)).map fun _ => Reply.unit) ∧
    ((∃ k w', (Operation.layRecord h).run w = (.done (.handle (.record k)), w')) ↔
      16 ≤ p.cursor.writer ∧ p.released = false ∧ ∃ micros : BitVec 32,
        (Operation.call h (.peekScalar .uint32 4 false)).run w =
          (.done (.answer (.scalar (.ofWord micros))), w) ∧ micros.toNat < 1000000) := by
  have hs := hw.sound
  refine ⟨?_, fun o hpopulated hr => ?_, ?_⟩
  · intro o α wrap populated length slice casting
    have hfailed := hs.castWith_failed (o := o) hh hroot hp wrap
    refine ⟨fun hn => castWith_of_not_populated hp hn wrap, fun hpopulated hr => ?_,
      fun hpopulated hr => hs.castWith_slice hh hroot hp hpopulated (hs.live_of_pane hp hr) wrap,
      fun cause => ⟨rfl, rfl⟩, hfailed.1, hfailed.2,
      fun hpopulated => hs.slicing_covered hh hroot hp hpopulated⟩
    have hn : ¬p.Live := fun hl => absurd (hl.1.symm.trans hr) (by decide)
    exact castWith_of_not_live hh hp hpopulated hn wrap
  · exact hs.run_probe hh hp hpopulated (hs.live_of_pane hp hr)
  · rw [hs.run_layRecord_iff hh hp]
    constructor
    · rintro ⟨hwritten, hr, hmicros⟩
      have hfit : CaptureRecord.microsAt + 4 ≤ p.capacity := by
        have hwriter := (hs.pane hp).cursor.writer_le
        simp only [CaptureRecord.size, CaptureRecord.microsAt] at hwritten ⊢
        omega
      exact ⟨hwritten, hr, _, hs.run_peekWord hp (hs.live_of_pane hp hr) hfit, hmicros⟩
    · rintro ⟨hwritten, hr, micros, hread, hmicros⟩
      have hfit : CaptureRecord.microsAt + 4 ≤ p.capacity := by
        have hwriter := (hs.pane hp).cursor.writer_le
        simp only [CaptureRecord.microsAt]
        omega
      have hread' := hs.run_peekWord hp (hs.live_of_pane hp hr) hfit
      have hscalar : Scalar.ofWord (p.wordAt CaptureRecord.microsAt) = Scalar.ofWord micros := by
        have hsame := congrArg Prod.fst (hread'.symm.trans hread)
        simpa only [Outcome.done.injEq, Reply.answer.injEq, Answer.scalar.injEq] using hsame
      have hword := Scalar.ofNat_toNat_ofWord (p.wordAt CaptureRecord.microsAt)
      rw [hscalar, Scalar.ofNat_toNat_ofWord] at hword
      exact ⟨hwritten, hr, hword ▸ hmicros⟩

/-- A slice of a slice shows bytes 3 to 10 of the owner. A type of four bytes is handed bytes 3 to 6 of
it, in the byte order of the slice, wherever its reader is. It follows the first byte out of its own four
bytes, and the failure that this comes to is the source of the failure of the cast. Eight bytes are no
record. After the release, two bytes are still too short for the type, and eight bytes are out of
reach. -/
theorem cast_outcome_nested :
    let w := (start [.standard]).after [.allocate 0 12,
      .call (.owner 0) (.pokeBytes 3 [9, 2, 3, 4]), .slice (.owner 0) 1 10, .slice (.view 0) 2 8,
      .call (.view 1) (.setOrder .little), .call (.view 1) (.seekReader 5), .slice (.view 1) 0 2]
    let w' := w.after [.duplicate (.owner 0), .release (.view 3)]
    let wrap := acceptance Overlay.indirect
    let slice : View := ⟨0, 3, 4, ⟨0, 4, 0, 0⟩, .little, .slice⟩
    castWith (.view 1) Overlay.indirect wrap w =
        ((wrap slice w).1.mapError (Failure.cast Overlay.indirect.name), (wrap slice w).2) ∧
      ((Operation.probe (.view 1) Overlay.indirect).run w).1 =
        .failed (.cast Overlay.indirect.name (.failure (.outOfBounds (.range 9 2 4)))) ∧
      (¬∃ k w', (Operation.layRecord (.view 1)).run w = (.done (.handle (.record k)), w')) ∧
      castWith (.view 2) Overlay.indirect wrap w' =
        (.failed (.illegalArgument (.tooShort Overlay.indirect.name 4 2)), w') ∧
      castWith (.view 1) Overlay.indirect wrap w' = (.failed .memoryAccess, w') := by
  intro w w' wrap slice
  have hw : w.Reachable := ⟨_, _, rfl⟩
  have hp : w.pane? (.view 1) =
      some ⟨some [0, 0, 0, 9, 2, 3, 4, 0, 0, 0, 0, 0], false, 3, 8, ⟨5, 8, 0, 0⟩, .little⟩ := by rfl
  have hp' : w'.pane? (.view 1) =
      some ⟨some [0, 0, 0, 9, 2, 3, 4, 0, 0, 0, 0, 0], true, 3, 8, ⟨5, 8, 0, 0⟩, .little⟩ := by rfl
  have hq' : w'.pane? (.view 2) =
      some ⟨some [0, 0, 0, 9, 2, 3, 4, 0, 0, 0, 0, 0], true, 3, 2, ⟨0, 2, 0, 0⟩, .little⟩ := by rfl
  obtain ⟨hcast, hprobe, hrecord⟩ := hw.cast_outcome rfl (by rfl) hp
  have hw' : w'.Reachable := hw.after _
  obtain ⟨hlate, -⟩ := hw'.cast_outcome rfl (by rfl) hp'
  obtain ⟨hshort, -⟩ := hw'.cast_outcome rfl (by rfl) hq'
  obtain ⟨-, -, hslice, -⟩ := hcast Overlay.indirect _ wrap
  obtain ⟨-, hreleased, -⟩ := hlate Overlay.indirect _ wrap
  obtain ⟨hrefused, -⟩ := hshort Overlay.indirect _ wrap
  refine ⟨hslice (by decide) rfl, (hprobe Overlay.indirect (by decide) rfl).trans (by rfl), ?_,
    hrefused (by decide), hreleased (by decide) rfl⟩
  exact fun hlaid => absurd (hrecord.1 hlaid).1 (by decide)

/-! ## Types that look at fixed places -/

/-- **A type that stays within its bytes is not in trouble with them.** If enough is written and the memory
is live, the cast succeeds, or the type itself objects, in its own words. -/
theorem Reachable.probe_in_words (hw : w.Reachable) (hh : h.isRecord = false)
    (hp : w.pane? h = some p) (hpopulated : o.Populated p) (hr : p.released = false)
    (hwithin : o.check.Within (o.covered p)) :
    ((Operation.probe h o).run w).1 = .done .unit ∨
      ∃ words, ((Operation.probe h o).run w).1 = .failed (.cast o.name (.words words)) := by
  have hs := hw.sound
  have hl := hs.live_of_pane hp hr
  have hcut := (hs.pane hp).cut (Overlay.covered_fits (hs.pane hp) hpopulated)
  rw [hs.run_probe hh hp hpopulated hl]
  rcases hwithin.run hcut hl (Nat.le_refl _) with h | ⟨words, h⟩
  · rw [h]
    exact .inl rfl
  · rw [h]
    exact .inr ⟨words, rfl⟩

/-- **A type with a mark** is laid over bytes that carry it. If the mark would be behind what is covered,
which it is for a type of variable size on a window that is too short, the cast fails because of memory
access. -/
theorem Reachable.probe_marked (hw : w.Reachable) (hh : h.isRecord = false)
    (hp : w.pane? h = some p) (hpopulated : o.Populated p) (hr : p.released = false)
    {index value : Nat} {words : String} (hcheck : o.check = .marked index value words) :
    ((Operation.probe h o).run w).1 =
      if o.covered p ≤ index then
        .failed (.cast o.name (.failure (.outOfBounds (.range index 1 (o.covered p)))))
      else if p.numberAt .uint8 index = value then .done .unit
      else .failed (.cast o.name (.words words)) := by
  have hs := hw.sound
  have hl := hs.live_of_pane hp hr
  have hcut := (hs.pane hp).cut (Overlay.covered_fits (hs.pane hp) hpopulated)
  have hnumber : (p.cut 0 (o.covered p)).numberAt .uint8 index = p.numberAt .uint8 index := by
    rw [Pane.numberAt, Pane.bytesAt_cut, Nat.zero_add]
    rfl
  rw [hs.run_probe hh hp hpopulated hl, hcheck, Check.run_marked hcut hl, hnumber]
  show Outcome.map _ (Outcome.mapError _ (if o.covered p ≤ index then _ else _)) = _
  split
  · rfl
  · split <;> rfl

/-- A frame is cast from a window that starts with the delimiter, from one that does not, and from an empty
one. -/
example :
    let w := (start [.standard]).after [.allocate 0 4, .call (.owner 0) (.pokeBytes 1 [0x7E]),
      .slice (.owner 0) 1 3, .slice (.owner 0) 0 3, .slice (.owner 0) 1 0]
    let probe := fun k => ((Operation.probe (.view k) Overlay.framed).run w).1
    probe 0 = .done .unit ∧
      probe 1 = .failed (.cast Overlay.framed.name (.words "missing frame delimiter")) ∧
      probe 2 = .failed (.cast Overlay.framed.name (.failure (.outOfBounds (.range 0 1 0)))) :=
  ⟨rfl, rfl, rfl⟩

end World

end PacketMemory
