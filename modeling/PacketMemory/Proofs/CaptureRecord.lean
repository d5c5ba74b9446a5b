import PacketMemory.Proofs.Pane.Record
import PacketMemory.Proofs.World.Run

/-!
# Capture records, back and forth

Through any handle but a record, a header can be written as a record if its timestamp is in range, and
laying a record over the bytes gives the header back, down to whole microseconds. The other way
round, the header of any record, written again in the same byte order, gives the bytes of the record
(`World.record_round_trip`).

`World.Records` says what it takes to lay a record over a handle; that is enough (`layRecord_apply`),
and nothing less will do (`records_of_layRecord`).
-/

namespace PacketMemory

namespace World

/-- The bytes at the start of what the handle sees make a record. -/
structure Records (w : World) (h : Handle) (p : Pane) : Prop where
  source : h.isRecord = false
  sees : w.pane? h = some p
  live : p.Live
  written : CaptureRecord.size ≤ p.cursor.writer
  micros : ((p.cut 0 CaptureRecord.size).wordAt CaptureRecord.microsAt).toNat < microsPerSecond

variable {w : World} {h : Handle} {p : Pane} {k : Nat} {w' : World}

theorem overlay_length_iff {writer capacity length : Nat} :
    CaptureRecord.overlay.length writer capacity = .ok length ↔
      CaptureRecord.size ≤ writer ∧ length = CaptureRecord.size := by
  have hlength : CaptureRecord.overlay.length writer capacity =
      if writer < CaptureRecord.size then
        .error (.illegalArgument (.tooShort CaptureRecord.overlay.name CaptureRecord.size writer))
      else .ok CaptureRecord.size := if_neg (by decide)
  rw [hlength]
  split
  · simp only [reduceCtorEq, false_iff, not_and]
    omega
  · simp only [Except.ok.injEq]
    omega

theorem populated_record_iff :
    CaptureRecord.overlay.Populated p ↔ CaptureRecord.size ≤ p.cursor.writer :=
  Iff.of_eq (if_neg (by decide))

theorem covered_record : CaptureRecord.overlay.covered p = CaptureRecord.size :=
  if_neg (by decide)

/-- The overlay decides about the start of what a handle sees, by the microseconds that are there. -/
theorem overlaid_record (hw : w.Sound) (hh : h.isRecord = false) (hp : w.pane? h = some p)
    (hl : p.Live) (hwritten : CaptureRecord.size ≤ p.cursor.writer) :
    let micros := ((p.cut 0 CaptureRecord.size).wordAt CaptureRecord.microsAt).toNat
    ∃ u o, w.owner? u.root = some o ∧ w.Carries u ∧ u.capacity = CaptureRecord.size ∧
      u.pane o = p.cut 0 CaptureRecord.size ∧ overlaid h CaptureRecord.overlay w =
        (if micros < microsPerSecond then .done u
          else .failed (.cast CaptureRecord.overlay.name (CaptureRecord.refusal micros)), w) := by
  obtain ⟨i, -, hi, -⟩ := root_of_pane hp
  obtain ⟨v, hv⟩ := basis_of_root hi hh
  obtain ⟨o, ho, -, hp'⟩ := hw.basis hv
  obtain rfl : p = v.pane o := Option.some.inj (hp.symm.trans hp')
  have hfit : 0 + CaptureRecord.size ≤ (v.pane o).capacity := by
    have hwriter := (hw.pane hp).cursor.writer_le
    omega
  have hcuts : w.Cuts h 0 CaptureRecord.size (v.cut 0 CaptureRecord.size) :=
    ⟨⟨v, hv, rfl⟩, _, hp, hl, hfit⟩
  obtain ⟨o', ho', hfits⟩ := hcuts.carries hw
  obtain rfl : o = o' := Option.some.inj (ho.symm.trans ho')
  intro micros
  have hcheck : CaptureRecord.overlay.check.run ((v.cut 0 CaptureRecord.size).pane o) =
      (if micros < microsPerSecond then .done () else .failed (CaptureRecord.refusal micros), _) :=
    CaptureRecord.overlay_apply (hfits.pane (hw.owner _ o ho)) hl (Nat.le_refl _)
  have hself : w.setBlock (v.cut 0 CaptureRecord.size).root o.block = w := setBlock_self ho'
  refine ⟨v.cut 0 CaptureRecord.size, o, ho, hcuts.carries hw, rfl, rfl, ?_⟩
  rw [overlaid, castWith_of_populated hw hv hp (populated_record_iff.2 hwritten) hl, covered_record,
    acceptance_apply ho', hcheck]
  refine Prod.ext ?_ hself
  by_cases hmicros : micros < microsPerSecond
  · simp only [if_pos hmicros]
    rfl
  · simp only [if_neg hmicros]
    rfl

/-- **Where the bytes make a record, a record can be laid over them.** -/
theorem layRecord_apply (hw : w.Sound) (hrec : w.Records h p) :
    ∃ k w', layRecord h w = (.done k, w') ∧ w'.Sound ∧
      w'.pane? (.record k) = some (p.cut 0 CaptureRecord.size) := by
  obtain ⟨u, o, ho, hcarries, hsize, hpane, hrun⟩ :=
    overlaid_record hw hrec.source hrec.sees hrec.live hrec.written
  rw [if_pos hrec.micros] at hrun
  refine ⟨_, _, Action.bind_done hrun, hw.addRecord hcarries hsize, ?_⟩
  refine pane?_eq_some_iff.2 (.inr ⟨u, o, ?_, ho, hpane.symm⟩)
  simp [derived?, record?]

/-- **A record was laid over bytes that make one.** -/
theorem records_of_layRecord (hw : w.Sound) (hrun : layRecord h w = (.done k, w')) :
    ∃ p, w.Records h p := by
  have hlook : Action.Observes Trap.isMisuse (overlaid h CaptureRecord.overlay) w fun _ =>
      ∃ p, h.isRecord = false ∧ w.pane? h = some p ∧ p.Live ∧
        CaptureRecord.size ≤ p.cursor.writer := by
    refine (paneOf_observes h).bind fun p hp => ?_
    refine Action.Observes.ofExcept.bind fun length hlength => ?_
    obtain ⟨hwritten, rfl⟩ := overlay_length_iff.1 hlength
    refine (slicing_observes hw h 0 _).bind fun v hv => ?_
    have hcarries := hv.carries hw
    obtain ⟨⟨u, hu, -⟩, q, hq, hl, -⟩ := hv
    obtain rfl : p = q := Option.some.inj (hp.symm.trans hq)
    have hh : h.isRecord = false := by
      cases h <;> first | rfl | cases hu
    refine Action.Stays.mono (acceptance_stays hw _ hcarries).mapError ?_ ?_
    · exact fun _ hd => hd.2 captureOverlay_reads
    · exact fun _ _ hd => ⟨hd.1.2 captureOverlay_reads, p, hh, hp, hl, hwritten⟩
  rcases hoverlaid : overlaid h CaptureRecord.overlay w with ⟨a | e | t, w''⟩
  · obtain ⟨-, p, hh, hp, hl, hwritten⟩ := Action.Careful.of_done hlook hoverlaid
    obtain ⟨_, _, -, -, -, -, hdecided⟩ := overlaid_record hw hh hp hl hwritten
    by_cases hmicros :
        ((p.cut 0 CaptureRecord.size).wordAt CaptureRecord.microsAt).toNat < microsPerSecond
    · exact ⟨p, hh, hp, hl, hwritten, hmicros⟩
    · rw [if_neg hmicros, hoverlaid] at hdecided
      cases hdecided
  · cases (Action.bind_failed hoverlaid).symm.trans hrun
  · cases (Action.bind_trapped hoverlaid).symm.trans hrun

theorem layRecord_of_run (hrun : (Operation.layRecord h).run w = (.done (.handle (.record k)), w')) :
    layRecord h w = (.done k, w') := by
  rcases hlay : layRecord h w with ⟨i | e | t, w''⟩
  · cases (Action.bind_done hlay).symm.trans hrun
    rfl
  · cases (Action.bind_failed hlay).symm.trans hrun
  · cases (Action.bind_trapped hlay).symm.trans hrun

/-! ## There and back -/

theorem run_writeRecord (hp : w.pane? h = some p) (header : CaptureInfo) :
    (Operation.writeRecord h header).run w =
      ((header.write p).1.map fun _ => Reply.unit, w.store h (header.write p).2) := by
  have hthrough := through_apply (m := header.write) hp
  rcases hrun : header.write p with ⟨a | e | t, p'⟩ <;> rw [hrun] at hthrough
  · exact Action.bind_done hthrough
  · exact Action.bind_failed hthrough
  · exact Action.bind_trapped hthrough

/-- A record in memory answers the header that its fields make. -/
theorem run_header (hw : w.Sound) (hp : w.pane? (.record k) = some p) (hl : p.Live)
    (hsize : CaptureRecord.size ≤ p.capacity) :
    ((Operation.recordCall k .header).run w).1 = .done (.header
      ⟨.ofFields (p.wordAt CaptureRecord.secondsAt).toNat (p.wordAt CaptureRecord.microsAt).toNat,
        p.wordAt CaptureRecord.capturedAt, p.wordAt CaptureRecord.wireAt⟩) := by
  have hheader := CaptureRecord.header_apply (hw.pane hp) hl hsize
  have hrun : RecordCall.run .header p = (.done (.header _), p) := Action.bind_done hheader
  have hthrough := through_apply (m := RecordCall.run .header) hp
  rw [hrun] at hthrough
  exact congrArg Prod.fst hthrough

/-- A header that has fields is written, behind the written bytes. -/
theorem Sound.writeRecord_apply {header : CaptureInfo} {seconds micros : BitVec 32} (hw : w.Sound)
    (hp : w.pane? h = some p) (hl : p.Live)
    (hroom : CaptureRecord.size ≤ p.capacity - p.cursor.writer)
    (hfields : header.timestamp.fields = .ok (seconds, micros)) :
    let image := CaptureRecord.image p.order seconds micros header.captured header.wire
    ∃ w', (Operation.writeRecord h header).run w = (.done .unit, w') ∧ w'.Sound ∧
      w'.pane? h = some (p.appended image) ∧ p.Extends image (p.appended image) := by
  intro image
  have hps := hw.pane hp
  have hfit : image.length ≤ p.capacity - p.cursor.writer := by
    rw [CaptureRecord.length_image]
    exact hroom
  have he : p.Evolves (p.appended image) := hps.evolves_appended hfit
  refine ⟨w.store h (p.appended image), ?_, hw.store hp he, pane?_store_self hp he,
    hps.extends_appended hl hfit p.order⟩
  rw [run_writeRecord hp, CaptureInfo.write_apply hps hl hroom hfields]
  rfl

/-- Where the bytes of a record are, a slice of them can be taken for the record, and answers the
header. -/
theorem Sound.reads_record {seconds micros captured wire : BitVec 32} {index : Nat} (hw : w.Sound)
    (hh : h.isRecord = false) (hp : w.pane? h = some p) (hl : p.Live)
    (hfit : index + CaptureRecord.size ≤ p.capacity) (hmicros : micros.toNat < microsPerSecond)
    (hb : p.bytesAt index CaptureRecord.size =
      CaptureRecord.image p.order seconds micros captured wire) :
    ∃ j k w₁ w₂,
      (Operation.slice h index CaptureRecord.size).run w = (.done (.handle (.view j)), w₁) ∧
      (Operation.layRecord (.view j)).run w₁ = (.done (.handle (.record k)), w₂) ∧
      ((Operation.recordCall k .header).run w₂).1 =
        .done (.header ⟨.ofFields seconds.toNat micros.toNat, captured, wire⟩) := by
  obtain ⟨j, w₁, hslice, hw₁, -, -, hs, -⟩ := hw.slice_apply hh hp hl hfit
  -- the record shows the bytes that the slice was cut from
  have hcut : ((p.cut index CaptureRecord.size).cut 0 CaptureRecord.size).Sound :=
    (hw₁.pane hs).cut (Nat.le_refl (0 + CaptureRecord.size))
  have hbytes : ((p.cut index CaptureRecord.size).cut 0 CaptureRecord.size).bytesAt 0
      CaptureRecord.size = CaptureRecord.image p.order seconds micros captured wire := by
    rw [Pane.bytesAt_cut, Pane.bytesAt_cut]
    exact hb
  obtain ⟨h₁, h₂, h₃, h₄⟩ := (CaptureRecord.bytesAt_image_iff hcut hl (Nat.le_refl _)).1 hbytes
  have hrecords : w₁.Records (.view j) (p.cut index CaptureRecord.size) :=
    ⟨rfl, hs, hl, Nat.le_refl _, by rw [h₂]; exact hmicros⟩
  obtain ⟨k, w₂, hlay, hw₂, hk⟩ := layRecord_apply hw₁ hrecords
  have hheader := run_header hw₂ hk hl (Nat.le_refl _)
  rw [h₁, h₂, h₃, h₄] at hheader
  exact ⟨j, k, w₁, w₂, Action.bind_done hslice, Action.bind_done hlay, hheader⟩

/-- The bytes under a record are those of its header. -/
theorem Sound.record_image {g : Handle} (hw : w.Sound) (hp : w.pane? g = some p)
    (hlay : (Operation.layRecord g).run w = (.done (.handle (.record k)), w')) :
    ∃ header seconds micros,
      ((Operation.recordCall k .header).run w').1 = .done (.header header) ∧
      header.timestamp.fields = .ok (seconds, micros) ∧ p.bytesAt 0 CaptureRecord.size =
        CaptureRecord.image p.order seconds micros header.captured header.wire := by
  have hrun := layRecord_of_run hlay
  obtain ⟨q, hrecords⟩ := records_of_layRecord hw hrun
  obtain rfl : p = q := Option.some.inj (hp.symm.trans hrecords.sees)
  obtain ⟨k', w'', hrun', hw', hk⟩ := layRecord_apply hw hrecords
  obtain ⟨rfl, rfl⟩ : k = k' ∧ w' = w'' := by
    rw [hrun] at hrun'
    simpa using hrun'
  have hheader := run_header hw' hk hrecords.live (Nat.le_refl _)
  refine ⟨_, _, _, hheader, Timestamp.fields_ofFields hrecords.micros, ?_⟩
  have himage := (CaptureRecord.bytesAt_image_iff (hw'.pane hk) hrecords.live (Nat.le_refl _)).2
    ⟨rfl, rfl, rfl, rfl⟩
  rw [Pane.bytesAt_cut] at himage
  exact himage

/-- **A record is what its header was**, down to whole microseconds, and a header what its record
was. -/
theorem record_round_trip (hw : w.Reachable) (hh : h.isRecord = false) (hp : w.pane? h = some p)
    (hr : p.released = false) (hroom : CaptureRecord.size ≤ p.capacity - p.cursor.writer) :
    (∀ header : CaptureInfo,
      (((Operation.writeRecord h header).run w).1 = .done .unit ↔ header.timestamp.InRange) ∧
      (header.timestamp.InRange → ∃ bytes q j k w₁ w₂ w₃,
        (Operation.writeRecord h header).run w = (.done .unit, w₁) ∧
        w₁.pane? h = some q ∧ bytes.length = CaptureRecord.size ∧ p.Extends bytes q ∧
        (Operation.slice h p.cursor.writer CaptureRecord.size).run w₁ =
          (.done (.handle (.view j)), w₂) ∧
        (Operation.layRecord (.view j)).run w₂ = (.done (.handle (.record k)), w₃) ∧
        ((Operation.recordCall k .header).run w₃).1 =
          .done (.header { header with timestamp := header.timestamp.wholeMicros }))) ∧
    (∀ (w₀ w₁ : World) (g : Handle) (k : Nat) (q : Pane), w₀.Reachable → w₀.pane? g = some q →
      q.order = p.order → (Operation.layRecord g).run w₀ = (.done (.handle (.record k)), w₁) →
      ∃ header w' p', ((Operation.recordCall k .header).run w₁).1 = .done (.header header) ∧
        (Operation.writeRecord h header).run w = (.done .unit, w') ∧
        w'.pane? h = some p' ∧ p.Extends (q.bytesAt 0 CaptureRecord.size) p') := by
  have hsound := hw.sound
  have hl := hsound.live_of_pane hp hr
  refine ⟨fun header => ⟨⟨fun hdone => ?_, fun hin => ?_⟩, fun hin => ?_⟩, ?_⟩
  · refine Classical.byContradiction fun hout => ?_
    obtain ⟨e, herror⟩ := Timestamp.fields_of_not_inRange hout
    rw [run_writeRecord hp, CaptureInfo.write_of_error herror] at hdone
    cases hdone
  · obtain ⟨_, _, hfields, -, -⟩ := Timestamp.fields_of_inRange hin
    obtain ⟨_, hrun, -, -, -⟩ := hsound.writeRecord_apply hp hl hroom hfields
    rw [hrun]
  · obtain ⟨seconds, micros, hfields, hmicros, hback⟩ := Timestamp.fields_of_inRange hin
    obtain ⟨w₁, hrun, hw₁, hq, hextends⟩ := hsound.writeRecord_apply hp hl hroom hfields
    have hwritten := hextends.written
    rw [CaptureRecord.length_image] at hwritten
    have hfit : p.cursor.writer + CaptureRecord.size ≤ p.capacity := by
      have hwriter := (hsound.pane hp).cursor.writer_le
      omega
    obtain ⟨j, k, w₂, w₃, hslice, hlay, hheader⟩ :=
      hw₁.reads_record hh hq (hw₁.live_of_pane hq hr) hfit hmicros hwritten
    rw [hback] at hheader
    exact ⟨_, _, j, k, w₁, w₂, w₃, hrun, hq, CaptureRecord.length_image _, hextends, hslice, hlay,
      hheader⟩
  · intro w₀ w₁ g k q hw₀ hq horder hlay
    obtain ⟨header, seconds, micros, hheader, hfields, himage⟩ := hw₀.sound.record_image hq hlay
    obtain ⟨w', hrun, -, hp', hextends⟩ := hsound.writeRecord_apply hp hl hroom hfields
    rw [← horder, ← himage] at hextends hp'
    exact ⟨header, w', _, hheader, hrun, hp', hextends⟩

/-- A header is written with the least significant byte first, behind three other bytes, and read
without the odd nanoseconds. The header of these bytes, written in place of the first one, gives the
same bytes. -/
theorem record_round_trip_little :
    let w := (start [⟨true, false, .log⟩]).after [.allocate 0 20, .duplicate (.owner 0),
      .call (.view 0) (.setOrder .little), .call (.view 0) (.appendBytes [1, 2, 3])]
    let header : CaptureInfo := ⟨⟨2000003999⟩, 60, 1500⟩
    let bytes : List UInt8 := [2, 0, 0, 0, 3, 0, 0, 0, 60, 0, 0, 0, 0xDC, 5, 0, 0]
    ((Operation.writeRecord (.view 0) header).run w).1 = .done .unit ∧
      (∃ k w₃, ((Operation.recordCall k .header).run w₃).1 =
        .done (.header ⟨⟨2000003000⟩, 60, 1500⟩)) ∧
      ∃ again w' p', (Operation.writeRecord (.view 0) again).run w = (.done .unit, w') ∧
        w'.pane? (.view 0) = some p' ∧ p'.bytesAt 3 16 = bytes := by
  intro w header bytes
  have hin : header.timestamp.InRange := ⟨by decide, by decide⟩
  let p : Pane := ⟨some (1 :: 2 :: 3 :: List.replicate 17 0), false, 0, 20, ⟨0, 3, 0, 0⟩, .little⟩
  have hp : w.pane? (.view 0) = some p := by decide
  obtain ⟨hthere, hback⟩ :=
    record_round_trip (w := w) (h := .view 0) ⟨_, _, rfl⟩ rfl hp rfl (by decide)
  obtain ⟨_, _, _, k, _, _, w₃, -, -, -, -, -, -, hread⟩ := (hthere header).2 hin
  -- the record is the first one, over the second view
  let w₀ := w.after [.writeRecord (.view 0) header, .slice (.view 0) 3 16]
  let q : Pane := ⟨some (1 :: 2 :: 3 :: (bytes ++ [0])), false, 3, 16, Cursor.holding 16, .little⟩
  have hq : w₀.pane? (.view 1) = some q := by decide
  have hlay : (Operation.layRecord (.view 1)).run w₀ =
      (.done (.handle (.record 0)), w₀.after [.layRecord (.view 1)]) :=
    Prod.ext (by decide) (by simp only [after_cons, after_nil])
  have hw₀ : w₀.Reachable := Reachable.after ⟨_, _, rfl⟩ _
  obtain ⟨again, w', p', -, hwrite, hp', hextends⟩ := hback w₀ _ (.view 1) 0 q hw₀ hq rfl hlay
  exact ⟨(hthere header).1.2 hin, ⟨k, w₃, hread⟩, again, w', p', hwrite, hp', hextends.written⟩

end World

end PacketMemory
