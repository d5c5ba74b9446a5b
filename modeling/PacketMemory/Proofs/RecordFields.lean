import Mathlib.Algebra.Group.Int.Defs
import PacketMemory.Proofs.Cast
import PacketMemory.Proofs.Pane.Fields

/-!
# The fields of a record stay readable and apart

A record was laid over bytes that make one, but other handles of the memory may put anything there later
on. So the fields are read off whatever sixteen bytes there are (`World.Sound.recordReads`), and
microseconds that exceed a second carry over. Setting a field overwrites its bytes and nothing else in the
world (`World.Sound.run_setter`). Where the microseconds are less than a second, the bytes make a record
again (`World.Sound.recasts`).

Main statement: `World.Reachable.record_fields`.
-/

namespace PacketMemory

namespace World

/-- Asked for its fields, or for all of them at once, a record answers with those of this header. -/
structure RecordReads (w : World) (k : Nat) (info : CaptureInfo) : Prop where
  timestamp : (Operation.recordCall k .timestamp).run w = (.done (.timestamp info.timestamp), w)
  captured : (Operation.recordCall k .captured).run w = (.done (.word info.captured), w)
  wire : (Operation.recordCall k .wire).run w = (.done (.word info.wire), w)
  header : (Operation.recordCall k .header).run w = (.done (.header info), w)

/-- Nothing happened but that bytes between `start` and `stop` of what a handle shows were
overwritten. -/
def Rewrites (w : World) (h : Handle) (start stop : Nat) (w' : World) : Prop :=
  ∃ root p b b', w.root? h = some root ∧ w.pane? h = some p ∧ p.block = some b ∧
    w' = w.setBlock root (some b') ∧ b'.length = b.length ∧
    ∀ i, i < p.offset + start ∨ p.offset + stop ≤ i → b'[i]? = b[i]?

/-- The bytes of a record pass the check of a cast. Wherever a handle of the memory shows them in the byte
order of the record, a record can be laid over them, and over a slice of them, and it reads as this
header. -/
structure Recasts (w : World) (k : Nat) (info : CaptureInfo) : Prop where
  passes : ∀ p, w.pane? (.record k) = some p → CaptureRecord.overlay.check.run p = (.done (), p)
  again : ∀ (g : Handle) (p q : Pane) (index : Nat), g.isRecord = false →
    w.pane? (.record k) = some p → w.pane? g = some q → w.root? g = w.root? (.record k) →
    q.order = p.order → q.offset + index = p.offset → index + 16 ≤ q.capacity →
    (index = 0 → 16 ≤ q.cursor.writer →
      ∃ j w', (Operation.layRecord g).run w = (.done (.handle (.record j)), w')) ∧
    ∃ i j w₁ w₂, (Operation.slice g index 16).run w = (.done (.handle (.view i)), w₁) ∧
      (Operation.layRecord (.view i)).run w₁ = (.done (.handle (.record j)), w₂) ∧
      ((Operation.recordCall j .header).run w₂).1 = .done (.header info)

variable {w w' : World} {k root : Nat} {p : Pane} {call other : RecordCall} {start stop : Nat}
variable {bytes : List UInt8}

theorem Sound.capacity_record (hw : w.Sound) (hp : w.pane? (.record k) = some p) :
    p.capacity = CaptureRecord.size := by
  obtain ⟨v, hv, hp⟩ := Option.bind_eq_some_iff.1 hp
  obtain ⟨o, -, rfl⟩ := viewPane?_eq_some_iff.1 hp
  exact hw.record k v hv

theorem run_recordCall (hp : w.pane? (.record k) = some p) (call : RecordCall) :
    (Operation.recordCall k call).run w = ((call.run p).1, w.store (.record k) (call.run p).2) :=
  through_apply hp

/-- **A record reads as what is there**, whatever this is. -/
theorem Sound.recordReads (hw : w.Sound) (hp : w.pane? (.record k) = some p) (hl : p.Live) :
    w.RecordReads k p.recorded := by
  have hs := hw.pane hp
  have hsize := Nat.le_of_eq (hw.capacity_record hp).symm
  have hfield : ∀ {index}, index + 4 ≤ CaptureRecord.size →
      CaptureRecord.field index p = (.done (p.wordAt index), p) := fun hi =>
    CaptureRecord.field_apply hs hl (Nat.le_trans hi hsize)
  constructor
  · exact through_query hp (Action.bind_done (CaptureRecord.timestamp_apply hs hl hsize))
  · exact through_query hp (Action.bind_done (hfield (by decide)))
  · exact through_query hp (Action.bind_done (hfield (by decide)))
  · exact through_query hp (Action.bind_done (CaptureRecord.header_apply hs hl hsize))

/-- **Where the microseconds are less than a second, the bytes of a record make one.** -/
theorem Sound.recasts (hw : w.Sound) (hp : w.pane? (.record k) = some p) (hr : p.released = false)
    (hmicros : (p.wordAt CaptureRecord.microsAt).toNat < microsPerSecond) :
    w.Recasts k p.recorded := by
  have hsize := Nat.le_of_eq (hw.capacity_record hp).symm
  refine ⟨fun p' hp' => ?_, fun g p' q index hg hp' hq hroot horder hoffset hfit => ?_⟩
  · obtain rfl := Option.some.inj (hp.symm.trans hp')
    rw [CaptureRecord.overlay_apply (hw.pane hp) (hw.live_of_pane hp hr) hsize, if_pos hmicros]
  obtain rfl := Option.some.inj (hp.symm.trans hp')
  obtain ⟨hblock, hreleased⟩ := memory_of_root hp hq hroot
  have hbytes : ∀ i n, q.bytesAt (index + i) n = p.bytesAt i n := by
    intro i n
    simp only [Pane.bytesAt, hblock, ← hoffset, Nat.add_assoc]
  refine ⟨fun hindex hwritten => ?_, ?_⟩
  · subst hindex
    have hword : q.wordAt CaptureRecord.microsAt = p.wordAt CaptureRecord.microsAt := by
      rw [Pane.wordAt, Pane.wordAt, horder, ← hbytes, Nat.zero_add]
    refine (hw.run_layRecord_iff hg hq).2 ⟨hwritten, hreleased.trans hr, ?_⟩
    rw [hword]
    exact hmicros
  · have himage := (CaptureRecord.bytesAt_image_iff (hw.pane hp) (hw.live_of_pane hp hr) hsize).2
      ⟨rfl, rfl, rfl, rfl⟩
    rw [← hbytes, ← horder] at himage
    exact hw.reads_record hg hq (hw.live_of_pane hq (hreleased.trans hr)) hfit hmicros himage

/-- **What a record can hold is set**, and nothing else happens. -/
theorem Sound.run_setter (hw : w.Sound) (hp : w.pane? (.record k) = some p) (hl : p.Live)
    (h : call.extent? = some (start, stop)) (hbytes : call.image p.order = .ok bytes) :
    ∃ w', (Operation.recordCall k call).run w = (.done .unit, w') ∧ w'.Sound ∧
      w'.pane? (.record k) = some (p.overwrite start bytes) ∧ w.Rewrites (.record k) start stop w' := by
  have hs := hw.pane hp
  have hsize := hw.capacity_record hp
  obtain ⟨hstop, hlast⟩ := RecordCall.stop_of_extent h hbytes
  have hfit : start + bytes.length ≤ p.capacity := by
    rw [hstop, hsize]
    exact hlast
  have he := hs.evolves_overwrite hfit
  have hrun := RecordCall.run_of_extent hs hl (Nat.le_of_eq hsize.symm) h
  rw [RecordCall.verdict, RecordCall.patched, hbytes] at hrun
  refine ⟨w.store (.record k) (p.overwrite start bytes), ?_, hw.store hp he, pane?_store_self hp he,
    ?_⟩
  · rw [run_recordCall hp, hrun]
  · obtain ⟨root, -, hroot, -⟩ := root_of_pane hp
    obtain ⟨b, hb⟩ := Option.isSome_iff_exists.1 hl.2
    obtain ⟨b', hb', hlen⟩ : ∃ b', (p.overwrite start bytes).block = some b' ∧
        b'.length = b.length := by
      have hsized := he.size
      rw [hb] at hsized
      obtain ⟨b', hb', hlen⟩ := Option.map_eq_some_iff.1 hsized
      exact ⟨b', hb', hlen⟩
    refine ⟨root, p, b, b', hroot, hp, hb, ?_, hlen, fun i hi => ?_⟩
    · rw [← hb']
      exact store_block hp hroot _
    · exact Pane.overwrite_outside hs hb hb' (by omega) (by omega)

/-- Calls on different fields of a record can be swapped. -/
theorem Sound.run_recordCall_comm (hw : w.Sound) (hp : w.pane? (.record k) = some p)
    (h : call.extent?.isSome = true) (h' : other.extent?.isSome = true)
    (hne : call.extent? ≠ other.extent?) :
    ∃ w', (Operation.recordCall k other).run ((Operation.recordCall k call).run w).2 =
        (((Operation.recordCall k other).run w).1, w') ∧
      (Operation.recordCall k call).run ((Operation.recordCall k other).run w).2 =
        (((Operation.recordCall k call).run w).1, w') := by
  have hs := hw.pane hp
  obtain ⟨⟨start, stop⟩, h⟩ := Option.isSome_iff_exists.1 h
  obtain ⟨⟨start', stop'⟩, h'⟩ := Option.isSome_iff_exists.1 h'
  have hsize := Nat.le_of_eq (hw.capacity_record hp).symm
  obtain ⟨p', hlate, hlate'⟩ := RecordCall.run_comm hs hsize h h' hne
  have hseen : ∀ c : RecordCall, (w.store (.record k) (c.run p).2).pane? (.record k) =
      some (c.run p).2 := fun c => pane?_store_self hp (c.run_writes hs).toEvolves
  refine ⟨w.store (.record k) p', ?_, ?_⟩
  · rw [run_recordCall hp call, run_recordCall (hseen call), hlate, store_store hp,
      run_recordCall hp other]
  · rw [run_recordCall hp other, run_recordCall (hseen other), hlate', store_store hp,
      run_recordCall hp call]

/-- What setting a field comes to, if the record can hold the value. -/
theorem Sound.run_setter_reads (hw : w.Sound) (hp : w.pane? (.record k) = some p) (hl : p.Live)
    (h : call.extent? = some (start, stop)) (hbytes : call.image p.order = .ok bytes) :
    ∃ w', (Operation.recordCall k call).run w = (.done .unit, w') ∧ w'.Sound ∧
      w'.pane? (.record k) = some (p.overwrite start bytes) ∧
      w.Rewrites (.record k) start stop w' ∧ w'.RecordReads k (call.applied p.recorded) := by
  have hsize := Nat.le_of_eq (hw.capacity_record hp).symm
  obtain ⟨w', hrun, hw', hp', hrewrites⟩ := hw.run_setter hp hl h hbytes
  have hreads := hw'.recordReads hp' (hw'.live_of_pane hp' hl.1)
  rw [RecordCall.recorded_overwrite (hw.pane hp) hl hsize h hbytes] at hreads
  exact ⟨w', hrun, hw', hp', hrewrites, hreads⟩

/-- **The fields of a record stay readable and apart**, whatever sixteen bytes lie under it by now, in
either byte order. On live memory each of them is read off its bytes; microseconds that exceed a second
carry over, and the result is far from the end of time. A timestamp can be set iff it lies in the
range of a record, which is looked at before the memory is; what is set then are bytes 0 to 7, the
timestamp is read back down to whole microseconds, and the bytes make a record again. The captured length
is set in bytes 8 to 11 and the length on the wire in bytes 12 to 15. Calls that set different fields can
be swapped, on released memory as well. -/
theorem Reachable.record_fields (hw : w.Reachable) (hp : w.pane? (.record k) = some p)
    (hroot : w.root? (.record k) = some root) :
    (p.released = false → ∃ seconds micros captured wire : BitVec 32,
      let t := Timestamp.ofFields seconds.toNat micros.toNat
      (Operation.call (.owner root) (.peekBytes p.offset 16)).run w = (.done (.answer (.bytes
        (CaptureRecord.image p.order seconds micros captured wire))), w) ∧
      w.RecordReads k ⟨t, captured, wire⟩ ∧
      t.seconds = (seconds.toNat + micros.toNat / 1000000 : Nat) ∧
      t.subsecond = micros.toNat % 1000000 * 1000 ∧ t.seconds < 2 ^ 33) ∧
    (∀ t : Timestamp,
      let setting := Operation.recordCall k (.setTimestamp t)
      (¬t.InRange → ∃ why, setting.run w = (.failed (.illegalArgument why), w)) ∧
      (t.InRange → p.released = true → setting.run w = (.failed .memoryAccess, w)) ∧
      (t.InRange → p.released = false → ∃ w' info, setting.run w = (.done .unit, w') ∧
        w.RecordReads k info ∧ w.Rewrites (.record k) 0 8 w' ∧
        w'.RecordReads k { info with timestamp := t.wholeMicros } ∧
        w'.Recasts k { info with timestamp := t.wholeMicros })) ∧
    (p.released = false → ∀ n : BitVec 32, ∃ w₁ w₂ info, w.RecordReads k info ∧
      (Operation.recordCall k (.setCaptured n)).run w = (.done .unit, w₁) ∧
      w.Rewrites (.record k) 8 12 w₁ ∧ w₁.RecordReads k { info with captured := n } ∧
      (Operation.recordCall k (.setWire n)).run w = (.done .unit, w₂) ∧
      w.Rewrites (.record k) 12 16 w₂ ∧ w₂.RecordReads k { info with wire := n }) ∧
    ∀ call other : RecordCall, call.extent?.isSome = true → other.extent?.isSome = true →
      call.extent? ≠ other.extent? → ∃ w',
        (Operation.recordCall k other).run ((Operation.recordCall k call).run w).2 =
          (((Operation.recordCall k other).run w).1, w') ∧
        (Operation.recordCall k call).run ((Operation.recordCall k other).run w).2 =
          (((Operation.recordCall k call).run w).1, w') := by
  have hs := hw.sound
  have hps := hs.pane hp
  have hsize := hs.capacity_record hp
  refine ⟨fun hr => ?_, fun t => ⟨fun hout => ?_, fun hin hr => ?_, fun hin hr => ?_⟩,
    fun hr n => ?_, fun call other h h' hne => hs.run_recordCall_comm hp h h' hne⟩
  · have hl := hs.live_of_pane hp hr
    refine ⟨p.wordAt CaptureRecord.secondsAt, p.wordAt CaptureRecord.microsAt,
      p.wordAt CaptureRecord.capturedAt, p.wordAt CaptureRecord.wireAt, ?_, hs.recordReads hp hl,
      Timestamp.seconds_ofFields _ _, Timestamp.subsecond_ofFields _ _, ?_⟩
    · -- the bytes of the record are those of the owner
      obtain ⟨v, o, ho, hfits, rfl⟩ := hs.window_of_root hp hroot
      have howner := pane?_owner ho
      have hwindow := hfits.window
      have hfit : v.offset + 16 ≤ o.pane.capacity := by
        have hsize : v.capacity = 16 := hsize
        show _ ≤ o.capacity
        omega
      have himage := (CaptureRecord.bytesAt_image_iff hps hl (Nat.le_of_eq hsize.symm)).2
        ⟨rfl, rfl, rfl, rfl⟩
      rw [bytesAt_pane] at himage
      exact himage ▸ run_peekBytes howner (hs.pane howner) (hs.live_of_pane howner hr) hfit
    · have hseconds := (p.wordAt CaptureRecord.secondsAt).isLt
      have hmicros := (p.wordAt CaptureRecord.microsAt).isLt
      rw [Timestamp.seconds_ofFields, microsPerSecond]
      omega
  · obtain ⟨why, hfields⟩ := Timestamp.fields_of_not_inRange hout
    have hset : CaptureRecord.setTimestamp t p = (.failed (.illegalArgument why), p) := by
      rw [CaptureRecord.setTimestamp, hfields]
      rfl
    exact ⟨why, through_refused hp (Action.bind_failed hset)⟩
  · obtain ⟨seconds, micros, hfields, -⟩ := Timestamp.fields_of_inRange hin
    have hn : ¬p.Live := fun hl => absurd (hl.1.symm.trans hr) (by decide)
    have hset := RecordCall.run_of_not_live hn (.setTimestamp t)
    rw [RecordCall.refusal, Timestamp.refusal, hfields] at hset
    exact through_refused hp hset
  · have hl := hs.live_of_pane hp hr
    obtain ⟨seconds, micros, hfields, hmicros, -⟩ := Timestamp.fields_of_inRange hin
    have himage : RecordCall.image p.order (.setTimestamp t) = .ok
        ((Scalar.ofWord seconds).bytes p.order ++ (Scalar.ofWord micros).bytes p.order) := by
      rw [RecordCall.image, hfields]
    obtain ⟨w', hrun, hw', hp', hrewrites, hreads⟩ := hs.run_setter_reads hp hl rfl himage
    have hbelow := (RecordCall.recorded_timestamp hps hl (Nat.le_of_eq hsize.symm) seconds micros).2
    have hrecasts := hw'.recasts hp' hr (by rw [hbelow]; exact hmicros)
    rw [RecordCall.recorded_overwrite hps hl (Nat.le_of_eq hsize.symm) rfl himage] at hrecasts
    exact ⟨w', p.recorded, hrun, hs.recordReads hp hl, hrewrites, hreads, hrecasts⟩
  · have hl := hs.live_of_pane hp hr
    have hcaptured : RecordCall.extent? (.setCaptured n) = some (8, 12) := rfl
    have hwire : RecordCall.extent? (.setWire n) = some (12, 16) := rfl
    obtain ⟨w₁, hrun₁, -, -, hrewrites₁, hreads₁⟩ := hs.run_setter_reads hp hl hcaptured rfl
    obtain ⟨w₂, hrun₂, -, -, hrewrites₂, hreads₂⟩ := hs.run_setter_reads hp hl hwire rfl
    exact ⟨w₁, w₂, p.recorded, hs.recordReads hp hl, hrun₁, hrewrites₁, hreads₁, hrun₂, hrewrites₂,
      hreads₂⟩

/-- After a record was laid over zeros, the owner overwrites the microseconds with ones. The record reads
as 4294.967295 seconds, and its view makes no record any more. A timestamp before the epoch cannot be
set. One behind it can, and then a record can be laid over the view again. The lengths can be set in
either order. -/
theorem record_fields_overwritten :
    let w := (World.start [.standard]).after [.allocate 0 20, .slice (.owner 0) 2 16,
      .call (.view 0) (.setOrder .little), .layRecord (.view 0),
      .call (.owner 0) (.pokeBytes 6 [255, 255, 255, 255])]
    (∃ seconds micros captured wire : BitVec 32,
      CaptureRecord.image .little seconds micros captured wire =
        [0, 0, 0, 0, 255, 255, 255, 255, 0, 0, 0, 0, 0, 0, 0, 0] ∧
      w.RecordReads 0 ⟨.ofFields seconds.toNat micros.toNat, captured, wire⟩) ∧
    (Operation.recordCall 0 .timestamp).run w = (.done (.timestamp ⟨4294967295000⟩), w) ∧
    (∃ why, (Operation.recordCall 0 (.setTimestamp ⟨-1⟩)).run w =
      (.failed (.illegalArgument why), w)) ∧
    (∃ w' w'' j, (Operation.recordCall 0 (.setTimestamp ⟨1500⟩)).run w = (.done .unit, w') ∧
      (Operation.recordCall 0 .timestamp).run w' = (.done (.timestamp ⟨1000⟩), w') ∧
      (Operation.layRecord (.view 0)).run w' = (.done (.handle (.record j)), w'')) ∧
    ∃ w', w.after [.recordCall 0 (.setCaptured 7), .recordCall 0 (.setWire 9)] = w' ∧
      w.after [.recordCall 0 (.setWire 9), .recordCall 0 (.setCaptured 7)] = w' := by
  intro w
  have hw : w.Reachable := ⟨_, _, rfl⟩
  have hp : w.pane? (.record 0) = some ⟨some [0, 0, 0, 0, 0, 0, 255, 255, 255, 255, 0, 0, 0, 0, 0, 0,
    0, 0, 0, 0], false, 2, 16, ⟨0, 16, 0, 0⟩, .little⟩ := by rfl
  obtain ⟨hread, hset, -, hswap⟩ := hw.record_fields hp (by rfl)
  obtain ⟨seconds, micros, captured, wire, hbytes, hreads, -⟩ := hread rfl
  obtain ⟨hbefore, -, -⟩ := hset ⟨-1⟩
  obtain ⟨-, -, hlater⟩ := hset ⟨1500⟩
  obtain ⟨w', info, hrun, -, -, hreads', hrecasts⟩ := hlater (by decide) rfl
  obtain ⟨w'', hfirst, hsecond⟩ := hswap (.setCaptured 7) (.setWire 9) rfl rfl (by decide)
  have hcontent : (Operation.call (.owner 0) (.peekBytes 2 16)).run w = (.done (.answer (.bytes
    [0, 0, 0, 0, 255, 255, 255, 255, 0, 0, 0, 0, 0, 0, 0, 0])), w) := by rfl
  refine ⟨⟨seconds, micros, captured, wire, ?_, hreads⟩, by rfl, hbefore (by decide), ?_, w'',
    congrArg Prod.snd hfirst, congrArg Prod.snd hsecond⟩
  · have hsame := congrArg Prod.fst (hbytes.symm.trans hcontent)
    simpa only [Outcome.done.injEq, Reply.answer.injEq, Answer.bytes.injEq] using hsame
  · have hw' : ((Operation.recordCall 0 (.setTimestamp ⟨1500⟩)).run w).2 = w' :=
      congrArg Prod.snd hrun
    have hp' : w'.pane? (.record 0) = some ⟨some [0, 0, 0, 0, 0, 0, 1, 0, 0, 0, 0, 0, 0, 0, 0, 0,
      0, 0, 0, 0], false, 2, 16, ⟨0, 16, 0, 0⟩, .little⟩ := by rw [← hw']; rfl
    have hq' : w'.pane? (.view 0) = some ⟨some [0, 0, 0, 0, 0, 0, 1, 0, 0, 0, 0, 0, 0, 0, 0, 0,
      0, 0, 0, 0], false, 2, 16, ⟨0, 16, 0, 0⟩, .little⟩ := by rw [← hw']; rfl
    have hroot : w'.root? (.view 0) = w'.root? (.record 0) := by rw [← hw']; rfl
    obtain ⟨hlay, -⟩ := hrecasts.again (.view 0) _ _ 0 rfl hp' hq' hroot rfl rfl (by decide)
    obtain ⟨j, w'', hlay⟩ := hlay rfl (by decide)
    exact ⟨w', w'', j, hrun, hreads'.timestamp, hlay⟩

end World

end PacketMemory
