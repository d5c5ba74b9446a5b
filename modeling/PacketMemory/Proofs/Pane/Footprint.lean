import PacketMemory.Proofs.Pane.Calls
import PacketMemory.Proofs.Pane.Record

/-!
# Footprints: where a pane may be written

What a call writes is known before it runs: a range at the index that it names, a range at the writer,
or the start of the window. `Call.written`, `RecordCall.written` and `CaptureInfo.written` list these
ranges, and `Check.written` those of the calls that a check of an overlay comes to make.

Main statements: however a call ends, the bytes that changed lie in these ranges and in the window
(`Call.run_writes`, `RecordCall.run_writes`, `CaptureInfo.write_writes`), and this adds up along a
check (`Check.run_writes`).
-/

namespace PacketMemory

/-- Ranges of a window: where each of them starts, and how long it is. -/
abbrev Ranges : Type := List (Nat × Nat)

namespace Pane

/-- The byte of the block lies in the window and in one of these ranges of it. -/
def InRanges (p : Pane) (ranges : Ranges) (i : Nat) : Prop :=
  i < p.offset + p.capacity ∧
    ∃ range ∈ ranges, p.offset + range.1 ≤ i ∧ i < p.offset + range.1 + range.2

/-- The pane `p'` is what became of `p`, and only bytes in these ranges changed. -/
structure Writes (p : Pane) (ranges : Ranges) (p' : Pane) : Prop extends p.Evolves p' where
  inRanges : ∀ b b', p.block = some b → p'.block = some b' →
    ∀ i, b'[i]? ≠ b[i]? → p.InRanges ranges i

variable {p p' p'' : Pane} {ranges ranges' : Ranges} {index length : Nat} {bytes : List UInt8}

theorem Writes.of_block (he : p.Evolves p') (hb : p'.block = p.block) : p.Writes ranges p' := by
  refine ⟨he, fun b b' hp hp' i hi => absurd ?_ hi⟩
  obtain rfl : b = b' := Option.some.inj (hp.symm.trans (hb.symm.trans hp'))
  rfl

theorem Sound.writes_refl (hp : p.Sound) : p.Writes ranges p := .of_block hp.evolves_refl rfl

/-- Overwritten bytes, whatever happens to the cursor. -/
theorem Writes.of_overwrite (he : p.Evolves p') (hlen : bytes.length ≤ length)
    (hb : p'.block = (p.overwrite index bytes).block) : p.Writes [(index, length)] p' := by
  refine ⟨he, fun b b' hp hp' i hi => ?_⟩
  have hwindow : p.offset ≤ i ∧ i < p.offset + p.capacity := by
    refine Classical.byContradiction fun hout => hi (he.outside b b' hp hp' i ?_)
    omega
  refine ⟨hwindow.2, _, List.mem_singleton_self _, ?_⟩
  have hb' : b' = b.take (p.offset + index) ++
      (bytes ++ b.drop (p.offset + index + bytes.length)) := by
    rw [hb, overwrite, hp] at hp'
    exact (Option.some.inj hp').symm
  refine Classical.byContradiction fun hout => hi ?_
  rw [hb']
  rcases Nat.lt_or_ge b.length (p.offset + index) with hlt | hle
  -- nothing can be put behind the end of a block that keeps its size
  · have hsize := he.size
    rw [hp, hp', hb', Option.map_some, Option.map_some, List.length_append, List.length_append,
      List.take_of_length_le (Nat.le_of_lt hlt)] at hsize
    have hnil : bytes = [] := List.eq_nil_of_length_eq_zero (by have := Option.some.inj hsize; omega)
    rw [hnil, List.nil_append, List.length_nil, Nat.add_zero, List.take_append_drop]
  · exact Block.overwrite_outside hle (by simp only at hout; omega)

theorem Writes.of_appended (he : p.Evolves p') (hlen : bytes.length ≤ length)
    (h : p' = (p.overwrite p.cursor.writer bytes).produced length) :
    p.Writes [(p.cursor.writer, length)] p' :=
  .of_overwrite he hlen (by rw [h]; rfl)

theorem InRanges.mono (hsub : ranges ⊆ ranges') {i : Nat} (h : p.InRanges ranges i) :
    p.InRanges ranges' i := by
  obtain ⟨hi, range, hmem, hrange⟩ := h
  exact ⟨hi, range, hsub hmem, hrange⟩

/-- One after the other. -/
theorem Writes.trans (h : p.Writes ranges p') (h' : p'.Writes ranges' p'') :
    p.Writes (ranges ++ ranges') p'' := by
  refine ⟨h.toEvolves.trans h'.toEvolves, fun b b'' hb hb'' i hi => ?_⟩
  obtain ⟨b', hb', -⟩ := Option.map_eq_some_iff.1 (h.size.trans (congrArg (Option.map _) hb))
  by_cases hfirst : b'[i]? = b[i]?
  · have hranges := h'.inRanges b' b'' hb' hb'' i (hfirst ▸ hi)
    unfold InRanges at hranges
    rw [h.offset, h.capacity] at hranges
    exact InRanges.mono (List.subset_append_right _ _) hranges
  · exact (h.inRanges b b' hb hb' i hfirst).mono (List.subset_append_left _ _)

/-- However something careful ends, only these bytes change. -/
theorem Sound.writes_of_careful {α : Type} {m : Task α} {P : α → Pane → Prop} (hp : p.Sound)
    (hm : Action.Careful Trap.never m p P) (hP : ∀ a p', P a p' → p.Writes ranges p') :
    p.Writes ranges (m p).2 :=
  hm.leads (L := fun p p' => p.Writes ranges p') hp.writes_refl hP

theorem Sound.writes_of_observes {α : Type} {m : Task α} {R : α → Prop} (hp : p.Sound)
    (hm : Action.Observes Trap.never m p R) : p.Writes ranges (m p).2 := by
  rw [hm.state_eq]
  exact hp.writes_refl

/-- Only the answer is changed. -/
theorem Writes.answer {α β : Type} {m : Task α} (h : p.Writes ranges (m p).2) (f : α → β) :
    p.Writes ranges ((m >>= fun a => pure (f a)) p).2 := by
  rw [Action.state_answer]
  exact h

/-- One step after the other. -/
theorem Writes.bind {α β : Type} {m : Task α} {f : α → Task β}
    (hm : p.Writes ranges (m p).2) (hp : p.Sound)
    (hf : ∀ a (q : Pane), q.Sound → q.Writes ranges' (f a q).2) :
    p.Writes (ranges ++ ranges') ((m >>= f) p).2 := by
  have hs := hp.of_evolves hm.toEvolves
  rcases hrun : m p with ⟨a | e | t, p'⟩ <;> rw [hrun] at hm hs
  · rw [Action.bind_done hrun]
    exact hm.trans (hf a p' hs)
  · rw [Action.bind_failed hrun]
    exact hm.trans hs.writes_refl
  · rw [Action.bind_trapped hrun]
    exact hm.trans hs.writes_refl

end Pane

variable {p : Pane}

/-! ## Calls -/

namespace Call

/-- The ranges that a call writes. -/
def written (p : Pane) : Call → Ranges
  | compact => [(0, p.cursor.writer - p.cursor.reader)]
  | pokeScalar index value _ => [(index, value.type.size)]
  | pokeFlag index _ => [(index, 1)]
  | pokeBytes index bytes => [(index, bytes.length)]
  | pokeZero index length => [(index, length)]
  | pokeText index text codec => [(index, (codec.bytes text).length)]
  | appendScalar value _ => [(p.cursor.writer, value.type.size)]
  | appendFlag _ => [(p.cursor.writer, 1)]
  | appendBytes bytes => [(p.cursor.writer, bytes.length)]
  | appendZero length => [(p.cursor.writer, length)]
  | appendText text codec => [(p.cursor.writer, (codec.bytes text).length)]
  | _ => []

theorem written_of_reads {call : Call} (h : call.reads = true) : call.written p = [] := by
  cases call <;> first | rfl | cases h

/-- **A call writes nothing but its ranges.** -/
theorem run_writes (hp : p.Sound) (call : Call) : p.Writes (call.written p) (call.run p).2 := by
  have scalar : ∀ (order : ByteOrder) (value : Scalar),
    (value.bytes order).length ≤ value.type.size := fun order value =>
      Nat.le_of_eq (Scalar.length_bytes order value)
  let flag (value : Bool) := Scalar.ofByte (if value then 1 else 0)
  have zeros : ∀ length : Nat, (List.replicate length (0 : UInt8)).length ≤ length := fun _ =>
    Nat.le_of_eq List.length_replicate
  cases call with
  | compact =>
    refine (hp.writes_of_careful (Pane.compact_careful hp) ?_).answer _
    rintro _ _ rfl
    exact .of_overwrite hp.evolves_discarded (List.length_take_le _ _) rfl
  | pokeScalar index value reversed =>
    exact (hp.writes_of_careful (Pane.pokeScalar_careful hp index value reversed)
      fun _ _ h => .of_overwrite h.2.2 (scalar _ _) (congrArg Pane.block h.2.1)).answer _
  | pokeFlag index value =>
    exact (hp.writes_of_careful (Pane.pokeScalar_careful hp index (flag value) false)
      fun _ _ h => .of_overwrite h.2.2 (scalar _ _) (congrArg Pane.block h.2.1)).answer _
  | pokeBytes index bytes =>
    exact (hp.writes_of_careful (Pane.pokeBytes_careful hp index bytes)
      fun _ _ h => .of_overwrite h.2 (Nat.le_refl _) (congrArg Pane.block h.1)).answer _
  | pokeZero index length =>
    exact (hp.writes_of_careful (Pane.pokeZero_careful hp index length)
      fun _ _ h => .of_overwrite h.2 (zeros _) (congrArg Pane.block h.1)).answer _
  | pokeText index text codec =>
    exact (hp.writes_of_careful (Pane.pokeText_careful hp index text codec)
      fun _ _ h => .of_overwrite h.2 (Nat.le_refl _) (congrArg Pane.block h.1)).answer _
  | appendScalar value reversed =>
    exact (hp.writes_of_careful (Pane.appendScalar_careful hp value reversed)
      fun _ _ h => .of_appended h.2 (scalar _ _) h.1).answer _
  | appendFlag value =>
    exact (hp.writes_of_careful (Pane.appendScalar_careful hp (flag value) false)
      fun _ _ h => .of_appended h.2 (scalar _ _) h.1).answer _
  | appendBytes bytes =>
    exact (hp.writes_of_careful (Pane.appendBytes_careful hp bytes)
      fun _ _ h => .of_appended h.2 (Nat.le_refl _) h.1).answer _
  | appendZero length =>
    exact (hp.writes_of_careful (Pane.appendZero_careful hp length)
      fun _ _ h => .of_appended h.2 (zeros _) h.1).answer _
  | appendText text codec =>
    exact (hp.writes_of_careful (Pane.appendText_careful hp text codec)
      fun _ _ h => .of_appended h.2 (Nat.le_refl _) h.1).answer _
  | _ => exact .of_block (run_evolves hp _) (run_block hp _ rfl)

end Call

/-! ## Capture records -/

namespace RecordCall

/-- The ranges that a call on a record writes. -/
def written : RecordCall → Ranges
  | setTimestamp _ => [(CaptureRecord.secondsAt, 4), (CaptureRecord.microsAt, 4)]
  | setCaptured _ => [(CaptureRecord.capturedAt, 4)]
  | setWire _ => [(CaptureRecord.wireAt, 4)]
  | _ => []

theorem setField_writes (hp : p.Sound) (index : Nat) (value : BitVec 32) :
    p.Writes [(index, 4)] (CaptureRecord.setField index value p).2 :=
  hp.writes_of_careful (Pane.pokeScalar_careful hp index _ false) fun _ _ h =>
    .of_overwrite h.2.2 (Nat.le_of_eq (Scalar.length_bytes_ofWord _ _)) (congrArg Pane.block h.2.1)

/-- **A call on a record writes nothing but its fields.** -/
theorem run_writes (hp : p.Sound) (call : RecordCall) :
    p.Writes call.written (call.run p).2 := by
  cases call with
  | timestamp => exact (hp.writes_of_observes (CaptureRecord.timestamp_observes hp)).answer _
  | captured => exact (hp.writes_of_observes (CaptureRecord.field_observes hp _)).answer _
  | wire => exact (hp.writes_of_observes (CaptureRecord.field_observes hp _)).answer _
  | header => exact (hp.writes_of_observes (CaptureRecord.header_observes hp)).answer _
  | setTimestamp value =>
    have hfields : p.Writes [] (Action.ofExcept value.fields p).2 :=
      hp.writes_of_observes Action.Observes.ofExcept
    refine (hfields.bind hp fun fields q hq => ?_).answer _
    exact (setField_writes hq _ _).bind hq fun _ q' hq' => setField_writes hq' _ _
  | setCaptured value => exact (setField_writes hp _ value).answer _
  | setWire value => exact (setField_writes hp _ value).answer _

end RecordCall

namespace CaptureInfo

/-- The ranges that writing a record writes. -/
def written (p : Pane) : Ranges := [(p.cursor.writer, CaptureRecord.size)]

/-- **Writing a record writes nothing but the room for it.** -/
theorem write_writes (hp : p.Sound) (info : CaptureInfo) :
    p.Writes (written p) (info.write p).2 := by
  rcases hfields : info.timestamp.fields with e | ⟨seconds, micros⟩
  · rw [write_of_error hfields]
    exact hp.writes_refl
  · refine hp.writes_of_careful (P := fun _ p' => p.Writes (written p) p') ?_ fun _ _ h => h
    unfold write
    rw [hfields, Action.ofExcept_ok, pure_bind]
    -- behind the check of the room, all of it is written
    refine Action.Careful.of_check (Pane.checkWritable_observes hp CaptureRecord.size) fun h => ?_
    have happly := write_apply hp h.1 h.2 hfields
    unfold write at happly
    rw [hfields, Action.ofExcept_ok, pure_bind] at happly
    have hlen : (CaptureRecord.image p.order seconds micros info.captured info.wire).length =
        CaptureRecord.size := CaptureRecord.length_image p.order
    have hroom := h.2
    rw [← hlen] at hroom
    refine ⟨_, _, happly, .of_appended (hp.evolves_appended hroom) (Nat.le_of_eq hlen) ?_⟩
    rw [Pane.appended, hlen]

end CaptureInfo

/-! ## Checks of overlays -/

namespace Check

/-- The ranges that the calls of a check write, as far as it gets. -/
def written : Check → Pane → Ranges
  | accept, _ | refuse _, _ => []
  | call access next, p =>
    access.written p ++
      match access.run p with
      | (.done answer, p') => (next (.ok answer)).written p'
      | (.failed failure, p') => (next (.error failure)).written p'
      | (.trapped _, _) => []

/-- A check that only reads writes nothing. -/
theorem written_of_reads {check : Check} (h : check.Reads) (p : Pane) : check.written p = [] := by
  induction check generalizing p with
  | accept | refuse cause => rfl
  | call access next ih =>
    rw [written, Call.written_of_reads h.1]
    rcases access.run p with ⟨answer | failure | t, p'⟩
    · exact ih (.ok answer) (h.2 _) p'
    · exact ih (.error failure) (h.2 _) p'
    · rfl

/-- **A check writes nothing but what its calls write.** -/
theorem run_writes (check : Check) (hp : p.Sound) :
    p.Writes (check.written p) (check.run p).2 := by
  induction check generalizing p with
  | accept | refuse cause => exact hp.writes_refl
  | call access next ih =>
    have hcall := access.run_writes hp
    rw [written]
    rcases hrun : access.run p with ⟨answer | failure | t, q⟩ <;> rw [hrun] at hcall
    · rw [run_call_done hrun]
      exact hcall.trans (ih (.ok answer) (hp.of_evolves hcall.toEvolves))
    · rw [run_call_failed hrun]
      exact hcall.trans (ih (.error failure) (hp.of_evolves hcall.toEvolves))
    · rw [run_call_trapped hrun, List.append_nil]
      exact hcall

end Check

end PacketMemory
