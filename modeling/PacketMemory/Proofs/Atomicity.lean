import PacketMemory.Proofs.World.Run

/-!
# All or nothing

An operation that fails leaves the world as it was, however many steps it consists of. Three
kinds of operations are left out of this by what they are for: a check in strict mode settles the
leaks that it complains about, closing a slice gives the slice up, and a cast may leave bytes
behind if the overlay writes some before it refuses. `Reachable.unchanged_of_failed` says what is
left of the first two.
-/

namespace PacketMemory

/-- Only strict checks complain. -/
theorem Detector.strict_of_complaint {d : Detector} {leak : Leak} (h : d.complaint = some leak) :
    d.settings.mode = .strict := by
  unfold complaint at h
  cases hm : d.settings.mode with
  | log =>
    rw [hm] at h
    cases h
  | strict => rfl

namespace World

variable {w : World}

/-- **A failed operation changes nothing**: no byte, no index, no handle, no record of a detector
and nothing that was told to the observer. The exceptions are a strict check, which settles its
detector and announces the leaks, and the closing of a slice, which gives up the slice. -/
theorem Reachable.unchanged_of_failed (hw : w.Reachable) {op : Operation} {e : Failure}
    (hf : (op.run w).1 = .failed e)
    (hreads : ∀ h o, op = .lay h o ∨ op = .probe h o → o.check.Reads) :
    (op.run w).2 = w ∨
    (∃ d detector, op = .check d ∧ w.detectors[d]? = some detector ∧
      detector.settings.mode = .strict ∧
      (op.run w).2 = { w with
        detectors := w.detectors.set d detector.settled
        telemetry := w.telemetry.announce detector.leaks }) ∨
    ∃ i v, op = .close (.view i) ∧ w.view? i = some v ∧ v.kind = .slice ∧
      (op.run w).2 = w.setView i none := by
  -- what is not abrupt is careful, so the abrupt operations remain
  by_cases hop : op.Abrupt w
  · cases op with
    | check d =>
      rcases hd : w.detectors[d]? with _ | detector
      · rw [Operation.run_check_of_none hd] at hf
        cases hf
      · rw [Operation.run_check_of_some hd] at hf ⊢
        rcases hc : detector.complaint with _ | leak <;> rw [hc] at hf
        · cases hf
        · exact .inr (.inl ⟨d, detector, rfl, hd, detector.strict_of_complaint hc,
            swept_of_some hd _⟩)
    | close h =>
      cases h with
      | view i =>
        obtain ⟨v, hv, hk⟩ := hop
        rw [Operation.run_close_slice hv hk]
        exact .inr (.inr ⟨i, v, rfl, hv, hk, rfl⟩)
      | owner i | record i => exact hop.elim
    | lay h o => exact absurd (hreads h o (.inl rfl)) hop
    | probe h o => exact absurd (hreads h o (.inr rfl)) hop
    | _ => exact hop.elim
  · refine .inl ((op.run_careful hw.sound hop).of_failed (e := e) ?_)
    rw [← hf]

/-- A transfer that the target has no room for, found out after the source was checked. -/
theorem unchanged_of_failed_transfer :
    let w := (start [.standard]).after [.allocateCopy 0 [1, 2, 3, 4], .allocate 0 2]
    ((Operation.transfer (.owner 0) (.owner 1) 3).run w).1 =
        .failed (.outOfBounds (.unwritable 0 3 2)) ∧
      ((Operation.transfer (.owner 0) (.owner 1) 3).run w).2 = w := by
  intro w
  have hw : w.Reachable := ⟨_, _, rfl⟩
  have hf : ((Operation.transfer (.owner 0) (.owner 1) 3).run w).1 =
      .failed (.outOfBounds (.unwritable 0 3 2)) := by decide
  refine ⟨hf, ?_⟩
  have hcases := hw.unchanged_of_failed hf fun _ _ h => by rcases h with h | h <;> cases h
  rcases hcases with h | ⟨d, _, h, -⟩ | ⟨i, _, h, -⟩
  · exact h
  · cases h
  · cases h

end World

end PacketMemory
