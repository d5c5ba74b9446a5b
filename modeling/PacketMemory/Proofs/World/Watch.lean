import PacketMemory.Proofs.World.Deed
import PacketMemory.World.Watch

/-!
# Watching: what sweeps, checks and settings come to

A sweep and a configuration only need their detector to exist. A check that fails in strict mode
has swept like one that succeeds (`check_of_some`), so it is not careful, but nothing besides the
detector and the telemetry takes part in it.
-/

namespace PacketMemory

namespace World

variable {w : World} {d : Nat} {detector : Detector}

theorem lt_of_detector (hd : w.detectors[d]? = some detector) : d < w.detectors.length :=
  (List.getElem?_eq_some_iff.1 hd).1

theorem detectorAt_of_some (hd : w.detectors[d]? = some detector) :
    detectorAt d w = (.done detector, w) := by
  unfold detectorAt
  rw [Action.state_bind_apply, hd, Action.expect_some, Action.pure_apply]

/-- A sweep of a detector that exists announces what it finds, in the order in which it finds it. -/
theorem swept_of_some (hd : w.detectors[d]? = some detector) (after : Detector → Detector) :
    w.swept d after =
      { w with
        detectors := w.detectors.set d (after detector)
        telemetry := w.telemetry.announce detector.leaks } :=
  onDetector_of_some hd _

/-- A sweep changes nothing but its detector and what the observers know. -/
theorem sweep_careful (d : Nat) :
    Action.Careful Trap.isMisuse (sweep d) w fun found w' =>
      ∃ detector, w.detectors[d]? = some detector ∧ found = detector.leaks ∧
        w' = w.swept d Detector.swept := by
  refine (detectorAt_observes d).bind fun detector hd => Action.Succeeds.careful ?_
  refine Action.Succeeds.after (Action.update_apply _ _) ?_
  refine Action.Succeeds.after (Action.update_apply _ _) ?_
  exact Action.Succeeds.pure ⟨detector, hd, rfl, (swept_of_some hd _).symm⟩

/-- A sweep answers what it finds. -/
theorem sweep_of_some (hd : w.detectors[d]? = some detector) :
    sweep d w = (.done detector.leaks, w.swept d Detector.swept) := by
  rw [swept_of_some hd]
  exact Action.bind_done (detectorAt_of_some hd)

/-- However a check comes out, it has settled what was due. -/
theorem check_of_some (hd : w.detectors[d]? = some detector) :
    check d w =
      (match detector.complaint with
        | some leak => .failed (.memoryLeak leak)
        | none => .done detector.due.length, w.swept d Detector.settled) := by
  rw [swept_of_some hd]
  unfold check
  rw [Action.bind_done (detectorAt_of_some hd)]
  simp only [setDetector, tell, Action.update_bind_apply]
  cases detector.complaint <;> rfl

theorem check_of_none (hd : w.detectors[d]? = none) : check d w = (.trapped .misuse, w) := by
  unfold check detectorAt
  rw [bind_assoc, Action.state_bind_apply, hd]
  rfl

/-- New settings are a matter of the detector alone. -/
theorem configure_careful (d : Nat) (settings : LeakSettings) :
    Action.Careful Trap.isMisuse (configure d settings) w fun _ w' =>
      d < w.detectors.length ∧ w' = w.configured d settings := by
  refine (detectorAt_observes d).bind fun detector hd => Action.Succeeds.careful ?_
  refine Action.Succeeds.after (Action.update_apply _ _) ?_
  refine Action.Succeeds.update ⟨lt_of_detector hd, ?_⟩
  rw [configured, onDetector_of_some hd]

end World

end PacketMemory
