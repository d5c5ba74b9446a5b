import PacketMemory.World.Owner

/-!
# Watching: sweeps, checks and settings of detectors

The leaks that a sweep finds are announced and forgotten. A check sweeps and adds what periodic
sweeps left pending; in strict mode it fails with the first leak, and the others are forgotten
too.
-/

namespace PacketMemory

namespace World

/-- The number of allocations that a detector still has a record of. -/
def outstanding (d : Nat) : Task Nat := do
  let detector ← detectorAt d
  pure detector.outstanding

/-- Report and forget the leaks. -/
def sweep (d : Nat) : Task (List Leak) := do
  let detector ← detectorAt d
  setDetector d detector.swept
  tell fun t => t.announce detector.leaks
  pure detector.leaks

/-- Count the leaks that are due, or fail with the first one in strict mode. -/
def check (d : Nat) : Task Nat := do
  let detector ← detectorAt d
  setDetector d detector.settled
  tell fun t => t.announce detector.leaks
  match detector.complaint with
  | some leak => Action.fail (.memoryLeak leak)
  | none => pure detector.due.length

/-- The settings of a detector. -/
def settings (d : Nat) : Task LeakSettings := do
  let detector ← detectorAt d
  pure detector.settings

/-- Change the settings of a detector. What is tracked stays tracked. -/
def configure (d : Nat) (settings : LeakSettings) : Task Unit := do
  let detector ← detectorAt d
  setDetector d { detector with settings := settings }
  tell fun t => t.publish (.configured settings)

end World

end PacketMemory
