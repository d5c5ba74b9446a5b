import PacketMemory.Leak.Settings
import PacketMemory.Leak.Basic

/-!
# Leak detection

A detector keeps a record of every tracked allocation. A record is *held* as long as its owner
exists; releasing the owner removes the record, and an owner that goes away without being
released leaves it behind. A sweep finds the records that nobody holds, reports them and
forgets them.

Sweeps run on request, and every 256th tracked allocation runs one before its own record is
entered. In strict mode the leaks of such a periodic sweep stay pending for the next check.

The records stand for a table that has no order of its own, and are kept in the order of the allocations
so that a detector is a value. What is proved of detectors does not depend on this order: it describes
what a sweep finds as a collection, and does not say which leak of a sweep a strict check fails with.
-/

namespace PacketMemory

/-- A tracked allocation. -/
structure Tracked where
  /-- its number -/
  allocation : Nat
  /-- its capacity after the last resize -/
  capacity : Nat
  /-- whether its place was captured -/
  site : Bool
  /-- whether its owner still exists -/
  held : Bool
  deriving DecidableEq, Repr

/-- The leak that a record stands for when nobody holds it. -/
def Tracked.leak (t : Tracked) : Leak := ⟨t.allocation, t.capacity, t.site⟩

/-- The records of tracked allocations and what is due. -/
structure Detector where
  /-- the settings -/
  settings : LeakSettings
  /-- the number of the next tracked allocation -/
  next : Nat
  /-- the tracked allocations since the last periodic sweep -/
  sinceSweep : Nat
  /-- the allocations that were neither released nor reported, oldest first; no result depends on
  the order -/
  records : List Tracked
  /-- leaks of periodic sweeps that the next check has to surface -/
  pending : List Leak
  deriving DecidableEq, Repr

namespace Detector

/-- Every so many tracked allocations, a sweep runs. -/
def sweepInterval : Nat := 256

/-- A detector that has seen nothing. -/
def start (settings : LeakSettings) : Detector := ⟨settings, 0, 0, [], []⟩

/-- The number of records. -/
def outstanding (d : Detector) : Nat := d.records.length

/-- The leaks that a sweep would find. -/
def leaks (d : Detector) : List Leak :=
  (d.records.filter fun t => !t.held).map Tracked.leak

/-- Forget the records that nobody holds. -/
def swept (d : Detector) : Detector :=
  { d with records := d.records.filter fun t => t.held }

/-- Sweep if the next tracked allocation is due for it; the first component is what the sweep
found. -/
def beforeTracking (d : Detector) : List Leak × Detector :=
  if sweepInterval ≤ d.sinceSweep + 1 then
    let found := d.leaks
    let kept := if d.settings.mode = .strict then found else []
    (found, { d.swept with sinceSweep := 0, pending := d.pending ++ kept })
  else
    ([], { d with sinceSweep := d.sinceSweep + 1 })

/-- Enter a new allocation. -/
def enter (d : Detector) (capacity : Nat) : Detector :=
  { d with
    next := d.next + 1
    records := d.records ++ [⟨d.next, capacity, d.settings.sites, true⟩] }

/-- What tracking an allocation comes to. -/
structure Tracking where
  /-- the number of the allocation, unless detection is off -/
  number : Option Nat
  /-- the leaks that a periodic sweep found on the way -/
  found : List Leak
  /-- the detector afterwards -/
  detector : Detector
  deriving DecidableEq, Repr

/-- Track a new allocation, unless detection is off. -/
def track (d : Detector) (capacity : Nat) : Tracking :=
  if d.settings.enabled then
    let (found, d') := d.beforeTracking
    ⟨some d'.next, found, d'.enter capacity⟩
  else
    ⟨none, [], d⟩

/-- Change the record of an allocation, if there is one. -/
def amend (d : Detector) (allocation : Nat) (f : Tracked → Tracked) : Detector :=
  { d with records := d.records.map fun t => if t.allocation = allocation then f t else t }

/-- The owner of an allocation has another capacity. -/
def resize (d : Detector) (allocation capacity : Nat) : Detector :=
  d.amend allocation fun t => { t with capacity := capacity }

/-- The owner of an allocation went away without releasing it. -/
def abandon (d : Detector) (allocation : Nat) : Detector :=
  d.amend allocation fun t => { t with held := false }

/-- An allocation was released. -/
def forget (d : Detector) (allocation : Nat) : Detector :=
  { d with records := d.records.filter fun t => decide (t.allocation ≠ allocation) }

/-- The leaks that a check surfaces: those of earlier periodic sweeps come first. -/
def due (d : Detector) : List Leak := d.pending ++ d.leaks

/-- Nothing is due any more. -/
def settled (d : Detector) : Detector := { d.swept with pending := [] }

/-- The leak that a check fails with, if it fails: in strict mode the first one. That it is the oldest
of the leaks of one sweep is due to the order in which records are kept; results only say that it is one
of them. -/
def complaint (d : Detector) : Option Leak :=
  match d.settings.mode with
  | .strict => d.due.head?
  | .log => none

end Detector

end PacketMemory
