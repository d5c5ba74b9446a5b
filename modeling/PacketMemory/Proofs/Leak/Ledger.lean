import PacketMemory.Proofs.World.Run

/-!
# A ledger of allocations

What an onlooker can note about the allocations of one detector who sees the deeds, but neither
the records of the detector nor what it tells the observer. The ledger has a page for every
allocation, in order.

* An allocation is tracked if detection is on at that moment.
* Every 256th tracked allocation sweeps, and so do sweeps and checks on request.
* A page has a report (`Page.report?`) if its allocation was tracked, its owner went away without
  any release, and a sweep ran afterwards.

`Ledger.after` is the ledger of a history.
-/

namespace PacketMemory

/-- What is noted about one allocation. -/
structure Page where
  /-- the settings at the time of the allocation -/
  settings : LeakSettings
  /-- how many tracked allocations came before -/
  number : Nat
  /-- the capacity after the last resize -/
  capacity : Nat
  /-- whether the owner returned the memory -/
  returned : Bool
  /-- whether the memory was released, by the owner or by a duplicate -/
  released : Bool
  /-- whether the owner went away -/
  dropped : Bool
  /-- whether a sweep ran after the owner went away -/
  swept : Bool
  deriving DecidableEq, Repr

namespace Page

/-- The page of a new allocation. -/
def new (settings : LeakSettings) (number capacity : Nat) : Page :=
  ⟨settings, number, capacity, false, false, false, false⟩

/-- Whether the allocation is tracked. -/
def tracked (p : Page) : Bool := p.settings.enabled

/-- Whether the allocation is a leak that a sweep has found. -/
def leaked (p : Page) : Bool := p.tracked && p.dropped && !p.released && p.swept

/-- The leak that the allocation amounts to. -/
def leak (p : Page) : Leak := ⟨p.number, p.capacity, p.settings.sites⟩

/-- The report about the allocation, if there has to be one. -/
def report? (p : Page) : Option Leak := if p.leaked then some p.leak else none

/-- A sweep runs. -/
def sweep (p : Page) : Page := { p with swept := p.swept || p.dropped }

end Page

/-- Pages for all allocations, oldest first, and the settings in force. -/
structure Ledger where
  settings : LeakSettings
  pages : List Page
  deriving DecidableEq, Repr

namespace Ledger

/-- Nothing was allocated yet. -/
def start (settings : LeakSettings) : Ledger := ⟨settings, []⟩

/-- The number of tracked allocations. -/
def tracked (l : Ledger) : Nat := (l.pages.filter Page.tracked).length

/-- Whether the next tracked allocation sweeps. -/
def sweepDue (l : Ledger) : Bool := decide ((l.tracked + 1) % 256 = 0)

/-- The reports there have to be. -/
def reports (l : Ledger) : List Leak := l.pages.filterMap Page.report?

/-- A sweep runs. -/
def sweep (l : Ledger) : Ledger := { l with pages := l.pages.map Page.sweep }

/-- Something happens to one allocation. -/
def amend (l : Ledger) (i : Nat) (f : Page → Page) : Ledger :=
  { l with pages := l.pages.modify i f }

/-- The ledger when the detector gets to know of a new allocation. -/
def beforeAllocation (l : Ledger) : Ledger :=
  if l.settings.enabled && l.sweepDue then l.sweep else l

/-- Note an allocation. -/
def allocate (l : Ledger) (capacity : Nat) : Ledger :=
  { l.beforeAllocation with
    pages := l.beforeAllocation.pages ++ [Page.new l.settings l.tracked capacity] }

/-- Note a deed. -/
def note (l : Ledger) : Deed → Ledger
  | .allocate _ capacity => l.allocate capacity
  | .resize i capacity => l.amend i fun p => { p with capacity := capacity }
  | .release i => l.amend i fun p => { p with returned := true, released := true }
  | .releaseShared i => l.amend i fun p => { p with released := true }
  | .drop i => l.amend i fun p => { p with dropped := true, swept := false }
  | .sweep _ | .settle _ => l.sweep
  | .configure _ settings => { l with settings := settings }

/-- The ledger after a history that starts in `w`. -/
def after (l : Ledger) (w : World) : List Operation → Ledger
  | [] => l
  | op :: rest => ((op.enacted w).foldl note l).after (op.run w).2 rest

end Ledger

/-! ## Reports on the way -/

/-- The leak that an event tells of. -/
def Event.leak? : Event → Option Leak
  | .leak found => some found
  | _ => none

/-- The leaks that the observer was told of. -/
def Telemetry.leaks (t : Telemetry) : List Leak := t.events.filterMap Event.leak?

/-- The leaks that the sweeps of a deed find. -/
def Deed.reports (w : World) : Deed → List Leak
  | allocate d capacity =>
    match w.detectors[d]? with
    | none => []
    | some detector => (detector.track capacity).found
  | sweep d | settle d =>
    match w.detectors[d]? with
    | none => []
    | some detector => detector.leaks
  | _ => []

/-- The leaks that the sweeps of several deeds find, one deed after the other. -/
def World.reportsOf (w : World) : List Deed → List Leak
  | [] => []
  | d :: rest => d.reports w ++ World.reportsOf (d.enact w) rest

/-- The leaks that the sweeps of a history find. -/
def World.reports (w : World) : List Operation → List Leak
  | [] => []
  | op :: rest => w.reportsOf (op.enacted w) ++ World.reports (op.run w).2 rest

end PacketMemory
