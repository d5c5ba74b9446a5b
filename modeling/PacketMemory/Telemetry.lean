import PacketMemory.Leak.Settings
import PacketMemory.Leak.Basic

/-!
# Telemetry

What the library tells an observer, oldest first: events, and the values it measures. The
capacity of every allocation and of every leak found by a sweep is measured, and the length of
every copy of readable bytes that leaves packet memory.

A sweep finds leaks in no particular order, so where an order has to be shown
(`Event.settled`), a run of leaks is listed by capacity.
-/

namespace PacketMemory

/-- Something that happened. -/
inductive Event where
  /-- a sweep found a leak -/
  | leak (found : Leak)
  /-- an owner changed its capacity -/
  | reallocated (old new : Nat)
  /-- a detector was configured -/
  | configured (settings : LeakSettings)
  deriving DecidableEq, Repr

/-- The name under which an event is published. -/
def Event.name : Event → String
  | leak _ => "pktbuf.leak"
  | reallocated _ _ => "pktbuf.reallocated"
  | configured _ => "pktbuf.leak_detection.configured"

/-- Events and measurements. -/
structure Telemetry where
  /-- everything that happened -/
  events : List Event
  /-- the capacity of each allocation -/
  allocated : List Nat
  /-- the capacity of each leak that a sweep found -/
  leaked : List Nat
  /-- the length of each copy that left packet memory -/
  exported : List Nat
  deriving DecidableEq, Repr

namespace Telemetry

/-- Nothing happened yet. -/
def start : Telemetry := ⟨[], [], [], []⟩

/-- Publish an event. -/
def publish (t : Telemetry) (e : Event) : Telemetry :=
  { t with events := t.events ++ [e] }

/-- Measure an allocation. -/
def observeAllocation (t : Telemetry) (capacity : Nat) : Telemetry :=
  { t with allocated := t.allocated ++ [capacity] }

/-- Measure a copy that leaves packet memory. -/
def observeExport (t : Telemetry) (length : Nat) : Telemetry :=
  { t with exported := t.exported ++ [length] }

/-- Measure and publish the leaks that a sweep found. -/
def announce (t : Telemetry) (found : List Leak) : Telemetry :=
  { t with
    events := t.events ++ found.map Event.leak
    leaked := t.leaked ++ found.map Leak.capacity }

end Telemetry

/-! ## Histograms -/

/-- The upper bounds of the classes into which capacities are counted. -/
def capacityClasses : List Nat := [64, 128, 256, 512, 1024, 1514, 4096, 9000, 16384, 65536]

/-- How many values fall into each class: up to each of the ascending bounds but above the one
before, and last above all of them. -/
def histogram : List Nat → List Nat → List Nat
  | [], values => [values.length]
  | most :: bounds, values =>
    (values.filter fun v => decide (v ≤ most)).length ::
      histogram bounds (values.filter fun v => decide (most < v))

/-! ## Listing -/

/-- Put a leak into the run of leaks that the events start with, before the first one that is
not smaller. -/
def Event.insertLeak (found : Leak) : List Event → List Event
  | .leak other :: rest =>
    if found.capacity ≤ other.capacity then .leak found :: .leak other :: rest
    else .leak other :: insertLeak found rest
  | events => .leak found :: events

/-- Events with every run of leaks in the order of their capacities. -/
def Event.settled : List Event → List Event
  | [] => []
  | .leak found :: rest => Event.insertLeak found (Event.settled rest)
  | e :: rest => e :: Event.settled rest

/-- Leaks in the order of their capacities. -/
def Leak.byCapacity (leaks : List Leak) : List Leak :=
  leaks.mergeSort fun a b => decide (a.capacity ≤ b.capacity)

end PacketMemory
