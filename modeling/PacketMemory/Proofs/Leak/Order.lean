import Mathlib.Data.List.Sort
import PacketMemory.Proofs.World.Run

/-!
# The order of leaks is not shown

The table of a detector stands for one without any order, and a sweep may find its leaks in another order
than they are found here. Where leaks are listed they are in the order of their capacities, so that a list
does not tell one order from another:

* `Leak.byCapacity` lists what a sweep answers (`Leak.capacities_eq_of_perm`).
* `Event.settled` lists events, with every run of leaks in order. Runs that hold the same leaks in other
  orders (`Event.Reordered`) make the same list (`Event.settled_eq_of_reordered`).

What is left open is which of two leaks of one capacity comes first (`Event.outline`).

Main statement: `World.sweep_lists_no_order`.
-/

namespace PacketMemory

/-! ## Answers -/

namespace Leak

/-- A list by capacity has the same leaks. -/
theorem byCapacity_perm (leaks : List Leak) : (byCapacity leaks).Perm leaks :=
  List.mergeSort_perm _ _

/-- A list by capacity is in order. -/
theorem byCapacity_pairwise (leaks : List Leak) :
    ((byCapacity leaks).map capacity).Pairwise (· ≤ ·) := by
  have hsorted : (byCapacity leaks).Pairwise fun a b => decide (a.capacity ≤ b.capacity) = true := by
    refine List.pairwise_mergeSort (fun a b c hab hbc => ?_) (fun a b => ?_) leaks
    · exact decide_eq_true (Nat.le_trans (of_decide_eq_true hab) (of_decide_eq_true hbc))
    · simp only [Bool.or_eq_true, decide_eq_true_eq]
      exact Nat.le_total _ _
  exact List.pairwise_map.2 (hsorted.imp of_decide_eq_true)

/-- **The same leaks make the same list**, in whatever order they were found. -/
theorem capacities_eq_of_perm {leaks leaks' : List Leak} (h : leaks.Perm leaks') :
    (byCapacity leaks).map capacity = (byCapacity leaks').map capacity := by
  have hperm : (byCapacity leaks).Perm (byCapacity leaks') :=
    ((byCapacity_perm leaks).trans h).trans (byCapacity_perm leaks').symm
  exact (hperm.map capacity).eq_of_pairwise' (byCapacity_pairwise _) (byCapacity_pairwise _)

end Leak

/-! ## Events -/

namespace Event

/-- What is said of an event where leaks of one capacity are not told apart. -/
def outline : Event → Event
  | leak found => leak ⟨0, found.capacity, false⟩
  | e => e

/-- The same events, but for the order of leaks that nothing else happened between. -/
inductive Reordered : List Event → List Event → Prop
  | refl (events : List Event) : Reordered events events
  | swap (before behind : List Event) (a b : Leak) :
    Reordered (before ++ leak a :: leak b :: behind) (before ++ leak b :: leak a :: behind)
  | trans {events events' events'' : List Event} :
    Reordered events events' → Reordered events' events'' → Reordered events events''

variable {events events' behind : List Event} {a b : Leak}

theorem Reordered.append (h : Reordered events events') (behind : List Event) :
    Reordered (events ++ behind) (events' ++ behind) := by
  induction h with
  | refl => exact .refl _
  | swap before rest a b =>
    simp only [List.append_assoc, List.cons_append]
    exact .swap before (rest ++ behind) a b
  | trans _ _ ih ih' => exact ih.trans ih'

theorem Reordered.cons (e : Event) (h : Reordered events events') :
    Reordered (e :: events) (e :: events') := by
  induction h with
  | refl => exact .refl _
  | swap before behind a b => exact .swap (e :: before) behind a b
  | trans _ _ ih ih' => exact ih.trans ih'

theorem Reordered.append_left (before : List Event) (h : Reordered events events') :
    Reordered (before ++ events) (before ++ events') := by
  induction before with
  | nil => exact h
  | cons e before ih => exact ih.cons e

/-- Leaks that are announced together may be announced in any order. -/
theorem reordered_of_perm {leaks leaks' : List Leak} (h : leaks.Perm leaks') :
    Reordered (leaks.map leak) (leaks'.map leak) := by
  induction h with
  | nil => exact .refl _
  | cons a _ ih => exact ih.cons (leak a)
  | swap a b rest => exact .swap [] (rest.map leak) b a
  | trans _ _ ih ih' => exact ih.trans ih'

/-- Where a leak goes depends on capacities only. -/
theorem map_insertLeak (a : Leak) (events : List Event) :
    (insertLeak a events).map outline =
      insertLeak ⟨0, a.capacity, false⟩ (events.map outline) := by
  induction events with
  | nil => rfl
  | cons e rest ih =>
    cases e with
    | leak other =>
      simp only [insertLeak, List.map_cons, outline]
      split
      · rfl
      · rw [List.map_cons, ih]
        rfl
    | reallocated old new => rfl
    | configured settings => rfl

theorem insertLeak_of_le (h : a.capacity ≤ b.capacity) (rest : List Event) :
    insertLeak a (leak b :: rest) = leak a :: leak b :: rest := by
  rw [insertLeak, if_pos h]

theorem insertLeak_of_lt (h : b.capacity < a.capacity) (rest : List Event) :
    insertLeak a (leak b :: rest) = leak b :: insertLeak a rest := by
  rw [insertLeak, if_neg (Nat.not_le.2 h)]

/-- The smaller of two leaks goes in front of the other one, whichever of them comes first. -/
theorem insertLeak_comm_of_lt (h : a.capacity < b.capacity) (events : List Event) :
    insertLeak a (insertLeak b events) = insertLeak b (insertLeak a events) := by
  -- if both go in front, so does the smaller one of the other
  have hfront : ∀ events, insertLeak a events = leak a :: events →
      insertLeak b events = leak b :: events →
      insertLeak a (insertLeak b events) = insertLeak b (insertLeak a events) := by
    intro events ha hb
    rw [hb, insertLeak_of_le (Nat.le_of_lt h), ha, insertLeak_of_lt h, hb]
  induction events with
  | nil => exact hfront _ rfl rfl
  | cons e rest ih =>
    cases e with
    | leak c =>
      rcases Nat.lt_or_ge c.capacity a.capacity with hca | hac
      · have hcb := Nat.lt_trans hca h
        rw [insertLeak_of_lt hcb, insertLeak_of_lt hca, insertLeak_of_lt hca, insertLeak_of_lt hcb, ih]
      · rw [insertLeak_of_le hac, insertLeak_of_lt h]
        rcases Nat.lt_or_ge c.capacity b.capacity with hcb | hbc
        · rw [insertLeak_of_lt hcb, insertLeak_of_le hac]
        · rw [insertLeak_of_le hbc, insertLeak_of_le (Nat.le_of_lt h)]
    | reallocated old new => exact hfront _ rfl rfl
    | configured settings => exact hfront _ rfl rfl

/-- **The order of insertion has no influence** on two leaks, unless they have one capacity and differ
otherwise. -/
theorem insertLeak_comm (h : a.capacity = b.capacity → a = b) (events : List Event) :
    insertLeak a (insertLeak b events) = insertLeak b (insertLeak a events) := by
  rcases Nat.lt_trichotomy a.capacity b.capacity with hlt | heq | hlt
  · exact insertLeak_comm_of_lt hlt events
  · rw [h heq]
  · exact (insertLeak_comm_of_lt hlt events).symm

/-- A list of events has the same events. -/
theorem settled_perm (events : List Event) : (settled events).Perm events := by
  have hinsert : ∀ a events, (insertLeak a events).Perm (leak a :: events) := by
    intro a events
    induction events with
    | nil => exact .refl _
    | cons e rest ih =>
      cases e with
      | leak c =>
        rw [insertLeak]
        split
        · exact .refl _
        · exact (ih.cons (leak c)).trans (.swap (leak a) (leak c) rest)
      | reallocated old new => exact .refl _
      | configured settings => exact .refl _
  induction events with
  | nil => exact .refl _
  | cons e rest ih =>
    cases e with
    | leak a => exact (hinsert a _).trans (ih.cons (leak a))
    | reallocated old new => exact ih.cons _
    | configured settings => exact ih.cons _

/-- Where leaks of one capacity are not told apart, neither are they when they are listed. -/
theorem map_settled (events : List Event) :
    (settled events).map outline = settled (events.map outline) := by
  induction events with
  | nil => rfl
  | cons e rest ih =>
    cases e with
    | leak a => rw [settled, map_insertLeak, ih]; rfl
    | reallocated old new => exact congrArg (List.cons _) ih
    | configured settings => exact congrArg (List.cons _) ih

/-- What is in front of events is listed with them, or in front of their list. -/
theorem settled_append (before : List Event) (h : settled events = settled events') :
    settled (before ++ events) = settled (before ++ events') := by
  induction before with
  | nil => exact h
  | cons e before ih =>
    cases e with
    | leak a => exact congrArg (insertLeak a) ih
    | reallocated old new => exact congrArg (List.cons _) ih
    | configured settings => exact congrArg (List.cons _) ih

/-- **The same events make the same list**, in whatever order the leaks of each run were found. -/
theorem settled_eq_of_reordered (h : Reordered events events') :
    (settled events).map outline = (settled events').map outline := by
  induction h with
  | refl => rfl
  | swap before behind a b =>
    rw [map_settled, map_settled, List.map_append, List.map_append]
    refine settled_append _ (insertLeak_comm (fun hcapacity => ?_) _)
    exact congrArg (fun n => Leak.mk 0 n false) hcapacity
  | trans _ _ ih ih' => exact ih.trans ih'

end Event

/-! ## Sweeps -/

/-- A sweep finds the leaks in the order of the records. -/
theorem Detector.leaks_perm {d d' : Detector} (h : d.records.Perm d'.records) :
    d.leaks.Perm d'.leaks := (h.filter _).map _

namespace World

variable {w w' : World} {d : Nat} {detector detector' : Detector}

/-- **The order of records is not shown.** Let two detectors have the same records in different orders,
and let the observers have been told the same, but for the order of leaks. Then sweeps answer leaks that
are listed alike, and so are the events afterwards. -/
theorem sweep_lists_no_order (hd : w.detectors[d]? = some detector)
    (hd' : w'.detectors[d]? = some detector')
    (hrecords : detector.records.Perm detector'.records)
    (hevents : Event.Reordered w.telemetry.events w'.telemetry.events) :
    ∃ found found', ((Operation.sweep d).run w).1 = .done (.leaks found) ∧
      ((Operation.sweep d).run w').1 = .done (.leaks found') ∧
      (Leak.byCapacity found).map Leak.capacity = (Leak.byCapacity found').map Leak.capacity ∧
      let v := ((Operation.sweep d).run w).2
      let v' := ((Operation.sweep d).run w').2
      (Event.settled v.telemetry.events).map Event.outline =
        (Event.settled v'.telemetry.events).map Event.outline := by
  have hleaks := Detector.leaks_perm hrecords
  refine ⟨detector.leaks, detector'.leaks, ?_, ?_, Leak.capacities_eq_of_perm hleaks, ?_⟩
  · rw [Operation.run_sweep_of_some hd]
  · rw [Operation.run_sweep_of_some hd']
  · rw [Operation.run_sweep_of_some hd, Operation.run_sweep_of_some hd', swept_of_some hd,
      swept_of_some hd']
    refine Event.settled_eq_of_reordered ?_
    exact (hevents.append _).trans ((Event.reordered_of_perm hleaks).append_left _)

end World

end PacketMemory
