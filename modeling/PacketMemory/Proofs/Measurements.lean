import Mathlib.Algebra.BigOperators.Group.List.Basic
import Mathlib.Algebra.GroupWithZero.Nat
import Mathlib.Algebra.Ring.Int.Defs
import PacketMemory.Proofs.Leak.Describes

/-!
# Measurements account for all memory

The observer can tell from what it was told how much memory the owners have: what was measured at the
allocations, and how much capacities changed since by the events that were published. `Telemetry.Accounts`
says so of telemetry and a list of capacities. Every deed changes both together
(`World.Measured.enact`), and so does every history, with any number of owners and detectors.

How many owners there are follows from which operations succeeded (`World.creations`).

Main statement: `World.memory_measured`.
-/

namespace PacketMemory

/-- How much the capacity of an owner grew. -/
def Event.growth : Event → Int
  | reallocated old new => new - old
  | _ => 0

/-- How much the capacities of all owners grew since their allocations. -/
def Telemetry.growth (t : Telemetry) : Int := (t.events.map Event.growth).sum

/-- What is measured at a deed. -/
def Deed.measured : Deed → List Nat
  | allocate _ capacity => [capacity]
  | _ => []

/-- The number of bytes that can be read through a handle. -/
def World.unread? (w : World) (h : Handle) : Option Nat :=
  (w.pane? h).map fun p => p.cursor.writer - p.cursor.reader

/-- The capacity of the owner that an operation makes if it succeeds. -/
def Operation.asked (w : World) : Operation → Option Nat
  | allocate _ capacity => some capacity
  | allocateCopy _ bytes => some bytes.length
  | copy _ _ length => some length
  | copyUnread h => w.unread? h
  | keep i _ => w.unread? (.owner i)
  | _ => none

/-- The capacity of the owner that an operation makes, if it does. -/
def Operation.creation (w : World) (op : Operation) : List Nat :=
  match (op.run w).1 with
  | .done _ => (op.asked w).toList
  | _ => []

/-- The capacities that the owners of a history had when they were made. -/
def World.creations (w : World) : List Operation → List Nat
  | [] => []
  | op :: rest => op.creation w ++ World.creations (op.run w).2 rest

/-- Every value is counted in one class. -/
theorem sum_histogram (bounds values : List Nat) :
    (histogram bounds values).sum = values.length := by
  induction bounds generalizing values with
  | nil => exact List.sum_singleton
  | cons most rest ih =>
    have habove : (fun v => decide (most < v)) = fun v => !decide (v ≤ most) := by
      funext v
      rw [← decide_not]
      exact decide_eq_decide.2 Nat.not_le.symm
    rw [histogram, List.sum_cons, ih, habove]
    exact (List.length_eq_length_filter_add fun v => decide (v ≤ most)).symm

/-! ## What is told of capacities -/

namespace Telemetry

/-- What the observer was told comes to these capacities, and each leak was measured when it was
published. -/
structure Accounts (t : Telemetry) (capacities : List Nat) : Prop where
  count : t.allocated.length = capacities.length
  total : (t.allocated.sum : Int) + t.growth = capacities.sum
  leaks : t.leaked = t.leaks.map Leak.capacity

theorem growth_publish (t : Telemetry) (e : Event) :
    (t.publish e).growth = t.growth + e.growth := by
  simp only [growth, publish, List.map_append, List.map_cons, List.map_nil, List.sum_append,
    List.sum_singleton]

/-- Leaks change no capacity. -/
theorem growth_announce (t : Telemetry) (found : List Leak) :
    (t.announce found).growth = t.growth := by
  have hnone : ((found.map Event.leak).map Event.growth).sum = 0 := by
    refine List.sum_eq_zero fun x hx => ?_
    rw [List.map_map] at hx
    obtain ⟨leak, -, rfl⟩ := List.mem_map.1 hx
    rfl
  simp only [growth, announce, List.map_append, List.sum_append, hnone, Int.add_zero]

/-- One of the capacities is replaced. -/
theorem sum_set {capacities : List Nat} {i old : Nat} (h : capacities[i]? = some old) (new : Nat) :
    (capacities.set i new).sum + old = capacities.sum + new := by
  obtain ⟨hlt, rfl⟩ := List.getElem?_eq_some_iff.1 h
  have hsplit : capacities.sum =
      (capacities.take i).sum + (capacities[i] + (capacities.drop (i + 1)).sum) := by
    conv_lhs => rw [← List.take_append_drop i capacities, List.drop_eq_getElem_cons hlt]
    rw [List.sum_append, List.sum_cons]
  rw [List.sum_set, if_pos hlt, hsplit]
  omega

variable {t : Telemetry} {capacities : List Nat}

namespace Accounts

theorem start : Telemetry.start.Accounts [] := ⟨rfl, rfl, rfl⟩

theorem observeAllocation (h : t.Accounts capacities) (capacity : Nat) :
    (t.observeAllocation capacity).Accounts (capacities ++ [capacity]) := by
  refine ⟨?_, ?_, h.leaks⟩
  · simp only [Telemetry.observeAllocation, List.length_append, h.count, List.length_singleton]
  · have htotal := h.total
    show ((t.allocated ++ [capacity]).sum : Int) + t.growth = _
    rw [List.sum_append, List.sum_append, List.sum_singleton]
    omega

theorem announce (h : t.Accounts capacities) (found : List Leak) :
    (t.announce found).Accounts capacities := by
  refine ⟨h.count, ?_, ?_⟩
  · rw [growth_announce]
    exact h.total
  · rw [leaks_announce, List.map_append, ← h.leaks]
    rfl

/-- A change of capacity is published with both values. -/
theorem reallocated (h : t.Accounts capacities) {i old : Nat} (hi : capacities[i]? = some old)
    (new : Nat) : (t.publish (.reallocated old new)).Accounts (capacities.set i new) := by
  have hsum := sum_set hi new
  have htotal := h.total
  refine ⟨?_, ?_, ?_⟩
  · rw [List.length_set]
    exact h.count
  · rw [growth_publish, Event.growth]
    show (t.allocated.sum : Int) + _ = _
    omega
  · rw [leaks_publish t rfl]
    exact h.leaks

theorem configured (h : t.Accounts capacities) (settings : LeakSettings) :
    (t.publish (.configured settings)).Accounts capacities := by
  have hnone : (Event.configured settings).growth = 0 := rfl
  refine ⟨h.count, ?_, ?_⟩
  · rw [growth_publish, hnone, Int.add_zero]
    exact h.total
  · rw [leaks_publish t rfl]
    exact h.leaks

end Accounts

end Telemetry

/-! ## Deeds -/

namespace World

variable {w w' : World} {i d : Nat} {o o' : Owner} {deeds : List Deed}

/-- The capacities of all owners, those that went away included. -/
def capacities (w : World) : List Nat := w.owners.map Owner.capacity

/-- What the observer was told comes to the capacities that the owners have. -/
def Measured (w : World) : Prop := w.telemetry.Accounts w.capacities

theorem capacities_setOwner (w : World) (i : Nat) (o : Owner) :
    (w.setOwner i o).capacities = w.capacities.set i o.capacity := List.map_set

theorem capacity_of_owner (ho : w.owner? i = some o) : w.capacities[i]? = some o.capacity := by
  rw [capacities, List.getElem?_map, (owner?_eq_some_iff.1 ho).1]
  rfl

namespace Measured

theorem amended (h : w.Measured) (o : Owner) (f : Detector → Nat → Detector) :
    (w.amended o f).Measured := by
  rcases amended_cases w o f with hsame | ⟨detector, hsame⟩ <;> rw [hsame] <;> exact h

theorem onDetector (h : w.Measured) {f : Detector → World}
    (hf : ∀ detector, (f detector).Measured) : (w.onDetector d f).Measured := by
  rcases onDetector_cases w d f with hsame | ⟨detector, hsame⟩ <;> rw [hsame]
  · exact h
  · exact hf detector

theorem onOwner (h : w.Measured) {f : Owner → World}
    (hf : ∀ o, w.owner? i = some o → (f o).Measured) : (w.onOwner i f).Measured := by
  unfold World.onOwner
  rcases ho : w.owner? i with _ | o
  · exact h
  · exact hf o ho

/-- What does not change the capacity of an owner need not be told. -/
theorem setOwner (h : w.Measured) (ho : w.owner? i = some o) (hc : o'.capacity = o.capacity) :
    (w.setOwner i o').Measured := by
  have hsame : (w.setOwner i o').capacities = w.capacities := by
    obtain ⟨hlt, hi⟩ := List.getElem?_eq_some_iff.1 (capacity_of_owner ho)
    rw [capacities_setOwner, hc, ← hi, List.set_getElem_self]
  have hkept : w.telemetry.Accounts (w.setOwner i o').capacities := hsame.symm ▸ h
  exact hkept

/-- **A deed changes owners and telemetry together.** -/
theorem enact (h : w.Measured) (deed : Deed) : (deed.enact w).Measured := by
  cases deed with
  | allocate d capacity =>
    refine h.onDetector fun detector => ?_
    have htold := (Telemetry.Accounts.observeAllocation h capacity).announce
      (detector.track capacity).found
    unfold Measured capacities
    rw [List.map_append]
    exact htold
  | resize i capacity =>
    refine h.onOwner fun o ho => ?_
    have hamended := h.amended o fun d n => d.resize n capacity
    have htold := Telemetry.Accounts.reallocated hamended
      (capacity_of_owner ((owner?_amended o _).trans ho)) capacity
    unfold Measured
    exact (capacities_setOwner _ i (o.resized capacity)).symm ▸ htold
  | release i | drop i =>
    exact h.onOwner fun o ho => (h.amended o _).setOwner ((owner?_amended o _).trans ho) rfl
  | releaseShared i => exact h.onOwner fun o ho => h.setOwner ho rfl
  | sweep d | settle d =>
    exact h.onDetector fun detector => Telemetry.Accounts.announce h detector.leaks
  | configure d settings =>
    exact h.onDetector fun detector => Telemetry.Accounts.configured h settings

/-- What handles do changes neither. -/
theorem alike (h : w.Measured) (ha : w.Alike w') : w'.Measured := by
  have hcapacities : w'.capacities = w.capacities := by
    have hsame := congrArg (List.map Owner.capacity) ha.owners
    rwa [List.map_map, List.map_map] at hsame
  refine ⟨?_, ?_, ?_⟩
  · rw [hcapacities, ha.allocated]
    exact h.count
  · rw [hcapacities, ha.allocated, Telemetry.growth, ha.events]
    exact h.total
  · rw [ha.leaked, Telemetry.leaks, ha.events]
    exact h.leaks

theorem enacts (he : w.Enacts deeds w') : w.Measured → w'.Measured := by
  induction he with
  | alike ha => exact fun h => h.alike ha
  | deed d _ _ ih => exact fun h => ih (h.enact d)

theorem after (hw : w.Sound) (h : w.Measured) (history : List Operation) :
    (w.after history).Measured := by
  induction history generalizing w with
  | nil => exact h
  | cons op rest ih =>
    have hrun := hw.run op
    exact ih hrun.sound (h.enacts hrun.enacts)

end Measured

/-! ## What is measured at allocations -/

theorem allocated_enact {deed : Deed} (hd : deed.Allowed w) :
    (deed.enact w).telemetry.allocated = w.telemetry.allocated ++ deed.measured := by
  cases deed with
  | allocate d capacity =>
    show (w.allocated d capacity).telemetry.allocated = _
    rw [allocated, onDetector_of_some (List.getElem?_eq_getElem hd.1)]
    rfl
  | resize i capacity | release i | drop i =>
    refine (onOwner_kept (·.telemetry.allocated) fun o => ?_).trans (List.append_nil _).symm
    show (w.amended o _).telemetry.allocated = _
    rw [telemetry_amended]
  | releaseShared i =>
    refine (onOwner_kept (·.telemetry.allocated) fun o => ?_).trans (List.append_nil _).symm
    rfl
  | sweep d | settle d | configure d settings =>
    refine (onDetector_kept (·.telemetry.allocated) fun detector => ?_).trans
      (List.append_nil _).symm
    rfl

theorem Enacts.allocated (h : w.Enacts deeds w') :
    w'.telemetry.allocated = w.telemetry.allocated ++ deeds.flatMap Deed.measured := by
  induction h with
  | alike ha => exact ha.allocated.trans (List.append_nil _).symm
  | deed d hd _ ih => rw [ih, allocated_enact hd, List.flatMap_cons, List.append_assoc]

/-- A copy that succeeds is an allocation. -/
theorem copy_allocates (hw : w.Sound) (h : Handle) (offset length : Nat) :
    Action.Careful Trap.isMisuse (copy h offset length) w fun _ _ =>
      ∃ k, w.copyDeeds h length = [.allocate k length] := by
  refine (copy_makes hw h offset length).mono ?_
  rintro _ _ ⟨-, r, o, -, hr, ho, -⟩
  exact ⟨o.detector, copyDeeds_of_owner hr ho length⟩

theorem copyUnread_allocates (hw : w.Sound) (h : Handle) :
    Action.Careful Trap.isMisuse (copyUnread h) w fun _ _ => ∃ k length,
      w.unread? h = some length ∧ w.copyUnreadDeeds h = [.allocate k length] := by
  refine (paneOf_observes h).bind fun p hp => ?_
  refine (through_observes hw fun _ _ hs => readable_observes hs).bind ?_
  rintro _ ⟨q, hq, rfl⟩
  obtain rfl := Option.some.inj (hp.symm.trans hq)
  refine (copy_allocates hw h _ _).mono ?_
  rintro _ _ ⟨k, hdeeds⟩
  refine ⟨k, p.cursor.writer - p.cursor.reader, ?_, ?_⟩
  · rw [unread?, hp]
    rfl
  · rw [copyUnreadDeeds, hp]
    exact hdeeds

theorem keep_allocates (hw : w.Sound) (i : Nat) (header : CaptureInfo) :
    Action.Careful Trap.isMisuse (keep i header) w fun _ _ => ∃ k length,
      w.unread? (.owner i) = some length ∧ w.copyUnreadDeeds (.owner i) = [.allocate k length] :=
  (through_observes hw fun _ _ _ => CaptureInfo.checkComplete_observes header).bind fun _ _ =>
    copyUnread_allocates hw (.owner i)

/-- What an operation that succeeds allocates is what it was asked for. -/
theorem measured_deeds (hw : w.Sound) {op : Operation} {a : Reply} (hrun : op.run w = (.done a, w')) :
    (op.deeds w).flatMap Deed.measured = (op.asked w).toList := by
  have answered : ∀ {α : Type} {m : Task α} {f : α → Reply} {P : Prop},
      Action.Careful Trap.isMisuse m w (fun _ _ => P) →
      (m >>= fun a => pure (f a)) w = (.done a, w') → P := fun hm hrun =>
    (hm.bind fun _ _ h => Action.Succeeds.pure (Q := fun _ _ => _) h).of_done hrun
  cases op with
  | copy h offset length =>
    obtain ⟨k, hdeeds⟩ := answered (copy_allocates hw h offset length) hrun
    rw [Operation.deeds, hdeeds]
    rfl
  | copyUnread h =>
    obtain ⟨k, length, hasked, hdeeds⟩ := answered (copyUnread_allocates hw h) hrun
    rw [Operation.deeds, hdeeds, Operation.asked, hasked]
    rfl
  | keep i header =>
    obtain ⟨k, length, hasked, hdeeds⟩ := answered (keep_allocates hw i header) hrun
    rw [Operation.deeds, hdeeds, Operation.asked, hasked]
    rfl
  | release h | close h =>
    cases h <;> simp only [Operation.deeds, closeDeeds, releaseDeeds] <;> (repeat' split) <;> rfl
  | drop h => cases h <;> rfl
  | _ => rfl

/-- **An operation that makes an owner is measured once**, with the capacity of this owner, and no other
operation is. -/
theorem Sound.measured_enacted (hw : w.Sound) (op : Operation) :
    (op.enacted w).flatMap Deed.measured = op.creation w := by
  unfold Operation.enacted Operation.creation
  rcases hrun : op.run w with ⟨a | e | t, w'⟩
  · exact measured_deeds hw hrun
  · cases op <;> rfl
  · rfl

theorem allocated_after (hw : w.Sound) (history : List Operation) :
    (w.after history).telemetry.allocated = w.telemetry.allocated ++ w.creations history := by
  induction history generalizing w with
  | nil => exact (List.append_nil _).symm
  | cons op rest ih =>
    have hrun := hw.run op
    rw [after_cons, ih hrun.sound, hrun.enacts.allocated, hw.measured_enacted, List.append_assoc]
    rfl

/-- **Measurements account for all memory**, over any history with any number of owners and detectors,
operations that fail included. Let `t` be what the observer was told, and take every owner that was ever
made, whatever became of it, with the capacity it has or had last.

* There is one owner for each operation that makes one and succeeds. Its capacity at that time is what was
  measured, once, and no value is lost between the classes into which capacities are counted.
* What was measured at allocations, and how much the published changes of capacity come to, add up to the
  capacities of all owners, as integers.
* Of the leaks, as many were measured as were published, and with the same sum of capacities. -/
theorem memory_measured (settings : List LeakSettings) (history : List Operation) :
    let w := (start settings).after history
    let t := w.telemetry
    t.allocated = (start settings).creations history ∧
    t.allocated.length = w.owners.length ∧
    (histogram capacityClasses t.allocated).sum = w.owners.length ∧
    (t.allocated.sum : Int) + (t.events.map Event.growth).sum =
      (w.owners.map Owner.capacity).sum ∧
    t.leaked.length = t.leaks.length ∧
    t.leaked.sum = (t.leaks.map Leak.capacity).sum := by
  intro w t
  have hstart := sound_start settings
  have hempty : (start settings).Measured := Telemetry.Accounts.start
  have hmeasured : t.Accounts w.capacities := hempty.after hstart history
  have hcount : t.allocated.length = w.owners.length := by
    rw [hmeasured.count, capacities, List.length_map]
  refine ⟨allocated_after hstart history, hcount, ?_, hmeasured.total, ?_, ?_⟩
  · rw [sum_histogram, hcount]
  · rw [hmeasured.leaks, List.length_map]
  · rw [hmeasured.leaks]

/-- Two owners are made, one of which shrinks and is dropped; an allocation of nothing and a copy of too much
are not measured. -/
example :
    let w := (start [.standard, .standard]).after
      [.allocate 0 8, .allocate 1 0, .copy (.owner 0) 0 9, .copy (.owner 0) 2 4, .resize 1 3,
        .drop (.owner 1), .sweep 0]
    w.telemetry.allocated = [8, 4] ∧ w.telemetry.leaked = [3] ∧
      w.telemetry.events = [.reallocated 4 3, .leak ⟨1, 3, false⟩] ∧
      w.owners.map Owner.capacity = [8, 3] := by
  decide

end World

end PacketMemory
