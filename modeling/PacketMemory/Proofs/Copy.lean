import PacketMemory.Proofs.UseAfterRelease
import PacketMemory.Proofs.World.Calls
import PacketMemory.Proofs.World.Tracking

/-!
# Copies are exact and fresh

A copy is refused before anything is allocated, or it succeeds: once it has allocated, each of its
remaining steps succeeds, so there is never a half-built owner to be cleaned up, and none that a
detector could take for a leak. The same holds of an allocation with contents.

* `World.grown` is the world that such an allocation leads to. It differs from the world before in the
  new owner, in what its detector knows of it, and in what the observer is told of the allocation.
* `World.Sound.copy_steps` and `World.Sound.allocateCopy_steps` go through what comes after the
  allocation, step by step.

Main statement: `World.Reachable.copied_exactly`.
-/

namespace PacketMemory

namespace World

variable {w : World} {h : Handle} {p : Pane} {k length offset : Nat} {o : Owner}
variable {detector : Detector} {bytes : List UInt8}

/-- The world with one more owner. It holds these bytes, all of them readable, and reports to the detector
of number `k`, which is the given one. -/
def grown (w : World) (k : Nat) (detector : Detector) (bytes : List UInt8) (order : ByteOrder) :
    World :=
  let tracking := detector.track bytes.length
  { w with
    owners := w.owners ++ [⟨some bytes, bytes.length, ⟨0, bytes.length, 0, 0⟩, order, false, k,
      tracking.number, true⟩]
    detectors := w.detectors.set k tracking.detector
    telemetry := (w.telemetry.observeAllocation bytes.length).announce tracking.found }

/-! ## A new owner with contents -/

/-- An allocation whose owner is filled to the end. -/
theorem store_allocated (hd : w.detectors[k]? = some detector) (bytes : List UInt8)
    (order : ByteOrder) :
    (w.allocated k bytes.length).store (.owner w.owners.length) (Pane.holding bytes order) =
      w.grown k detector bytes order := by
  obtain ⟨o, ho, hfresh⟩ := Option.map_eq_some_iff.1
    (pane?_allocated_new (w := w) (List.getElem?_eq_some_iff.1 hd).1 bytes.length)
  rw [store_owner ho]
  rw [allocated, onDetector_of_some hd] at ho ⊢
  obtain ⟨hnew, -⟩ := owner?_eq_some_iff.1 ho
  rw [List.getElem?_concat_length] at hnew
  obtain rfl := Option.some.inj hnew
  simp only [setOwner, List.set_append_right _ _ (Nat.le_refl _), Nat.sub_self, List.set_cons_zero]
  rfl

theorem copied_eq_grown (hw : w.Sound) (hp : w.pane? h = some p) (hl : p.Live)
    (hfit : offset + length ≤ p.capacity) (hd : w.detectors[o.detector]? = some detector) :
    w.copied o p offset length =
      w.grown o.detector detector (p.bytesAt offset length) p.order := by
  have hlen := Pane.length_bytesAt (hw.pane hp) hl hfit
  rw [← store_allocated hd, hlen]
  rfl

/-- Every step of a copy succeeds once the memory was found to be there. -/
theorem Sound.copy_steps (hw : w.Sound) {r : Nat} (hr : w.root? h = some r)
    (ho : w.owner? r = some o) (hp : w.pane? h = some p) (hl : p.Live) (hlen : length ≠ 0)
    (hfit : offset + length ≤ p.capacity) (hd : w.detectors[o.detector]? = some detector) :
    let new := Handle.owner w.owners.length
    let w' := w.grown o.detector detector (p.bytesAt offset length) p.order
    copy h offset length w = (.done w.owners.length, w') ∧
    ∃ w₁ w₂ w₃, allocate o.detector length w = (.done w.owners.length, w₁) ∧
      through new (Pane.setOrder p.order) w₁ = (.done (), w₂) ∧
      copyBytes h offset new 0 length w₂ = (.done (), w₃) ∧
      through new (Pane.seekWriter length) w₃ = (.done (), w') := by
  intro new w'
  have hallowed := hw.allowed_copy hr ho hp hlen hfit
  have hgrown := copied_eq_grown hw hp hl hfit hd
  obtain ⟨_, _, hcopy, rfl, rfl⟩ := copy_succeeds hw hr ho hp hl hfit hallowed
  obtain ⟨w₂, w₃, horder, hbytes, hseek⟩ := fill_steps (hw.enact hallowed) p.order
    (root?_allocated_ne hr ho o.detector length) (pane?_allocated hp o.detector length) hl hfit
    (pane?_allocated_new hallowed.1 length)
  rw [show w' = _ from hgrown.symm]
  exact ⟨hcopy, _, w₂, w₃, allocate_apply hallowed, horder, hbytes, hseek⟩

/-- The refusals of a copy, the first one that applies. -/
theorem copy_stopped (hp : w.pane? h = some p) (hl : p.Live) :
    (length = 0 → copy h offset length w = (.failed (.illegalArgument .emptyCopy), w)) ∧
    (length ≠ 0 → p.capacity < offset + length →
      copy h offset length w = (.failed (.outOfBounds (.range offset length p.capacity)), w)) := by
  have hlive := through_query hp (Pane.checkLive_of_live hl)
  refine ⟨fun hzero => ?_, fun hlen hlt => ?_⟩
  · refine (Action.bind_done hlive).trans (Action.bind_failed ?_)
    rw [Action.require_false fun h => h hzero]
    rfl
  · refine (Action.bind_done hlive).trans ?_
    rw [Action.require_true hlen, pure_bind]
    exact Action.bind_failed (through_refused hp (Pane.checkRange_of_lt hl hlt))

theorem copyUnread_apply (hp : w.pane? h = some p) (hs : p.Sound) :
    copyUnread h w = copy h p.cursor.reader (p.cursor.writer - p.cursor.reader) w :=
  (Action.bind_done (paneOf_of_some hp)).trans (Action.bind_done (readable_seen hp hs))

/-- An allocation of no bytes, or of too many, is refused. -/
theorem allocate_stopped (hd : w.detectors[k]? = some detector) {capacity : Nat} :
    (capacity = 0 → allocate k capacity w = (.failed (.illegalArgument .zeroCapacity), w)) ∧
    (Block.largest < capacity →
      allocate k capacity w = (.failed (.illegalArgument (.oversize capacity)), w)) := by
  refine ⟨fun hzero => ?_, fun hlarge => ?_⟩
  · refine (Action.bind_done (detectorAt_of_some hd)).trans (Action.bind_failed ?_)
    rw [Action.require_false fun h => h hzero]
    rfl
  · refine (Action.bind_done (detectorAt_of_some hd)).trans ?_
    rw [Action.require_true (by omega), pure_bind]
    refine Action.bind_failed ?_
    rw [Action.require_false (Nat.not_le.2 hlarge)]
    rfl

/-- Appending all of its contents to a new owner succeeds. -/
theorem Sound.allocateCopy_steps (hw : w.Sound) (hd : w.detectors[k]? = some detector)
    (hne : bytes ≠ []) (hsmall : bytes.length ≤ Block.largest) :
    let w' := w.grown k detector bytes default
    allocateCopy k bytes w = (.done w.owners.length, w') ∧
    ∃ w₁, allocate k bytes.length w = (.done w.owners.length, w₁) ∧
      through (.owner w.owners.length) (Pane.appendBytes bytes) w₁ = (.done (), w') := by
  intro w'
  have hallowed : (Deed.allocate k bytes.length).Allowed w :=
    ⟨lt_of_detector hd, fun hzero => hne (List.length_eq_zero_iff.1 hzero), hsmall⟩
  have hnew := pane?_allocated_new hallowed.1 bytes.length
  have hroom : bytes.length ≤ (Pane.fresh bytes.length).capacity -
      (Pane.fresh bytes.length).cursor.writer := Nat.le_refl _
  have hfilled : (Pane.fresh bytes.length).appended bytes = Pane.holding bytes default := by
    simp [Pane.appended, Pane.overwrite, Pane.produced, Pane.fresh, Pane.holding, Cursor.holding,
      Cursor.empty, Block.zeros]
  have happend : through (.owner w.owners.length) (Pane.appendBytes bytes)
      (w.allocated k bytes.length) = (.done (), w') := by
    rw [through_apply hnew, Pane.appendBytes_apply ((hw.enact hallowed).pane hnew) ⟨rfl, rfl⟩ hroom,
      hfilled, store_allocated hd]
  have hallocate := allocate_apply hallowed
  refine ⟨?_, _, hallocate, happend⟩
  refine (Action.bind_done hallocate).trans (Action.bind_done (a := ()) ?_)
  rw [Action.onFailure, happend]

/-! ## Copies -/

/-- **Copies are exact and fresh, and leak nothing by themselves.** For every handle, and any range:

* a copy is refused because the memory was released, else because it would be empty, else because the
  range ends behind the capacity, and then the world stays as it was;
* otherwise it succeeds, and all that changes is that there is a new owner with just these bytes, all of
  them readable and nothing marked, in the byte order of the handle, which reports to the detector of
  the owner behind the handle; behind the allocation, each step of the copy succeeds;
* a copy of the readable bytes is the copy of their range;
* an allocation with contents is refused if there is none of them or too much, and otherwise makes a new
  owner with just these bytes; behind the allocation, writing them succeeds;
* an allocation enters exactly one record, under a number of its own, iff detection is on. -/
theorem Reachable.copied_exactly (hw : w.Reachable) (hp : w.pane? h = some p)
    (offset length : Nat) :
    let run := (Operation.copy h offset length).run w
    let new := w.owners.length
    (p.released = true → run = (.failed .memoryAccess, w)) ∧
    (p.released = false → length = 0 → run = (.failed (.illegalArgument .emptyCopy), w)) ∧
    (p.released = false → length ≠ 0 → p.capacity < offset + length →
      run = (.failed (.outOfBounds (.range offset length p.capacity)), w)) ∧
    (p.released = false → length ≠ 0 → offset + length ≤ p.capacity →
      ∃ r o d bytes, w.root? h = some r ∧ w.owner? r = some o ∧
        w.detectors[o.detector]? = some d ∧ bytes.length = length ∧
        (Operation.call h (.peekBytes offset length)).run w =
          (.done (.answer (.bytes bytes)), w) ∧
        let w' := w.grown o.detector d bytes p.order
        run = (.done (.handle (.owner new)), w') ∧
        ∃ w₁ w₂ w₃, allocate o.detector length w = (.done new, w₁) ∧
          through (.owner new) (Pane.setOrder p.order) w₁ = (.done (), w₂) ∧
          copyBytes h offset (.owner new) 0 length w₂ = (.done (), w₃) ∧
          through (.owner new) (Pane.seekWriter length) w₃ = (.done (), w')) ∧
    (Operation.copyUnread h).run w =
      (Operation.copy h p.cursor.reader (p.cursor.writer - p.cursor.reader)).run w ∧
    ∀ k d, w.detectors[k]? = some d →
      (∀ bytes, let run := (Operation.allocateCopy k bytes).run w
        (bytes = [] → run = (.failed (.illegalArgument .zeroCapacity), w)) ∧
        (Block.largest < bytes.length →
          run = (.failed (.illegalArgument (.oversize bytes.length)), w)) ∧
        (bytes ≠ [] → bytes.length ≤ Block.largest →
          let w' := w.grown k d bytes default
          run = (.done (.handle (.owner new)), w') ∧
          ∃ w₁, allocate k bytes.length w = (.done new, w₁) ∧
            through (.owner new) (Pane.appendBytes bytes) w₁ = (.done (), w'))) ∧
      (∀ t ∈ d.records, t.allocation < d.next) ∧
      ∀ capacity, let tracking := d.track capacity
        if d.settings.enabled then
          tracking.number = some d.next ∧
            ∃ kept, (kept = d.records ∨ kept = d.records.filter fun t => t.held) ∧
              tracking.detector.records =
                kept ++ [⟨d.next, capacity, d.settings.sites, true⟩]
        else
          tracking.number = none ∧ tracking.detector = d := by
  intro run new
  have hs := hw.sound
  have hps := hs.pane hp
  refine ⟨fun hr => ?_, fun hr hzero => ?_, fun hr hlen hlt => ?_, fun hr hlen hfit => ?_, ?_,
    fun k d hd => ⟨fun bytes => ⟨fun hnil => ?_, fun hlarge => ?_, fun hne hsmall => ?_⟩, ?_,
      d.records_track⟩⟩
  · have hn : ¬p.Live := fun hl => absurd (hr.symm.trans hl.1) (by decide)
    exact Action.bind_failed (copy_refused hp hn offset length)
  · exact Action.bind_failed ((copy_stopped hp (hs.live_of_pane hp hr)).1 hzero)
  · exact Action.bind_failed ((copy_stopped hp (hs.live_of_pane hp hr)).2 hlen hlt)
  · have hl := hs.live_of_pane hp hr
    obtain ⟨r, o, hroot, ho, -⟩ := root_of_pane hp
    have hd := List.getElem?_eq_getElem (hs.watched r o ho)
    obtain ⟨hcopy, hsteps⟩ := hs.copy_steps hroot ho hp hl hlen hfit hd
    exact ⟨r, o, _, p.bytesAt offset length, hroot, ho, hd, Pane.length_bytesAt hps hl hfit,
      run_peekBytes hp hps hl hfit, Action.bind_done hcopy, hsteps⟩
  · show (copyUnread h >>= _) w = (copy h _ _ >>= _) w
    rw [Action.bind_apply, copyUnread_apply hp hps]
    rfl
  · refine Action.bind_failed (Action.bind_failed ?_)
    exact (allocate_stopped hd).1 (List.length_eq_zero_iff.2 hnil)
  · exact Action.bind_failed (Action.bind_failed ((allocate_stopped hd).2 hlarge))
  · obtain ⟨hcopy, hsteps⟩ := hs.allocateCopy_steps hd hne hsmall
    exact ⟨Action.bind_done hcopy, hsteps⟩
  · exact hw.tracks.numbered d (List.mem_of_getElem? hd)

/-- A slice of a slice, three bytes from the fourth one on, read with the low byte first. Two bytes at
its end are copied, but not three. The copy reports where the owner of all does, and is the second
allocation there. -/
theorem copied_exactly_nested :
    let w := (start [.disabled, .standard]).after [.allocate 1 8,
      .call (.owner 0) (.pokeBytes 0 [1, 2, 3, 4, 5, 6, 7, 8]), .slice (.owner 0) 1 6,
      .slice (.view 0) 2 3, .call (.view 1) (.setOrder .little)]
    let w' := (Operation.copy (.view 1) 1 2).run w
    (Operation.copy (.view 1) 1 3).run w = (.failed (.outOfBounds (.range 1 3 3)), w) ∧
    w'.1 = .done (.handle (.owner 1)) ∧
    w'.2.owners.drop 1 = [⟨some [5, 6], 2, ⟨0, 2, 0, 0⟩, .little, false, 1, some 1, true⟩] ∧
    w'.2.detectors.map Detector.records = [[], [⟨0, 8, false, true⟩, ⟨1, 2, false, true⟩]] := by
  intro w w'
  have hw : w.Reachable := ⟨_, _, rfl⟩
  have hp : w.pane? (.view 1) =
      some ⟨some [1, 2, 3, 4, 5, 6, 7, 8], false, 3, 3, ⟨0, 3, 0, 0⟩, .little⟩ := by rfl
  have hlong := (hw.copied_exactly hp 1 3).2.2.1 rfl (by decide) (by decide)
  obtain ⟨r, o, d, bytes, hr, ho, hd, -, hpeek, hrun, -⟩ :=
    (hw.copied_exactly hp 1 2).2.2.2.1 rfl (by decide) (by decide)
  cases hr
  cases ho
  cases hd
  cases hpeek.symm.trans
    (run_peekBytes hp (hw.sound.pane hp) (hw.sound.live_of_pane hp rfl) (by decide))
  rw [show w' = _ from hrun]
  exact ⟨hlong, rfl, rfl, rfl⟩

end World

end PacketMemory
