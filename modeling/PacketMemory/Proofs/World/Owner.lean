import PacketMemory.Proofs.Pane.Access
import PacketMemory.Proofs.World.Deed
import PacketMemory.World.Owner

/-!
# Owners: which deeds the operations do

Allocation, resizing, release and the end of an owner are careful, and if they succeed, each of
them does one deed, or in the case of `closeOwner` two. What a deed relies on has been checked
by then, so the operations that only clean up behind a failure never have to.
-/

namespace PacketMemory

/-- What a new capacity is refused with, if it is: what is checked first decides. -/
def Owner.objection (o : Owner) (capacity : Nat) : Option Failure :=
  if capacity = 0 then some (.illegalArgument .zeroCapacity)
  else if o.released = true then some .memoryAccess
  else if Block.largest < capacity then some (.illegalArgument (.oversize capacity))
  else none

/-- Nothing is said against a new capacity iff it is not zero, can be allocated, and the memory was
not released. -/
theorem Owner.objection_eq_none_iff {o : Owner} {capacity : Nat} :
    o.objection capacity = none ↔
      capacity ≠ 0 ∧ o.released = false ∧ capacity ≤ Block.largest := by
  unfold objection
  split
  · next hzero => simp [hzero]
  · next hzero =>
    split
    · next hr => simp [hr]
    · next hr => simp [hzero, hr]

/-- What a new owner sees. -/
def Pane.fresh (capacity : Nat) : Pane :=
  ⟨some (Block.zeros capacity), false, 0, capacity, Cursor.empty, default⟩

namespace World

variable {w : World} {i d capacity : Nat} {o : Owner}

theorem amendTracking_apply (hd : o.detector < w.detectors.length) (f : Detector → Nat → Detector) :
    amendTracking o f w = (.done (), w.amended o f) := by
  unfold amendTracking amended
  cases o.tracker with
  | none => rfl
  | some n =>
    have hget : w.detectors[o.detector]? = some w.detectors[o.detector] :=
      List.getElem?_eq_getElem hd
    simp only [detectorAt, setDetector, bind_assoc, Action.state_bind_apply, hget,
      Action.expect_some, pure_bind, Action.update_apply, onDetector_of_some hget]

/-- **What can be allocated is allocated** for an owner with the next number. -/
theorem allocate_apply (hd : (Deed.allocate d capacity).Allowed w) :
    allocate d capacity w = (.done w.owners.length, w.allocated d capacity) := by
  obtain ⟨hlt, hzero, hcap⟩ := hd
  have hdet : w.detectors[d]? = some w.detectors[d] := List.getElem?_eq_getElem hlt
  rw [allocated, onDetector_of_some hdet]
  simp only [allocate, tell, track, detectorAt, setDetector, addOwner, Action.update_bind_apply,
    bind_assoc, Action.state_bind_apply, hdet, Action.expect_some, pure_bind, Action.pure_apply,
    Action.require_true hzero, Action.require_true hcap]

/-- There is no allocation but an allowed one. -/
theorem allocate_careful (d capacity : Nat) :
    Action.Careful Trap.isMisuse (allocate d capacity) w fun i w' =>
      (Deed.allocate d capacity).Allowed w ∧ i = w.owners.length ∧
        w' = w.allocated d capacity := by
  by_cases hd : (Deed.allocate d capacity).Allowed w
  · exact Action.Stays.of_apply_done (allocate_apply hd) ⟨hd, rfl, rfl⟩
  · -- one of the checks stops it
    refine (detectorAt_observes d).bind fun detector hdet => ?_
    refine Action.Observes.require.bind fun _ hzero => ?_
    refine Action.Observes.require.bind fun _ hcap => ?_
    exact absurd ⟨(List.getElem?_eq_some_iff.1 hdet).1, hzero, hcap⟩ hd

theorem withoutViews_of_none (hnone : w.hasViews i = false) : withoutViews i w = (.done (), w) := by
  unfold withoutViews
  rw [Action.state_bind_apply, Action.assert_true hnone, Action.pure_apply]

/-- An owner with views is borrowed, so to use it up is misuse. -/
theorem withoutViews_of_some (hviews : w.hasViews i = true) :
    withoutViews i w = (.trapped .misuse, w) := by
  unfold withoutViews
  rw [Action.state_bind_apply, Action.assert_false (by rw [hviews]; decide), Action.trap_apply]

theorem ownerAt_of_some (ho : w.owner? i = some o) : ownerAt i w = (.done o, w) := by
  unfold ownerAt
  rw [Action.state_bind_apply, ho, Action.expect_some, Action.pure_apply]

/-! ## The end of an owner -/

theorem dropOwner_succeeds (hw : w.Sound) (hd : (Deed.drop i).Allowed w) :
    Action.Succeeds (dropOwner i) w fun _ w' => w' = w.dropped i := by
  obtain ⟨o, ho, hnone⟩ := hd
  rw [dropped, onOwner_of_some ho]
  refine Action.Succeeds.after (withoutViews_of_none hnone) ?_
  refine Action.Succeeds.after (ownerAt_of_some ho) ?_
  refine Action.Succeeds.after (amendTracking_apply (hw.watched i o ho) _) ?_
  exact Action.Succeeds.update rfl

/-- An owner goes away only if there are no views of it. -/
theorem dropOwner_careful (hw : w.Sound) (i : Nat) :
    Action.Careful Trap.isMisuse (dropOwner i) w fun _ w' =>
      (Deed.drop i).Allowed w ∧ w' = w.dropped i := by
  by_cases hd : (Deed.drop i).Allowed w
  · exact (dropOwner_succeeds hw hd).careful.mono fun _ _ h => ⟨hd, h⟩
  · -- one of the checks stops it
    refine (withoutViews_observes i).bind fun _ hnone => (ownerAt_observes i).bind fun o ho => ?_
    exact absurd ⟨o, ho, hnone⟩ hd

/-- **A release gives the block back** and answers whether it was the first one. -/
theorem releaseOwner_apply (hw : w.Sound) (ho : w.owner? i = some o)
    (hnone : w.hasViews i = false) :
    releaseOwner i w = (.done (!o.released && o.block.isSome), w.released i) := by
  refine (Action.bind_done (withoutViews_of_none hnone)).trans ?_
  refine (Action.bind_done (ownerAt_of_some ho)).trans ?_
  refine (Action.bind_done (amendTracking_apply (hw.watched i o ho) _)).trans ?_
  rw [released, onOwner_of_some ho]
  rfl

theorem releaseOwner_careful (hw : w.Sound) (i : Nat) :
    Action.Careful Trap.isMisuse (releaseOwner i) w fun first w' =>
      ∃ o, w.owner? i = some o ∧ w.hasViews i = false ∧
        first = (!o.released && o.block.isSome) ∧ w' = w.released i := by
  by_cases hd : (Deed.release i).Allowed w
  · obtain ⟨o, ho, hnone⟩ := hd
    exact Action.Stays.of_apply_done (releaseOwner_apply hw ho hnone) ⟨o, ho, hnone, rfl, rfl⟩
  · -- one of the checks stops it
    refine (withoutViews_observes i).bind fun _ hnone => (ownerAt_observes i).bind fun o ho => ?_
    exact absurd ⟨o, ho, hnone⟩ hd

/-- A release through a duplicate keeps the block, for the owner to give it back. -/
theorem releaseShared_apply (ho : w.owner? i = some o) :
    releaseShared i w = (.done (!o.released && o.block.isSome), w.releasedShared i) := by
  refine (Action.bind_done (ownerAt_of_some ho)).trans ?_
  rw [releasedShared, onOwner_of_some ho]
  rfl

theorem releaseShared_careful (i : Nat) :
    Action.Careful Trap.isMisuse (releaseShared i) w fun first w' =>
      ∃ o, w.owner? i = some o ∧ first = (!o.released && o.block.isSome) ∧
        w' = w.releasedShared i := by
  by_cases hd : (Deed.releaseShared i).Allowed w
  · obtain ⟨o, ho⟩ := hd
    exact Action.Stays.of_apply_done (releaseShared_apply ho) ⟨o, ho, rfl, rfl⟩
  · exact (ownerAt_observes i).bind fun o ho => absurd ⟨o, ho⟩ hd

/-- The owner outlives its release. -/
theorem owner?_released (ho : w.owner? i = some o) :
    (w.released i).owner? i = some o.returned := by
  rw [released, onOwner_of_some ho]
  exact owner?_setOwner_self ((owner?_amended ..).trans ho) (owner?_eq_some_iff.1 ho).2

/-- Behind a release, the owner is still there to be dropped. -/
theorem allowed_drop_released (ho : w.owner? i = some o) (hnone : w.hasViews i = false) :
    (Deed.drop i).Allowed (w.released i) := by
  refine ⟨o.returned, owner?_released ho, ?_⟩
  rw [released, onOwner_of_some ho]
  exact (hasViews_amended (w := w) ..).trans hnone

/-- To close an owner is to release it and to drop it. -/
theorem closeOwner_careful (hw : w.Sound) (i : Nat) :
    Action.Careful Trap.isMisuse (closeOwner i) w fun _ w' =>
      w.Becomes [.release i, .drop i] w' := by
  refine (releaseOwner_careful hw i).bind ?_
  rintro _ _ ⟨o, ho, hnone, -, rfl⟩
  have hrelease : (Deed.release i).Allowed w := ⟨o, ho, hnone⟩
  have hdrop := allowed_drop_released ho hnone
  have hs : (w.released i).Sound := hw.enact hrelease
  refine (dropOwner_succeeds hs hdrop).mono ?_
  rintro _ _ rfl
  exact ⟨hs.enact hdrop, .deed _ hrelease (.single hdrop)⟩

/-! ## Resizing -/

/-- What no check objects to is allowed. -/
theorem allowed_resize (hs : o.Sound) (ho : w.owner? i = some o) (hnone : w.hasViews i = false)
    (h : o.objection capacity = none) : (Deed.resize i capacity).Allowed w := by
  obtain ⟨hzero, hr, hcap⟩ := Owner.objection_eq_none_iff.1 h
  exact ⟨o, ho, hnone, hs.live hr, hzero, hcap⟩

/-- An allowed capacity replaces the old one. -/
theorem resize_apply (hw : w.Sound) (hd : (Deed.resize i capacity).Allowed w) :
    resize i capacity w = (.done (), w.resized i capacity) := by
  obtain ⟨o, ho, hnone, hlive, hzero, hcap⟩ := hd
  refine (Action.bind_done (withoutViews_of_none hnone)).trans ?_
  refine (Action.bind_done (ownerAt_of_some ho)).trans ?_
  rw [Action.require_true hzero, pure_bind, Action.require_true hlive, pure_bind,
    Action.require_true hcap, pure_bind]
  refine (Action.bind_done (amendTracking_apply (hw.watched i o ho) _)).trans ?_
  rw [resized, onOwner_of_some ho]
  rfl

theorem resize_careful (hw : w.Sound) (i capacity : Nat) :
    Action.Careful Trap.isMisuse (resize i capacity) w fun _ w' =>
      (Deed.resize i capacity).Allowed w ∧ w' = w.resized i capacity := by
  by_cases hd : (Deed.resize i capacity).Allowed w
  · exact Action.Stays.of_apply_done (resize_apply hw hd) ⟨hd, rfl⟩
  · -- one of the checks stops it
    refine (withoutViews_observes i).bind fun _ hnone => (ownerAt_observes i).bind fun o ho => ?_
    refine Action.Observes.require.bind fun _ hzero => ?_
    refine Action.Observes.require.bind fun _ hlive => ?_
    refine Action.Observes.require.bind fun _ hcap => ?_
    exact absurd ⟨o, ho, hnone, hlive, hzero, hcap⟩ hd

/-- **When a capacity can be changed**, and with what it is refused otherwise. -/
theorem resize_ends (hw : w.Sound) (ho : w.owner? i = some o) (hnone : w.hasViews i = false)
    (capacity : Nat) : Action.Ends (resize i capacity) w (o.objection capacity) := by
  by_cases hfree : o.objection capacity = none
  · rw [hfree]
    exact .of_done (resize_apply hw (allowed_resize (hw.owner i o ho) ho hnone hfree))
  -- one of the checks stops it
  refine Action.Ends.after (withoutViews_of_none hnone) (Action.Ends.after (ownerAt_of_some ho) ?_)
  unfold Owner.objection at hfree ⊢
  by_cases hzero : capacity = 0
  · rw [if_pos hzero, Action.require_false (fun h => h hzero)]
    rfl
  rw [if_neg hzero] at hfree ⊢
  rw [Action.require_true hzero, pure_bind]
  by_cases hr : o.released = true
  · have hn : ¬o.pane.Live := fun hl => absurd (hr.symm.trans hl.1) (by decide)
    rw [if_pos hr, Action.require_false hn]
    rfl
  rw [if_neg hr] at hfree ⊢
  have hl : o.pane.Live := (hw.owner i o ho).live (Bool.not_eq_true _ ▸ hr)
  have hcap : Block.largest < capacity := Classical.byContradiction fun h => hfree (if_neg h)
  rw [Action.require_true hl, pure_bind, if_pos hcap, Action.require_false (Nat.not_le_of_lt hcap)]
  rfl

/-! ## Allocation with contents -/

/-- What exists sees the same after an allocation. -/
theorem pane?_allocated {h : Handle} {p : Pane} (hp : w.pane? h = some p) (d capacity : Nat) :
    (w.allocated d capacity).pane? h = some p := by
  rcases onDetector_cases w d _ with he | ⟨detector, he⟩
  · rw [allocated, he]
    exact hp
  · rw [allocated, he]
    rcases pane?_eq_some_iff.1 hp with ⟨i, o, rfl, ho, rfl⟩ | ⟨v, o, hv, ho, rfl⟩
    · exact pane?_owner (owner?_append_of_some ho _)
    · refine pane?_derived ?_ (owner?_append_of_some ho _)
      cases h <;> exact hv

theorem root?_allocated {h : Handle} {r d capacity : Nat} (hr : w.root? h = some r) :
    (w.allocated d capacity).root? h = some r := by
  rcases onDetector_cases w d _ with he | ⟨detector, he⟩
  · rw [allocated, he]
    exact hr
  · rw [allocated, he]
    cases h with
    | owner i =>
      obtain ⟨o, ho, rfl⟩ := Option.map_eq_some_iff.1 hr
      exact Option.map_eq_some_iff.2 ⟨o, owner?_append_of_some ho _, rfl⟩
    | view i | record i => exact hr

/-- What exists leads elsewhere than to the new owner. -/
theorem root?_allocated_ne {h : Handle} {r : Nat} (hr : w.root? h = some r)
    (ho : w.owner? r = some o) (d capacity : Nat) :
    (w.allocated d capacity).root? h ≠ some w.owners.length := by
  rw [root?_allocated hr]
  rintro ⟨⟩
  exact absurd (List.getElem?_eq_some_iff.1 (owner?_eq_some_iff.1 ho).1).1 (Nat.lt_irrefl _)

/-- What is new starts out empty, and with zeros in it. -/
theorem pane?_allocated_new (hd : d < w.detectors.length) (capacity : Nat) :
    (w.allocated d capacity).pane? (.owner w.owners.length) = some (Pane.fresh capacity) := by
  have hget : w.detectors[d]? = some w.detectors[d] := List.getElem?_eq_getElem hd
  rw [allocated, onDetector_of_some hget]
  refine pane?_eq_some_iff.2 (.inl ⟨_, ⟨some (Block.zeros capacity), capacity, Cursor.empty,
    default, false, d, (w.detectors[d].track capacity).number, true⟩, rfl, ?_, rfl⟩)
  exact owner?_eq_some_iff.2 ⟨by simp, rfl⟩

/-- An allocation with contents is a new owner that was filled. -/
theorem allocateCopy_makes (hw : w.Sound) (d : Nat) (bytes : List UInt8) :
    Action.Careful Trap.isMisuse (allocateCopy d bytes) w fun i w' =>
      i = w.owners.length ∧ (Deed.allocate d bytes.length).Allowed w ∧
        ∃ p', (Pane.fresh bytes.length).Evolves p' ∧
          w' = (w.allocated d bytes.length).store (.owner w.owners.length) p' := by
  refine (allocate_careful d bytes.length).bind ?_
  rintro _ _ ⟨hd, rfl, rfl⟩
  have hp := pane?_allocated_new hd.1 bytes.length
  have hroom : bytes.length ≤ (Pane.fresh bytes.length).capacity -
      (Pane.fresh bytes.length).cursor.writer := Nat.le_refl _
  -- the new owner has exactly the room for the bytes, so there is nothing to clean up
  have happend := Pane.appendBytes_succeeds ((hw.enact hd).pane hp) ⟨rfl, rfl⟩ hroom
  refine (Action.Succeeds.onFailure (through_succeeds hp happend)).bind ?_
  rintro _ _ ⟨p', ⟨-, he⟩, rfl⟩
  exact Action.Succeeds.pure ⟨rfl, hd, p', he, rfl⟩

/-- To fill a new owner is no further deed. -/
theorem allocateCopy_careful (hw : w.Sound) (d : Nat) (bytes : List UInt8) :
    Action.Careful Trap.isMisuse (allocateCopy d bytes) w fun i w' =>
      i = w.owners.length ∧ w.Becomes [.allocate d bytes.length] w' := by
  refine (allocateCopy_makes hw d bytes).mono ?_
  rintro _ _ ⟨rfl, hd, p', he, rfl⟩
  have hb := hw.becomes_enact hd
  exact ⟨rfl, hb.trans (hb.sound.becomes_store (pane?_allocated_new hd.1 bytes.length) he)⟩

end World

end PacketMemory
