import PacketMemory.Proofs.Pane.Calls
import PacketMemory.Proofs.World.View
import PacketMemory.World.Capture

/-!
# Casts: overlays on handles

Everything up to the decision of the overlay only looks: whether enough is written
(`Overlay.Populated`), and then whether the memory is live. The slice is cut behind the first check, so
it lies in the window. The decision itself stays inside of the slice that the overlay is handed; if it
only reads, a refused cast has changed nothing. This is the case for capture records.
-/

namespace PacketMemory

namespace Overlay

/-- Enough is written to be covered. What covers everything needs everything to be written. -/
def Populated (o : Overlay) (p : Pane) : Prop :=
  if o.size = 0 then p.cursor.writer = p.capacity else o.size ≤ p.cursor.writer

/-- How many bytes are covered. -/
def covered (o : Overlay) (p : Pane) : Nat := if o.size = 0 then p.capacity else o.size

/-- What is wrong if not enough is written. -/
def shortage (o : Overlay) (p : Pane) : IllegalArgument :=
  if o.size = 0 then .notFull o.name p.cursor.writer p.capacity
  else .tooShort o.name o.size p.cursor.writer

instance (o : Overlay) (p : Pane) : Decidable (o.Populated p) :=
  inferInstanceAs (Decidable (if o.size = 0 then _ else _))

variable {o : Overlay} {p : Pane}

/-- What is covered, if enough is written. -/
theorem length_of_populated (h : o.Populated p) :
    o.length p.cursor.writer p.capacity = .ok (o.covered p) := by
  simp only [Populated, length, covered] at h ⊢
  split at h
  · next hsize => simp only [hsize, h, ne_eq, not_true_eq_false, if_true, if_false]
  · next hsize => rw [if_neg hsize, if_neg hsize, if_neg (Nat.not_lt.2 h)]

theorem length_of_not_populated (h : ¬o.Populated p) :
    o.length p.cursor.writer p.capacity = .error (.illegalArgument (o.shortage p)) := by
  simp only [Populated, length, shortage] at h ⊢
  split at h
  · next hsize => rw [if_pos hsize, if_pos hsize, if_pos h]
  · next hsize => rw [if_neg hsize, if_neg hsize, if_pos (Nat.not_le.1 h)]

/-- What is covered, from the start of the window on, lies in the window. -/
theorem covered_fits (hp : p.Sound) (h : o.Populated p) : 0 + o.covered p ≤ p.capacity := by
  have hwriter := hp.cursor.writer_le
  simp only [Populated, covered] at h ⊢
  split <;> split at h <;> omega

end Overlay

namespace World

variable {α : Type} {w : World} {h : Handle} {v : View} {p : Pane} {o : Overlay}

/-! ## Up to the decision -/

/-- How much is written is checked before anything else. -/
theorem castWith_of_not_populated (hp : w.pane? h = some p) (hn : ¬o.Populated p)
    (wrap : View → Action World Cause α) :
    castWith h o wrap w = (.failed (.illegalArgument (o.shortage p)), w) := by
  apply (Action.bind_done (paneOf_of_some hp)).trans
  rw [Overlay.length_of_not_populated hn]
  rfl

/-- There is nothing to be cut from released memory. -/
theorem castWith_of_not_live (hh : h.isRecord = false) (hp : w.pane? h = some p)
    (hpopulated : o.Populated p) (hn : ¬p.Live) (wrap : View → Action World Cause α) :
    castWith h o wrap w = (.failed .memoryAccess, w) := by
  apply (Action.bind_done (paneOf_of_some hp)).trans
  rw [Overlay.length_of_populated hpopulated, Action.ofExcept_ok, pure_bind]
  exact Action.bind_failed (slicing_refused hh hp (Pane.checkRange_of_not_live hn 0 _))

/-- **A slice of what is covered is cut**, and the rest is up to the type. -/
theorem castWith_of_populated (hw : w.Sound) (hv : w.basis? h = some v) (hp : w.pane? h = some p)
    (hpopulated : o.Populated p) (hl : p.Live) (wrap : View → Action World Cause α) :
    castWith h o wrap w = ((wrap (v.cut 0 (o.covered p)) w).1.mapError (Failure.cast o.name),
      (wrap (v.cut 0 (o.covered p)) w).2) := by
  have hfit := Overlay.covered_fits (hw.pane hp) hpopulated
  apply (Action.bind_done (paneOf_of_some hp)).trans
  rw [Overlay.length_of_populated hpopulated, Action.ofExcept_ok, pure_bind]
  exact Action.bind_done (slicing_apply hw hv hp hl hfit)

/-! ## The decision -/

/-- Where the decision of an overlay ends: as far as ownership is concerned nothing happened,
and nothing at all if the decision only reads. -/
def Decided (o : Overlay) (w w' : World) : Prop :=
  w.Becomes [] w' ∧ (o.check.Reads → w' = w)

theorem Sound.decided_refl (hw : w.Sound) (o : Overlay) : Decided o w w :=
  ⟨hw.becomes_refl, fun _ => rfl⟩

/-- The decision is made on what the view sees, and the view takes over the cursor that it left. -/
theorem acceptance_apply {o : Overlay} {u : Owner} (hu : w.owner? v.root = some u) :
    acceptance o v w = ((o.check.run (v.pane u)).1.map fun _ => v.absorb (o.check.run (v.pane u)).2,
      w.setBlock v.root (o.check.run (v.pane u)).2.block) := by
  have hp : w.viewPane? v = some (v.pane u) := viewPane?_eq_some_iff.2 ⟨u, hu, rfl⟩
  unfold acceptance
  rw [hp]

theorem acceptance_stays (hw : w.Sound) (o : Overlay) (hv : w.Carries v) :
    Action.Stays Trap.isMisuse (acceptance o v) w (Decided o w) fun v' w' =>
      Decided o w w' ∧ w'.Carries v' ∧ v'.capacity = v.capacity := by
  obtain ⟨u, hu, hfit⟩ := hv
  have hrun := acceptance_apply (o := o) hu
  obtain ⟨he, hnever, hreads⟩ := o.check.run_evolves (hfit.pane (hw.owner _ u hu))
  have hdecided : Decided o w (w.setBlock v.root (o.check.run (v.pane u)).2.block) := by
    refine ⟨(hw.setBlock hu he.size).becomes_alike (Alike.setBlock hu he.size), ?_⟩
    intro hr
    rw [hreads hr]
    exact setBlock_self hu
  -- an accepted view takes over the cursor that the decision left; a trap is out of the question
  rcases hc : o.check.run (v.pane u) with ⟨a | e | t, p'⟩ <;> rw [hc] at hrun hdecided he
  · refine Action.Stays.of_apply_done hrun ⟨hdecided, ?_, rfl⟩
    exact ⟨_, owner?_setBlock_self hu _, he.cursor, hfit.window⟩
  · exact Action.Stays.of_apply_failed hrun hdecided
  · exact absurd (congrArg Prod.fst hc) (hnever t)

/-- **Whatever the type does, ownership is left alone**, and a type of fixed size gets a view of
this size. -/
theorem overlaid_stays (hw : w.Sound) (h : Handle) (o : Overlay) :
    Action.Stays Trap.isMisuse (overlaid h o) w (Decided o w) fun v w' =>
      Decided o w w' ∧ w'.Carries v ∧ (o.size ≠ 0 → v.capacity = o.size) := by
  have hF := hw.decided_refl o
  refine (paneOf_observes h).bind_stays hF fun p _ => ?_
  refine Action.Observes.ofExcept.bind_stays hF fun length hlength => ?_
  refine (slicing_observes hw h 0 length).bind_stays hF fun v hv => ?_
  refine (acceptance_stays hw o (hv.carries hw)).mapError.mono (fun _ h => h) ?_
  rintro v' w' ⟨hd, hcarries, hcap⟩
  refine ⟨hd, hcarries, ?_⟩
  intro hsize
  obtain ⟨u, -, rfl⟩ := hv.source
  rw [hcap]
  show length = o.size
  unfold Overlay.length at hlength
  rw [if_neg hsize] at hlength
  split at hlength
  · cases hlength
  · exact (Except.ok.inj hlength).symm

theorem lay_stays (hw : w.Sound) (h : Handle) (o : Overlay) :
    Action.Stays Trap.isMisuse (lay h o) w (Decided o w) fun _ w' => w.Becomes [] w' := by
  refine (overlaid_stays hw h o).bind ?_
  intro v w' hv
  exact (addView_succeeds hv.1.1.sound hv.2.1).mono fun _ _ h => hv.1.1.trans h.2

theorem probe_stays (hw : w.Sound) (h : Handle) (o : Overlay) :
    Action.Stays Trap.isMisuse (probe h o) w (Decided o w) fun _ w' => w.Becomes [] w' :=
  (overlaid_stays hw h o).bind fun _ _ hv => Action.Succeeds.pure hv.1.1

/-- The check of a capture record only reads. -/
theorem captureOverlay_reads : CaptureRecord.overlay.check.Reads := by
  dsimp only [CaptureRecord.overlay]
  refine Check.reads_number fun micros => ?_
  exact Check.reads_insist

/-- Laying a record only reads, so if it is refused, nothing happened. -/
theorem layRecord_careful (hw : w.Sound) (h : Handle) :
    Action.Careful Trap.isMisuse (layRecord h) w fun _ w' => w.Becomes [] w' := by
  refine Action.Stays.careful (F := Decided CaptureRecord.overlay w) ?_
    fun _ hd => hd.2 captureOverlay_reads
  refine (overlaid_stays hw h CaptureRecord.overlay).bind ?_
  intro v w' hv
  obtain ⟨⟨hb, -⟩, hcarries, hsize⟩ := hv
  refine ⟨w'.records.length, _, rfl, hb.trans ?_⟩
  exact (hb.sound.addRecord hcarries (hsize (by decide))).becomes_alike ⟨rfl, rfl, rfl, rfl, rfl⟩

end World

end PacketMemory
