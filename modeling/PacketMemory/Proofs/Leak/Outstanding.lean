import PacketMemory.Proofs.Leak.Accounting

/-!
# Outstanding allocations

A detector answers for how many allocations it has a record. One would expect these to be the tracked
allocations that were neither released nor found to be leaks (`Page.outstanding`). A release through a
duplicate makes a difference, though: it has no access to the detector, so the record stays until the
owner returns its memory or goes away. Until then the allocation *lingers* (`Page.lingers`), and the
detector counts it, too.

Main statement: `World.outstanding_counts`.
-/

namespace PacketMemory

namespace Page

/-- A tracked allocation that was not released through any handle, and that no sweep has found to be a
leak. -/
def outstanding (p : Page) : Bool := p.tracked && !p.released && !p.leaked

/-- A tracked allocation that a duplicate released, whose owner has not returned the memory since and
still exists. -/
def lingers (p : Page) : Bool := p.tracked && p.released && !p.returned && !p.dropped

theorem isSome_record? (p : Page) : p.record?.isSome =
    (p.tracked && if p.dropped then !p.released && !p.swept else !p.returned) :=
  Bool.eq_iff_iff.2 Option.isSome_ite

/-- A record is of an allocation that is outstanding, or of one that lingers. -/
theorem isSome_record?_and {p : Page}
    (h : p.dropped = false → p.returned = true → p.released = true) :
    (p.record?.isSome && !p.released) = p.outstanding ∧
      (p.record?.isSome && p.released) = p.lingers := by
  rw [isSome_record?, outstanding, lingers, leaked]
  cases hd : p.dropped
  · cases hr : p.released
    · have hm : p.returned = false := Bool.eq_false_iff.2 fun hm => by simp [h hd hm] at hr
      simp [hm]
    · simp
  · cases p.released <;> cases p.tracked <;> simp

end Page

namespace Ledger

variable {l : Ledger} {w : World} {i : Nat} {p : Page}

/-- The owner that a page is about. -/
theorem Describes.owner (h : l.Describes w) (hi : l.pages[i]? = some p) :
    ∃ o, w.owners[i]? = some o ∧ p.Titles o := by
  have hget := congrArg (fun titles => titles[i]?) h.owners
  simp only [List.getElem?_map, hi, Option.map_some] at hget
  obtain ⟨o, ho, htitle⟩ := Option.map_eq_some_iff.1 hget
  exact ⟨o, ho, p.title_eq_iff.1 htitle.symm⟩

/-- An allocation lingers iff its owner is there, tracked, released, and has its memory. -/
theorem Describes.lingers_iff (h : l.Describes w) (hi : l.pages[i]? = some p) :
    p.lingers = true ↔ ∃ o, w.owner? i = some o ∧ o.released = true ∧ o.block.isSome = true ∧
      o.tracker = some p.number := by
  obtain ⟨o, ho, htitles⟩ := h.owner hi
  have hsome := congrArg Option.isSome htitles.block
  rw [Option.isSome_map] at hsome
  have hunique : (∃ u, w.owner? i = some u ∧ u.released = true ∧ u.block.isSome = true ∧
      u.tracker = some p.number) ↔
      o.inUse = true ∧ o.released = true ∧ o.block.isSome = true ∧ o.tracker = some p.number := by
    simp only [World.owner?_eq_some_iff, ho, Option.some.injEq]
    constructor
    · rintro ⟨u, ⟨rfl, hin⟩, h⟩
      exact ⟨hin, h⟩
    · rintro ⟨hin, h⟩
      exact ⟨o, ⟨rfl, hin⟩, h⟩
  rw [hunique, htitles.inUse, htitles.released, hsome, htitles.tracker, Page.lingers]
  cases p.tracked <;> cases p.released <;> cases p.returned <;> cases p.dropped <;> simp

/-- The detector has a record for every page that says so. -/
theorem outstanding_detector (l : Ledger) (pending : List Leak) :
    (l.detector pending).outstanding = l.pages.countP fun p => p.record?.isSome :=
  List.length_filterMap_eq_countP

/-- Records are of two kinds. -/
theorem Describes.outstanding_eq (h : l.Describes w) (hw : w.Sound) (pending : List Leak) :
    (l.detector pending).outstanding =
      l.pages.countP Page.outstanding + l.pages.countP Page.lingers := by
  have hpage : ∀ p ∈ l.pages, p.dropped = false → p.returned = true → p.released = true := by
    intro p hp hin hr
    obtain ⟨i, hi⟩ := List.mem_iff_getElem?.1 hp
    obtain ⟨o, ho, htitles⟩ := h.owner hi
    have hinUse : o.inUse = true := by rw [htitles.inUse, hin]; rfl
    exact htitles.released_of_returned (hw.owner i o (World.owner?_eq_some_iff.2 ⟨ho, hinUse⟩)) hr
  have houtstanding : l.pages.countP (fun p => p.record?.isSome && !p.released) =
      l.pages.countP Page.outstanding :=
    List.countP_congr fun p hp => by rw [(Page.isSome_record?_and (hpage p hp)).1]
  have hlingers : l.pages.countP (fun p => p.record?.isSome && p.released) =
      l.pages.countP Page.lingers :=
    List.countP_congr fun p hp => by rw [(Page.isSome_record?_and (hpage p hp)).2]
  rw [outstanding_detector, List.countP_eq_countP_filter_add _ _ Page.released, List.countP_filter,
    List.countP_filter, houtstanding, hlingers, Nat.add_comm]

end Ledger

namespace World

variable {w : World} {detector : Detector}

/-- What the only detector answers. -/
theorem run_outstanding_of_single (hdet : w.detectors = [detector]) :
    (Operation.outstanding 0).run w = (.done (.answer (.count detector.outstanding)), w) := by
  have hget : w.detectors[0]? = some detector := by rw [hdet]; rfl
  exact Action.bind_done (Action.bind_done (detectorAt_of_some hget))

/-- **What is counted as outstanding.** Over any history of one detector, compare its answer with the
ledger of the history, which is not kept by the detector:

* the detector counts the tracked allocations that were neither released through any handle nor found
  to be leaks, and besides these the ones that linger;
* so it counts the former alone iff nothing lingers;
* an allocation lingers as long as its owner, which a duplicate released, is there and has the
  memory. -/
theorem outstanding_counts (settings : LeakSettings) (history : List Operation) :
    let w := (start [settings]).after history
    let l := (Ledger.start settings).after (start [settings]) history
    let answer := (Operation.outstanding 0).run w
    answer = (.done (.answer (.count
      (l.pages.countP Page.outstanding + l.pages.countP Page.lingers))), w) ∧
    (answer = (.done (.answer (.count (l.pages.countP Page.outstanding))), w) ↔
      ∀ p ∈ l.pages, p.lingers = false) ∧
    ∀ (i : Nat) (p : Page), l.pages[i]? = some p → (p.lingers = true ↔
      ∃ o, w.owner? i = some o ∧ o.released = true ∧ o.block.isSome = true ∧
        o.tracker = some p.number) := by
  intro w l answer
  have hstart := sound_start [settings]
  have h : l.Describes w := (Ledger.Describes.start settings).after hstart history
  obtain ⟨pending, hdet⟩ := h.detectors
  have hanswer : answer = (.done (.answer (.count
      (l.pages.countP Page.outstanding + l.pages.countP Page.lingers))), w) := by
    rw [← h.outstanding_eq (hstart.after history) pending]
    exact run_outstanding_of_single hdet
  refine ⟨hanswer, ?_, fun i p hi => h.lingers_iff hi⟩
  rw [hanswer]
  simp [List.countP_eq_zero]

/-- A duplicate released the memory, and its owner is still there. The allocation is counted, although it
was released. -/
theorem outstanding_after_shared_release :
    let history : List Operation := [.allocate 0 8, .duplicate (.owner 0), .release (.view 0)]
    let w := (start [.standard]).after history
    let l := (Ledger.start .standard).after (start [.standard]) history
    (Operation.outstanding 0).run w = (.done (.answer (.count 1)), w) ∧
      (w.owner? 0).map Owner.released = some true ∧ l.pages.countP Page.outstanding = 0 :=
  ⟨rfl, by decide, by decide⟩

end World

end PacketMemory
