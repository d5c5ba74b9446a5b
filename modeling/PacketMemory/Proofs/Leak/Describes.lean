import Mathlib.Data.List.Basic
import PacketMemory.Proofs.Leak.Ledger

/-!
# What a ledger says of the world

Every page of a ledger says what its owner has to look like, what record the detector has to have
of it (`Page.record?`), and what the observer has to have been told (`Page.report?`). A ledger that
agrees with a world in all of this `Describes` it.

Sweeps are the first thing to go with that: on its pages a ledger finds what the detector finds in
its records, and reports it like the detector (`Ledger.Describes.sweep`).
-/

namespace PacketMemory

/-! ## Reading entries of a list -/

section Entries

variable {α β : Type} {pages : List β} {f : β → β} {i : Nat}

/-- Reading entries of which one was changed. -/
theorem filterMap_modify {r r' : β → Option α} (hi : ∀ p, pages[i]? = some p → r (f p) = r' p)
    (hne : ∀ j p, j ≠ i → pages[j]? = some p → r p = r' p) :
    (pages.modify i f).filterMap r = pages.filterMap r' := by
  -- along the entries, with the number of the one to change
  induction pages generalizing i with
  | nil => simp
  | cons q rest ih =>
    cases i with
    | zero =>
      have hrest : rest.filterMap r = rest.filterMap r' := by
        refine List.filterMap_congr fun p hp => ?_
        obtain ⟨j, hj⟩ := List.mem_iff_getElem?.1 hp
        exact hne (j + 1) p (by omega) hj
      rw [List.modify_zero_cons, List.filterMap_cons, List.filterMap_cons, hi q rfl, hrest]
    | succ i =>
      have hq : r q = r' q := hne 0 q (by omega) rfl
      have htail := ih (i := i) (fun p hp => hi p hp)
        fun j p hj hp => hne (j + 1) p (by omega) hp
      rw [List.modify_succ_cons, List.filterMap_cons, List.filterMap_cons, hq, htail]

/-- Two readings of which at most one finds something in each entry. -/
theorem filterMap_or_perm {a b : β → Option α} (h : ∀ p ∈ pages, a p = none ∨ b p = none) :
    (pages.filterMap a ++ pages.filterMap b).Perm (pages.filterMap fun p => (a p).or (b p)) := by
  induction pages with
  | nil => exact .refl _
  | cons p rest ih =>
    have ih := ih fun q hq => h q (List.mem_cons_of_mem p hq)
    rcases ha : a p with _ | x
    · rcases hb : b p with _ | y
      · simpa [ha, hb] using ih
      · simpa [ha, hb] using List.perm_middle.trans (ih.cons y)
    · have hb : b p = none := (h p List.mem_cons_self).resolve_left (by simp [ha])
      simpa [ha, hb] using ih.cons x

end Entries

namespace Page

/-! ## What a page says -/

/-- The owner of an allocation, as far as ownership is concerned. -/
def title (p : Page) : Owner where
  block := if p.returned || p.dropped then none else some (Block.zeros p.capacity)
  capacity := p.capacity
  cursor := Cursor.empty
  order := default
  released := p.released
  detector := 0
  tracker := if p.tracked && !(p.returned || p.dropped) then some p.number else none
  inUse := !p.dropped

/-- The owner is the one that the page is about. -/
structure Titles (p : Page) (o : Owner) : Prop where
  block : o.block.map List.length = if p.returned || p.dropped then none else some p.capacity
  capacity : o.capacity = p.capacity
  released : o.released = p.released
  detector : o.detector = 0
  tracker : o.tracker = if p.tracked && !(p.returned || p.dropped) then some p.number else none
  inUse : o.inUse = !p.dropped

/-- The record of an allocation, if the detector has one. -/
def record? (p : Page) : Option Tracked :=
  if p.tracked && (if p.dropped then !p.released && !p.swept else !p.returned) then
    some ⟨p.number, p.capacity, p.settings.sites, !p.dropped⟩
  else
    none

/-- The leak that a sweep finds now. -/
def found? (p : Page) : Option Leak :=
  if p.tracked && p.dropped && !p.released && !p.swept then some p.leak else none

variable (p : Page)

theorem title_eq_iff {o : Owner} : p.title = o.title ↔ p.Titles o := by
  constructor
  · intro h
    have hblock := congrArg (fun o : Owner => o.block.map List.length) h
    refine ⟨?_, congrArg Owner.capacity h.symm, congrArg Owner.released h.symm,
      congrArg Owner.detector h.symm, congrArg Owner.tracker h.symm, congrArg Owner.inUse h.symm⟩
    simp only [title, Owner.title, Option.map_map] at hblock
    cases hc : p.returned || p.dropped <;> rw [hc] at hblock <;>
      simpa [Function.comp_def] using hblock.symm
  · rintro ⟨hblock, hcapacity, hreleased, hdetector, htracker, hinUse⟩
    have hzeros := congrArg (Option.map Block.zeros) hblock
    simp only [title, Owner.title, hcapacity, hreleased, hdetector, htracker, hinUse]
    congr 1
    rw [Option.map_map] at hzeros
    cases hc : p.returned || p.dropped <;> rw [hc] at hzeros <;> exact hzeros.symm

/-- An owner that returned its memory was released. -/
theorem Titles.released_of_returned {p : Page} {o : Owner} (ht : p.Titles o) (hs : o.Sound)
    (hr : p.returned = true) : p.released = true := by
  have hb := ht.block
  rw [hr] at hb
  exact ht.released.symm.trans (hs.gone (Option.map_eq_none_iff.1 hb))

/-- A sweep keeps exactly the records that are held. -/
theorem record?_sweep : p.sweep.record? = p.record?.filter fun t => t.held := by
  unfold record? sweep tracked
  cases p.dropped <;> cases p.settings.enabled <;> cases p.released <;> cases p.swept <;>
    cases p.returned <;> rfl

/-- A sweep finds exactly the records that nobody holds. -/
theorem found?_eq : p.found? = (p.record?.filter fun t => !t.held).map Tracked.leak := by
  unfold found? record? tracked leak
  cases p.dropped <;> cases p.settings.enabled <;> cases p.released <;> cases p.swept <;>
    cases p.returned <;> rfl

/-- A sweep adds to the reports what it finds. -/
theorem report?_sweep : p.sweep.report? = p.report?.or p.found? := by
  unfold report? found? leaked sweep tracked leak
  cases p.dropped <;> cases p.settings.enabled <;> cases p.released <;> cases p.swept <;> rfl

/-- What was reported is not found again. -/
theorem report?_or_found?_none : p.report? = none ∨ p.found? = none := by
  unfold report? found? leaked
  cases p.swept
  · exact .inl (by simp)
  · exact .inr (by simp)

theorem record?_of_inUse (hin : p.dropped = false) :
    p.record? = if p.tracked && !p.returned then
      some ⟨p.number, p.capacity, p.settings.sites, true⟩ else none := by
  simp [record?, hin]

theorem allocation_of_record? {t : Tracked} (h : p.record? = some t) :
    t.allocation = p.number ∧ p.tracked = true := by
  obtain ⟨hc, ht⟩ := Option.ite_none_right_eq_some.1 h
  cases ht
  exact ⟨rfl, (Bool.and_eq_true_iff.1 hc).1⟩

end Page

/-! ## What the observer was told -/

namespace Telemetry

theorem leaks_announce (t : Telemetry) (found : List Leak) :
    (t.announce found).leaks = t.leaks ++ found := by
  unfold leaks announce
  rw [List.filterMap_append, List.filterMap_map]
  congr 1
  exact List.filterMap_some

theorem leaks_publish (t : Telemetry) {e : Event} (he : e.leak? = none) :
    (t.publish e).leaks = t.leaks := by
  unfold leaks publish
  rw [List.filterMap_append, List.filterMap_cons, he]
  simp

end Telemetry

namespace Ledger

/-- What a periodic sweep before the next allocation leaves for the next check. -/
def left (l : Ledger) : List Leak :=
  if l.settings.enabled && l.sweepDue && decide (l.settings.mode = .strict) then
    l.pages.filterMap Page.found?
  else
    []

/-- The detector that the ledger is about, except for what is pending. -/
def detector (l : Ledger) (pending : List Leak) : Detector :=
  ⟨l.settings, l.tracked, l.tracked % 256, l.pages.filterMap Page.record?, pending⟩

/-- The ledger agrees with the world in all that concerns ownership, and the observer was told of
exactly the leaks that the ledger has reports of. -/
structure Describes (l : Ledger) (w : World) : Prop where
  owners : w.owners.map Owner.title = l.pages.map Page.title
  detectors : ∃ pending, w.detectors = [l.detector pending]
  numbers : (l.pages.filter Page.tracked).map Page.number = List.range l.tracked
  leaks : w.telemetry.leaks.Perm l.reports
  leaked : w.telemetry.leaked = w.telemetry.leaks.map Leak.capacity

variable {l : Ledger} {w w' : World} {i capacity : Nat} {o o' : Owner} {p q : Page}
variable {f : Page → Page} {pending : List Leak}

/-! ## Sweeps -/

theorem tracked_sweep (l : Ledger) : l.sweep.tracked = l.tracked := by
  unfold tracked sweep
  rw [List.filter_map, List.length_map]
  rfl

theorem records_sweep (l : Ledger) :
    l.sweep.pages.filterMap Page.record? =
      (l.pages.filterMap Page.record?).filter fun t => t.held := by
  unfold sweep
  rw [List.filterMap_map, List.filter_filterMap]
  exact List.filterMap_congr fun p _ => p.record?_sweep

theorem swept_detector (l : Ledger) (pending : List Leak) :
    (l.detector pending).swept = l.sweep.detector pending := by
  unfold detector Detector.swept
  rw [tracked_sweep, records_sweep]
  rfl

theorem leaks_detector (l : Ledger) (pending : List Leak) :
    (l.detector pending).leaks = l.pages.filterMap Page.found? := by
  unfold detector Detector.leaks
  rw [List.filter_filterMap, List.map_filterMap]
  exact List.filterMap_congr fun p _ => p.found?_eq.symm

/-- A sweep reports what it finds. -/
theorem reports_sweep (l : Ledger) (pending : List Leak) :
    (l.reports ++ (l.detector pending).leaks).Perm l.sweep.reports := by
  rw [leaks_detector]
  refine (filterMap_or_perm fun p _ => p.report?_or_found?_none).trans (.of_eq ?_)
  unfold reports sweep
  rw [List.filterMap_map]
  exact List.filterMap_congr fun p _ => p.report?_sweep.symm

theorem numbers_sweep (l : Ledger) :
    (l.sweep.pages.filter Page.tracked).map Page.number =
      (l.pages.filter Page.tracked).map Page.number := by
  unfold sweep
  rw [List.filter_map, List.map_map]
  rfl

/-- **A sweep, on request or before an allocation.** -/
theorem Describes.sweep (h : l.Describes w) {after : Detector → Detector}
    (hafter : ∀ pending, ∃ pending', after (l.detector pending) = l.sweep.detector pending') :
    l.sweep.Describes (w.swept 0 after) := by
  obtain ⟨pending, hd⟩ := h.detectors
  have hget : w.detectors[0]? = some (l.detector pending) := by rw [hd]; rfl
  rw [World.swept_of_some hget]
  refine ⟨?_, ?_, ?_, ?_, ?_⟩
  · refine h.owners.trans ?_
    unfold Ledger.sweep
    rw [List.map_map]
    rfl
  · obtain ⟨pending', hp⟩ := hafter pending
    refine ⟨pending', ?_⟩
    show w.detectors.set 0 _ = _
    rw [hd, hp]
    rfl
  · rw [numbers_sweep, tracked_sweep]
    exact h.numbers
  · rw [Telemetry.leaks_announce]
    exact (h.leaks.append_right _).trans (reports_sweep l pending)
  · rw [Telemetry.leaks_announce, List.map_append, ← h.leaked]
    rfl

end Ledger

end PacketMemory
