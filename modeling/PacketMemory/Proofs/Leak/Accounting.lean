import PacketMemory.Proofs.Leak.Describes

/-!
# The ledger keeps up with the world

Main statement: whatever deed is done, if the ledger described the world before, then with a note
of the deed it describes the world afterwards (`Describes.note`). Each deed has a lemma of its own:

* `Describes.allocate` — the detector sweeps when the ledger counts 256 tracked allocations, and the
  new record gets the number of the page.
* `Describes.change` — a deed on one owner changes its page and its record, which the number of the
  allocation tells from all others.

By induction, the ledger of a history describes the world that the history leads to
(`Describes.after`).
-/

namespace PacketMemory

namespace Ledger

variable {l : Ledger} {w w' : World} {i capacity : Nat} {o o' : Owner} {p q : Page}
variable {f : Page → Page} {pending : List Leak}

/-! ## What happens to one allocation -/

/-- Every owner has a page, with its title on it. -/
theorem Describes.page (h : l.Describes w) (ho : w.owners[i]? = some o) :
    ∃ p, l.pages[i]? = some p ∧ p.Titles o := by
  have hget := congrArg (fun titles => titles[i]?) h.owners
  simp only [List.getElem?_map, ho, Option.map_some] at hget
  obtain ⟨p, hp, htitle⟩ := Option.map_eq_some_iff.1 hget.symm
  exact ⟨p, hp, p.title_eq_iff.1 htitle⟩

/-- Numbers tell tracked allocations apart. -/
theorem Describes.pairwise (h : l.Describes w) :
    l.pages.Pairwise fun p q => p.tracked = true → q.tracked = true → p.number ≠ q.number := by
  have hnodup : ((l.pages.filter Page.tracked).map Page.number).Nodup := by
    rw [h.numbers]
    exact List.nodup_range
  exact List.pairwise_filter.1 (List.pairwise_map.1 hnodup)

theorem Describes.number_ne (h : l.Describes w) {j : Nat} (hi : l.pages[i]? = some p)
    (hj : l.pages[j]? = some q) (hij : j ≠ i) (hp : p.tracked = true) (hq : q.tracked = true) :
    q.number ≠ p.number := by
  have hpair := List.pairwise_iff_getElem.1 h.pairwise
  obtain ⟨hlti, rfl⟩ := List.getElem?_eq_some_iff.1 hi
  obtain ⟨hltj, rfl⟩ := List.getElem?_eq_some_iff.1 hj
  rcases Nat.lt_or_gt_of_ne hij with hlt | hlt
  · exact hpair j i hltj hlti hlt hq hp
  · exact (hpair i j hlti hltj hlt hp hq).symm

theorem numbers_amend (hi : l.pages[i]? = some p) (htracked : (f p).tracked = p.tracked)
    (hnumber : (f p).number = p.number) :
    ((l.amend i f).pages.filter Page.tracked).map Page.number =
      (l.pages.filter Page.tracked).map Page.number := by
  have hread : ∀ pages : List Page, (pages.filter Page.tracked).map Page.number =
      pages.filterMap fun p => if p.tracked then some p.number else none := by
    intro pages
    rw [← List.filterMap_eq_map, List.filterMap_filter]
    rfl
  rw [hread, hread]
  refine filterMap_modify (fun p' hp' => ?_) fun _ _ _ _ => rfl
  obtain rfl : p = p' := Option.some.inj (hi.symm.trans hp')
  rw [htracked, hnumber]

/-- What happens to an owner does not change how many allocations were tracked. -/
theorem tracked_amend (hi : l.pages[i]? = some p) (htracked : (f p).tracked = p.tracked)
    (hnumber : (f p).number = p.number) : (l.amend i f).tracked = l.tracked := by
  have hlen := congrArg List.length (numbers_amend hi htracked hnumber)
  rw [List.length_map, List.length_map] at hlen
  exact hlen

/-- What happens to an owner is no report as long as it is none of its page. -/
theorem reports_amend (hi : l.pages[i]? = some p) (hreport : (f p).report? = p.report?) :
    (l.amend i f).reports = l.reports := by
  refine filterMap_modify (fun p' hp' => ?_) fun _ _ _ _ => rfl
  obtain rfl : p = p' := Option.some.inj (hi.symm.trans hp')
  exact hreport

/-- Something happens to an owner, to its page, and to its record if there is one. -/
theorem Describes.amend (h : l.Describes w) (ho : w.owner? i = some o)
    (hi : l.pages[i]? = some p) (howners : w'.owners = w.owners.set i o')
    (htitles : (f p).Titles o') (htracked : (f p).tracked = p.tracked)
    (hnumber : (f p).number = p.number) (hreport : (f p).report? = p.report?)
    (hdetectors : ∀ pending, w.detectors = [l.detector pending] →
      w'.detectors = [{ l.detector pending with
        records := (l.amend i f).pages.filterMap Page.record? }])
    (hleaks : w'.telemetry.leaks = w.telemetry.leaks)
    (hleaked : w'.telemetry.leaked = w.telemetry.leaked) : (l.amend i f).Describes w' := by
  have htr := tracked_amend hi htracked hnumber
  refine ⟨?_, ?_, ?_, ?_, ?_⟩
  · rw [howners]
    refine List.ext_getElem? fun j => ?_
    have hget := congrArg (fun titles => titles[j]?) h.owners
    simp only [List.getElem?_map] at hget
    simp only [Ledger.amend, List.getElem?_map]
    by_cases hij : i = j
    · subst hij
      have hlt := (List.getElem?_eq_some_iff.1 (World.owner?_eq_some_iff.1 ho).1).1
      rw [List.getElem?_set_self hlt, List.getElem?_modify_eq, hi]
      exact congrArg some ((f p).title_eq_iff.2 htitles).symm
    · rw [List.getElem?_set_ne hij, List.getElem?_modify_ne _ _ hij, hget]
  · obtain ⟨pending, hd⟩ := h.detectors
    refine ⟨pending, (hdetectors pending hd).trans ?_⟩
    unfold Ledger.detector
    rw [htr]
    rfl
  · rw [numbers_amend hi htracked hnumber, htr]
    exact h.numbers
  · rw [hleaks, reports_amend hi hreport]
    exact h.leaks
  · rw [hleaked, hleaks]
    exact h.leaked

/-- How the detector finds the record of an allocation to change or remove it. -/
def Amends (g : Detector → Nat → Detector) (act : Tracked → Option Tracked) : Prop :=
  ∀ d n, g d n = { d with
    records := d.records.filterMap fun t => if t.allocation = n then act t else some t }

theorem amends_amend (change : Tracked → Tracked) :
    Amends (fun d n => d.amend n change) fun t => some (change t) := by
  intro d n
  have hread : (fun t : Tracked => if t.allocation = n then some (change t) else some t) =
      fun t => some (if t.allocation = n then change t else t) := by
    funext t
    split <;> rfl
  simp only [hread, List.filterMap_eq_map', Detector.amend]

theorem amends_forget : Amends Detector.forget fun _ => none := by
  intro d n
  unfold Detector.forget
  congr 1
  rw [← List.filterMap_eq_filter]
  refine List.filterMap_congr fun t _ => ?_
  by_cases h : t.allocation = n <;> simp [h, Option.guard]

/-- If the page of a tracked allocation is changed, then nothing but its record is. -/
theorem Describes.records_amend (h : l.Describes w) (hi : l.pages[i]? = some p)
    (ht : p.tracked = true) {act : Tracked → Option Tracked}
    (hrec : (f p).record? = p.record?.bind act) :
    (l.amend i f).pages.filterMap Page.record? =
      (l.pages.filterMap Page.record?).filterMap fun t =>
        if t.allocation = p.number then act t else some t := by
  rw [List.filterMap_filterMap]
  refine filterMap_modify ?_ ?_
  · intro p' hp'
    obtain rfl : p = p' := Option.some.inj (hi.symm.trans hp')
    rw [hrec]
    rcases hr : p.record? with _ | t
    · rfl
    · rw [Option.bind_some, Option.bind_some, if_pos (p.allocation_of_record? hr).1]
  · intro j q hj hq
    rcases hr : q.record? with _ | t
    · rfl
    · obtain ⟨halloc, hqt⟩ := q.allocation_of_record? hr
      have hne := h.number_ne hi hq hj ht hqt
      rw [Option.bind_some, if_neg (by rw [halloc]; exact hne)]

/-- The record of an owner's allocation is changed as its page is. -/
theorem Describes.amended (h : l.Describes w) (hi : l.pages[i]? = some p) (htitles : p.Titles o)
    (hin : p.dropped = false) {g : Detector → Nat → Detector} {act : Tracked → Option Tracked}
    (hg : Amends g act) (hrec : (f p).record? = p.record?.bind act)
    (hdet : w.detectors = [l.detector pending]) :
    (w.amended o g).detectors =
      [{ l.detector pending with records := (l.amend i f).pages.filterMap Page.record? }] := by
  have hd := htitles.detector
  have htracker : o.tracker = if p.tracked && !p.returned then some p.number else none := by
    simpa [hin] using htitles.tracker
  have hrecord := p.record?_of_inUse hin
  unfold World.amended
  by_cases hc : (p.tracked && !p.returned) = true
  · rw [if_pos hc] at htracker hrecord
    have hget : w.detectors[o.detector]? = some (l.detector pending) := by rw [hd, hdet]; rfl
    simp only [htracker]
    rw [World.onDetector_of_some hget, hd, hdet, hg,
      h.records_amend hi (Bool.and_eq_true_iff.1 hc).1 hrec]
    rfl
  · rw [if_neg hc] at htracker hrecord
    have hrecords : (l.amend i f).pages.filterMap Page.record? =
        l.pages.filterMap Page.record? := by
      refine filterMap_modify (fun p' hp' => ?_) fun _ _ _ _ => rfl
      obtain rfl : p = p' := Option.some.inj (hi.symm.trans hp')
      rw [hrec, hrecord]
      rfl
    simp only [htracker]
    rw [hdet, hrecords]
    rfl

/-! ## Allocations -/

theorem tracked_append (l : Ledger) (p : Page) :
    Ledger.tracked { l with pages := l.pages ++ [p] } =
      l.tracked + if p.tracked then 1 else 0 := by
  unfold tracked
  rw [List.filter_append, List.length_append]
  cases h : p.tracked <;> simp [h]

theorem tracked_beforeAllocation (l : Ledger) : l.beforeAllocation.tracked = l.tracked := by
  unfold beforeAllocation
  split
  · exact l.tracked_sweep
  · rfl

theorem settings_beforeAllocation (l : Ledger) : l.beforeAllocation.settings = l.settings := by
  unfold beforeAllocation
  split <;> rfl

/-- While detection is off, an allocation is no concern of the detector. -/
theorem detector_allocate_of_disabled (h : l.settings.enabled = false) (pending : List Leak)
    (capacity : Nat) : (l.allocate capacity).detector pending = l.detector pending := by
  have hbefore : l.beforeAllocation = l := by simp [beforeAllocation, h]
  have htracked : (Page.new l.settings l.tracked capacity).tracked = false := h
  have hrecord : (Page.new l.settings l.tracked capacity).record? = none := by
    simp [Page.record?, htracked]
  unfold allocate detector
  rw [hbefore, tracked_append, htracked]
  simp [hrecord]

/-- While it is on, the allocation is tracked under the next number. -/
theorem detector_allocate_of_enabled (h : l.settings.enabled = true) (pending : List Leak)
    (capacity : Nat) : (l.allocate capacity).detector pending =
      { l.beforeAllocation.detector pending with
        next := l.tracked + 1
        sinceSweep := (l.tracked + 1) % 256
        records := (l.beforeAllocation.detector pending).records ++
          [⟨l.tracked, capacity, l.settings.sites, true⟩] } := by
  have htracked : (Page.new l.settings l.tracked capacity).tracked = true := h
  have hrecord : (Page.new l.settings l.tracked capacity).record? =
      some ⟨l.tracked, capacity, l.settings.sites, true⟩ := by
    rw [Page.record?, htracked]
    rfl
  unfold allocate detector
  rw [tracked_append, tracked_beforeAllocation, htracked]
  simp [hrecord]

/-- Every 256th tracked allocation sweeps, and in strict mode what it finds stays pending. -/
theorem beforeTracking_detector (h : l.settings.enabled = true) (pending : List Leak) :
    (l.detector pending).beforeTracking =
      (if l.sweepDue then (l.detector pending).leaks else [],
        { l.beforeAllocation.detector (pending ++ l.left) with
          sinceSweep := (l.tracked + 1) % 256 }) := by
  unfold Detector.beforeTracking
  rw [show (l.detector pending).sinceSweep = l.tracked % 256 from rfl]
  by_cases hdue : (l.tracked + 1) % 256 = 0
  · have hbefore : l.beforeAllocation = l.sweep := by simp [beforeAllocation, h, sweepDue, hdue]
    have hinterval : Detector.sweepInterval ≤ l.tracked % 256 + 1 := by
      unfold Detector.sweepInterval
      omega
    have hleft : l.left = if l.settings.mode = .strict then (l.detector pending).leaks else [] := by
      simp [left, h, sweepDue, hdue, leaks_detector]
    rw [if_pos hinterval, sweepDue, decide_eq_true hdue, hbefore, hdue, swept_detector, hleft]
    rfl
  · have hbefore : l.beforeAllocation = l := by simp [beforeAllocation, sweepDue, hdue]
    have hinterval : ¬Detector.sweepInterval ≤ l.tracked % 256 + 1 := by
      unfold Detector.sweepInterval
      omega
    have hnext : (l.tracked + 1) % 256 = l.tracked % 256 + 1 := by omega
    have hleft : l.left = [] := by simp [left, sweepDue, hdue]
    rw [if_neg hinterval, sweepDue, decide_eq_false hdue, hbefore, hnext, hleft, List.append_nil]
    rfl

/-- What tracking comes to, as the ledger has it. -/
theorem track_detector (l : Ledger) (pending : List Leak) (capacity : Nat) :
    (l.detector pending).track capacity =
      ⟨if l.settings.enabled then some l.tracked else none,
        if l.settings.enabled && l.sweepDue then (l.detector pending).leaks else [],
        (l.allocate capacity).detector (pending ++ l.left)⟩ := by
  have hsettings : (l.detector pending).settings = l.settings := rfl
  unfold Detector.track
  rw [hsettings]
  by_cases he : l.settings.enabled = true
  · rw [if_pos he, beforeTracking_detector he, detector_allocate_of_enabled he, he]
    have hnext : (l.beforeAllocation.detector (pending ++ l.left)).next = l.tracked :=
      l.tracked_beforeAllocation
    have hsites : (l.beforeAllocation.detector (pending ++ l.left)).settings = l.settings :=
      l.settings_beforeAllocation
    simp only [Detector.enter, hnext, hsites, Bool.true_and, if_true]
  · have he : l.settings.enabled = false := by simpa using he
    have hleft : l.left = [] := by simp [left, he]
    rw [detector_allocate_of_disabled he, he, hleft, List.append_nil]
    rfl

theorem titles_sweep (l : Ledger) :
    l.sweep.pages.map Page.title = l.pages.map Page.title := by
  unfold sweep
  rw [List.map_map]
  rfl

/-- The new owner and its page. -/
theorem title_new (settings : LeakSettings) (number capacity : Nat) :
    Owner.title ⟨some (Block.zeros capacity), capacity, Cursor.empty, default, false, 0,
      if settings.enabled then some number else none, true⟩ =
      (Page.new settings number capacity).title := by
  simp [Owner.title, Page.title, Page.new, Page.tracked]

/-- **An allocation.** -/
theorem Describes.allocate (h : l.Describes w) (capacity : Nat) :
    (l.allocate capacity).Describes (w.allocated 0 capacity) := by
  obtain ⟨pending, hd⟩ := h.detectors
  have hget : w.detectors[0]? = some (l.detector pending) := by rw [hd]; rfl
  have htrack := l.track_detector pending capacity
  have hnew : (Page.new l.settings l.tracked capacity).report? = none := by
    simp [Page.report?, Page.leaked, Page.new]
  unfold World.allocated
  rw [World.onDetector_of_some hget]
  simp only [htrack]
  refine ⟨?_, ⟨pending ++ l.left, ?_⟩, ?_, ?_, ?_⟩
  -- the new owner is the last one, and sweeps do not concern the others
  · have htitles : l.beforeAllocation.pages.map Page.title = l.pages.map Page.title := by
      unfold beforeAllocation
      split
      · exact l.titles_sweep
      · rfl
    unfold Ledger.allocate
    rw [List.map_append, List.map_append, htitles, ← h.owners, List.map_singleton,
      List.map_singleton, title_new]
  · show w.detectors.set 0 _ = _
    rw [hd]
    rfl
  · have hnumbers : (l.beforeAllocation.pages.filter Page.tracked).map Page.number =
        List.range l.tracked := by
      unfold beforeAllocation
      split
      · exact l.numbers_sweep.trans h.numbers
      · exact h.numbers
    unfold Ledger.allocate
    rw [tracked_append, tracked_beforeAllocation, List.filter_append, List.map_append, hnumbers]
    -- an allocation that is not tracked uses up no number
    cases ht : (Page.new l.settings l.tracked capacity).tracked with
    | false => simp [ht]
    | true =>
      have hn : (Page.new l.settings l.tracked capacity).number = l.tracked := rfl
      simp [ht, hn, List.range_succ]
  -- what is announced comes from the sweep, if there is one
  · rw [Telemetry.leaks_announce]
    have hreports : (l.allocate capacity).reports = l.beforeAllocation.reports := by
      unfold reports Ledger.allocate
      simp [hnew]
    rw [hreports, beforeAllocation]
    split
    · exact (h.leaks.append_right _).trans (l.reports_sweep pending)
    · rw [List.append_nil]
      exact h.leaks
  · rw [Telemetry.leaks_announce, List.map_append]
    show w.telemetry.leaked ++ _ = _
    rw [h.leaked]
    rfl

/-! ## Deeds -/

theorem Describes.start (settings : LeakSettings) :
    (start settings).Describes (World.start [settings]) :=
  ⟨rfl, ⟨[], rfl⟩, rfl, .refl _, rfl⟩

/-- What is nothing that ownership is about is nothing to note. -/
theorem Describes.alike (h : l.Describes w) (ha : w.Alike w') : l.Describes w' := by
  have hleaks : w'.telemetry.leaks = w.telemetry.leaks := by
    unfold Telemetry.leaks
    rw [ha.events]
  refine ⟨ha.owners.trans h.owners, ?_, h.numbers, hleaks ▸ h.leaks, ?_⟩
  · rw [ha.detectors]
    exact h.detectors
  · rw [ha.leaked, hleaks]
    exact h.leaked

theorem Describes.length_detectors (h : l.Describes w) : w.detectors.length = 1 := by
  obtain ⟨pending, hd⟩ := h.detectors
  rw [hd]
  rfl

theorem Describes.publish (h : l.Describes w) {e : Event} (he : e.leak? = none) :
    l.Describes { w with telemetry := w.telemetry.publish e } := by
  have hleaks := w.telemetry.leaks_publish he
  refine ⟨h.owners, h.detectors, h.numbers, hleaks ▸ h.leaks, ?_⟩
  rw [hleaks]
  exact h.leaked

/-- The page of an owner in use. -/
theorem Describes.page_inUse (h : l.Describes w) (ho : w.owner? i = some o) :
    ∃ p, l.pages[i]? = some p ∧ p.Titles o ∧ p.dropped = false := by
  obtain ⟨hget, hin⟩ := World.owner?_eq_some_iff.1 ho
  obtain ⟨p, hp, ht⟩ := h.page hget
  refine ⟨p, hp, ht, ?_⟩
  have hd := ht.inUse
  rw [hin] at hd
  simpa using hd.symm

/-- A deed that changes an owner, its record and its page. -/
theorem Describes.change (h : l.Describes w) (ho : w.owner? i = some o)
    (hi : l.pages[i]? = some p) (ht : p.Titles o) (hin : p.dropped = false)
    {g : Detector → Nat → Detector} {act : Tracked → Option Tracked} (hg : Amends g act)
    (htitles : (f p).Titles o') (htracked : (f p).tracked = p.tracked)
    (hnumber : (f p).number = p.number) (hreport : (f p).report? = none)
    (hrec : (f p).record? = p.record?.bind act) :
    (l.amend i f).Describes ((w.amended o g).setOwner i o') := by
  have hnone : p.report? = none := by simp [Page.report?, Page.leaked, hin]
  have hkept : (w.amended o g).owners = w.owners ∧ (w.amended o g).telemetry = w.telemetry := by
    rcases World.amended_cases w o g with he | ⟨detector, he⟩ <;> rw [he] <;> exact ⟨rfl, rfl⟩
  refine h.amend ho hi ?_ htitles htracked hnumber (hreport.trans hnone.symm) ?_ ?_ ?_
  · exact congrArg (fun owners => owners.set i o') hkept.1
  · exact fun pending hdet => h.amended hi ht hin hg hrec hdet
  · exact congrArg Telemetry.leaks hkept.2
  · exact congrArg Telemetry.leaked hkept.2

theorem Describes.resize (h : l.Describes w) (ho : w.owner? i = some o) (capacity : Nat) :
    (l.note (.resize i capacity)).Describes (w.resized i capacity) := by
  obtain ⟨p, hi, ht, hin⟩ := h.page_inUse ho
  rw [World.resized, World.onOwner_of_some ho]
  refine Describes.publish ?_ rfl
  refine h.change (f := fun p => { p with capacity := capacity }) ho hi ht hin
    (amends_amend fun t => { t with capacity := capacity }) ⟨?_, rfl, ht.released, ht.detector,
      ht.tracker, ht.inUse⟩ rfl rfl (by simp [Page.report?, Page.leaked, hin]) ?_
  · have hblock := congrArg (Option.map fun _ => capacity) ht.block
    simp only [Owner.resized, Option.map_map, Function.comp_def, Block.length_resize] at hblock ⊢
    rw [hblock]
    split <;> rfl
  · simp only [Page.record?, Page.tracked, hin]
    cases p.settings.enabled <;> cases p.returned <;> rfl

theorem Describes.release (h : l.Describes w) (ho : w.owner? i = some o) :
    (l.note (.release i)).Describes (w.released i) := by
  obtain ⟨p, hi, ht, hin⟩ := h.page_inUse ho
  rw [World.released, World.onOwner_of_some ho]
  refine h.change (f := fun p => { p with returned := true, released := true }) ho hi ht hin
    amends_forget ⟨rfl, ht.capacity, rfl, ht.detector, ?_, ht.inUse⟩ rfl rfl
    (by simp [Page.report?, Page.leaked, hin]) ?_
  · simp [Owner.returned]
  · simp [Page.record?, hin]

theorem Describes.releaseShared (h : l.Describes w) (ho : w.owner? i = some o) :
    (l.note (.releaseShared i)).Describes (w.releasedShared i) := by
  obtain ⟨p, hi, ht, hin⟩ := h.page_inUse ho
  rw [World.releasedShared, World.onOwner_of_some ho]
  refine h.amend (f := fun p => { p with released := true }) ho hi rfl
    ⟨ht.block, ht.capacity, rfl, ht.detector, ht.tracker, ht.inUse⟩ rfl rfl
    (by simp [Page.report?, Page.leaked, hin]) (fun pending hdet => ?_) rfl rfl
  -- the record stays until the owner itself is released or goes away
  have hrecords : (l.amend i fun p => { p with released := true }).pages.filterMap Page.record? =
      l.pages.filterMap Page.record? := by
    refine filterMap_modify (fun p' hp' => ?_) fun _ _ _ _ => rfl
    obtain rfl : p = p' := Option.some.inj (hi.symm.trans hp')
    simp [Page.record?, Page.tracked, hin]
  rw [hrecords]
  exact hdet

theorem Describes.drop (h : l.Describes w) (hs : o.Sound) (ho : w.owner? i = some o) :
    (l.note (.drop i)).Describes (w.dropped i) := by
  obtain ⟨p, hi, ht, hin⟩ := h.page_inUse ho
  rw [World.dropped, World.onOwner_of_some ho]
  have htitles : Page.Titles { p with dropped := true, swept := false } o.gone :=
    ⟨by simp [Owner.gone], ht.capacity, ht.released, ht.detector, by simp [Owner.gone], rfl⟩
  have hreport : Page.report? { p with dropped := true, swept := false } = none := by
    simp [Page.report?, Page.leaked]
  cases hr : o.released with
  | true =>
    have hp : p.released = true := ht.released.symm.trans hr
    refine h.change (f := fun p => { p with dropped := true, swept := false }) ho hi ht hin
      amends_forget htitles rfl rfl hreport ?_
    simp [Page.record?, hp]
  | false =>
    have hp : p.released = false := ht.released.symm.trans hr
    refine h.change (f := fun p => { p with dropped := true, swept := false }) ho hi ht hin
      (amends_amend fun t => { t with held := false }) htitles rfl rfl hreport ?_
    -- without a release, the memory is still there
    have hreturned : p.returned = false := Bool.eq_false_iff.2 fun hm =>
      absurd (hp.symm.trans (ht.released_of_returned hs hm)) (by decide)
    simp only [Page.record?, Page.tracked, hin, hp, hreturned]
    cases p.settings.enabled <;> rfl

/-- **The ledger notes what happens.** -/
theorem Describes.note (h : l.Describes w) (hw : w.Sound) {d : Deed} (hd : d.Allowed w) :
    (l.note d).Describes (d.enact w) := by
  have hone := h.length_detectors
  cases d with
  | allocate d capacity =>
    obtain rfl : d = 0 := by
      have hlt := hd.1
      omega
    exact h.allocate capacity
  | resize i capacity =>
    obtain ⟨o, ho, -⟩ := hd
    exact h.resize ho capacity
  | release i =>
    obtain ⟨o, ho, -⟩ := hd
    exact h.release ho
  | releaseShared i =>
    obtain ⟨o, ho⟩ := hd
    exact h.releaseShared ho
  | drop i =>
    obtain ⟨o, ho, -⟩ := hd
    exact h.drop (hw.owner i o ho) ho
  | sweep d =>
    obtain rfl : d = 0 := by
      have hlt : d < w.detectors.length := hd
      omega
    exact h.sweep fun pending => ⟨pending, l.swept_detector pending⟩
  | settle d =>
    obtain rfl : d = 0 := by
      have hlt : d < w.detectors.length := hd
      omega
    refine h.sweep fun pending => ⟨[], ?_⟩
    unfold Detector.settled
    rw [swept_detector]
    rfl
  | configure d settings =>
    obtain rfl : d = 0 := by
      have hlt : d < w.detectors.length := hd
      omega
    obtain ⟨pending, hdet⟩ := h.detectors
    have hget : w.detectors[0]? = some (l.detector pending) := by rw [hdet]; rfl
    show Describes { l with settings := settings } (w.configured 0 settings)
    rw [World.configured, World.onDetector_of_some hget]
    have hset : Describes { l with settings := settings } { w with
        detectors := w.detectors.set 0 { l.detector pending with settings := settings } } := by
      refine ⟨h.owners, ⟨pending, ?_⟩, h.numbers, h.leaks, h.leaked⟩
      rw [hdet]
      rfl
    exact hset.publish rfl

/-! ## Histories -/

/-- Deed by deed, the ledger keeps up. -/
theorem Describes.enacts {deeds : List Deed} (he : w.Enacts deeds w') :
    ∀ {l : Ledger}, l.Describes w → w.Sound → (deeds.foldl Ledger.note l).Describes w' := by
  induction he with
  | alike ha => exact fun h _ => h.alike ha
  | deed d hd _ ih => exact fun h hw => ih (h.note hw hd) (hw.enact hd)

/-- **The ledger of a history describes the world that the history leads to.** -/
theorem Describes.after (h : l.Describes w) (hw : w.Sound) (history : List Operation) :
    (l.after w history).Describes (w.after history) := by
  induction history generalizing l w with
  | nil => exact h
  | cons op rest ih =>
    have hrun := hw.run op
    exact ih (Describes.enacts hrun.enacts h hw) hrun.sound

end Ledger

end PacketMemory
