import PacketMemory.Proofs.Leak.Outstanding
import PacketMemory.Proofs.Leak.Reports
import PacketMemory.Proofs.World.Tracking

/-!
# How long a leak stays undetected

Every 256th tracked allocation sweeps, so an owner that went away without a release is found out
before long: while its record is in the table, fewer than 256 allocations have been tracked since.

* `Detector.track_cases` says what an allocation does to the table.
* A `Chronicle` is a ledger that also has the number of allocations that had been tracked when an
  owner went away. It has no use for the counter of the detector.
* `Chronicle.Recent` — where no sweep ran since, no multiple of 256 was passed either. Every deed
  keeps this (`Chronicle.Recent.note`), and so does every history.

Main statement: `World.sweeps_in_time`.
-/

namespace PacketMemory

namespace Detector

variable {d : Detector}

/-! ## Every 256th allocation -/

/-- While the counter is the number of tracked allocations up to multiples of 256, every 256th one
sweeps. -/
theorem track_cases (hcount : d.sinceSweep = d.next % 256) (capacity : Nat) :
    let tracking := d.track capacity
    let new := ⟨d.next, capacity, d.settings.sites, true⟩
    if d.settings.enabled = false then
      tracking.detector = d ∧ tracking.found = []
    else if (d.next + 1) % 256 = 0 then
      tracking.detector.next = d.next + 1 ∧ tracking.detector.sinceSweep = 0 ∧
        tracking.detector.records = (d.records.filter fun t => t.held) ++ [new] ∧
        tracking.found = d.leaks
    else
      tracking.detector.next = d.next + 1 ∧ tracking.detector.sinceSweep = d.sinceSweep + 1 ∧
        tracking.detector.records = d.records ++ [new] ∧ tracking.found = [] := by
  intro tracking new
  split
  · next h => simp [tracking, track_of_disabled h]
  · next h =>
    have h : d.settings.enabled = true := by simpa using h
    split
    · next hdue =>
      have hinterval : sweepInterval ≤ d.sinceSweep + 1 := by rw [hcount, sweepInterval]; omega
      simp [tracking, new, track_of_due h hinterval]
    · next hdue =>
      have hinterval : d.sinceSweep + 1 < sweepInterval := by rw [hcount, sweepInterval]; omega
      simp [tracking, new, track_of_not_due h hinterval]

end Detector

/-! ## Which deeds allocate -/

/-- An operation that allocates does nothing else to ownership. -/
theorem Operation.enacted_eq_of_mem {w : World} {op : Operation} {k capacity : Nat}
    (h : .allocate k capacity ∈ op.enacted w) : op.enacted w = [.allocate k capacity] := by
  have hdeeds : .allocate k capacity ∈ op.deeds w → op.deeds w = [.allocate k capacity] := by
    cases op with
    | release r | close r =>
      cases r <;> simp only [Operation.deeds, World.closeDeeds, World.releaseDeeds] <;>
        (repeat' split) <;> simp
    | drop r => cases r <;> simp [Operation.deeds, World.dropDeeds]
    | copy r | copyUnread r | keep r =>
      simp only [Operation.deeds, World.copyUnreadDeeds, World.copyDeeds]
      (repeat' split) <;> simp +contextual
    | _ => simp +contextual [Operation.deeds]
  have hfailed : .allocate k capacity ∉ op.failedDeeds := by
    cases op <;> simp [Operation.failedDeeds]
  simp only [Operation.enacted] at h ⊢
  split at h
  · exact hdeeds h
  · exact absurd h hfailed
  · cases h

namespace Ledger

variable {l : Ledger} {w : World} {i : Nat} {p : Page}

/-! ## Tracked allocations are counted -/

theorem tracked_allocate (l : Ledger) (capacity : Nat) :
    (l.allocate capacity).tracked = l.tracked + if l.settings.enabled then 1 else 0 := by
  rw [← l.tracked_beforeAllocation]
  exact l.beforeAllocation.tracked_append _

/-- What happens to an allocation does not make it another one. -/
theorem tracked_amend_of_forall (l : Ledger) (i : Nat) {f : Page → Page}
    (hf : ∀ p, (f p).tracked = p.tracked ∧ (f p).number = p.number) :
    (l.amend i f).tracked = l.tracked := by
  cases hi : l.pages[i]? with
  | some p => exact tracked_amend hi (hf p).1 (hf p).2
  | none => rw [amend, List.modify_eq_self (List.getElem?_eq_none_iff.1 hi)]

theorem tracked_note {deed : Deed} (h : ∀ k capacity, deed ≠ .allocate k capacity) :
    (l.note deed).tracked = l.tracked := by
  cases deed with
  | allocate k capacity => exact absurd rfl (h k capacity)
  | resize i _ | release i | releaseShared i | drop i =>
    exact l.tracked_amend_of_forall i fun _ => ⟨rfl, rfl⟩
  | sweep _ | settle _ => exact l.tracked_sweep
  | configure _ _ => rfl

theorem tracked_foldl {deeds : List Deed} (h : ∀ k capacity, .allocate k capacity ∉ deeds) :
    (deeds.foldl note l).tracked = l.tracked := by
  induction deeds generalizing l with
  | nil => rfl
  | cons deed rest ih =>
    have hdeed : ∀ k capacity, deed ≠ .allocate k capacity := by
      rintro k capacity rfl
      exact h k capacity List.mem_cons_self
    have hrest : ∀ k capacity, .allocate k capacity ∉ rest := fun k capacity hmem =>
      h k capacity (List.mem_cons_of_mem deed hmem)
    exact (ih hrest).trans (tracked_note hdeed)

/-- The record under the number of a tracked allocation is the one on its page. -/
theorem Describes.record?_of_number (h : l.Describes w) (hi : l.pages[i]? = some p)
    (ht : p.tracked = true) {t : Tracked} (hmem : t ∈ l.pages.filterMap Page.record?)
    (hn : t.allocation = p.number) : p.record? = some t := by
  obtain ⟨q, hq, hrec⟩ := List.mem_filterMap.1 hmem
  obtain ⟨j, hj⟩ := List.mem_iff_getElem?.1 hq
  obtain ⟨halloc, hqt⟩ := q.allocation_of_record? hrec
  by_cases hij : j = i
  · subst hij
    obtain rfl := Option.some.inj (hj.symm.trans hi)
    exact hrec
  · exact absurd (halloc.symm.trans hn) (h.number_ne hi hj hij ht hqt)

end Ledger

/-- A ledger, and for every owner that went away, how many allocations had been tracked by then. -/
structure Chronicle where
  ledger : Ledger
  ended : Nat → Nat

namespace Chronicle

/-- Nothing was allocated yet. -/
def start (settings : LeakSettings) : Chronicle := ⟨.start settings, fun _ => 0⟩

/-- Note a deed. -/
def note (c : Chronicle) (deed : Deed) : Chronicle where
  ledger := c.ledger.note deed
  ended :=
    match deed with
    | .drop i => Function.update c.ended i c.ledger.tracked
    | _ => c.ended

/-- The chronicle of a history that starts in `w`. -/
def after (c : Chronicle) (w : World) : List Operation → Chronicle
  | [] => c
  | op :: rest => ((op.enacted w).foldl note c).after (op.run w).2 rest

/-- How many allocations were tracked since an owner went away. -/
def age (c : Chronicle) (i : Nat) : Nat := c.ledger.tracked - c.ended i

/-- The owner of a tracked allocation went away without a release, and at most 255 allocations were
tracked since. -/
def recentLeak (c : Chronicle) (p : Page) (i : Nat) : Bool :=
  p.tracked && p.dropped && !p.released && decide (c.age i ≤ 255)

/-- If no sweep ran since an owner went away, no multiple of 256 was reached since. -/
def Recent (c : Chronicle) : Prop :=
  ∀ i p, c.ledger.pages[i]? = some p → p.dropped = true → c.ended i ≤ c.ledger.tracked ∧
    (p.swept = false → c.ended i / 256 = c.ledger.tracked / 256)

variable {c : Chronicle} {i : Nat} {p : Page}

/-! ## The ledger inside -/

theorem ledger_foldl (deeds : List Deed) (c : Chronicle) :
    (deeds.foldl note c).ledger = deeds.foldl Ledger.note c.ledger := by
  induction deeds generalizing c with
  | nil => rfl
  | cons deed rest ih => exact ih (c.note deed)

theorem ledger_after (c : Chronicle) (w : World) (history : List Operation) :
    (c.after w history).ledger = c.ledger.after w history := by
  induction history generalizing c w with
  | nil => rfl
  | cons op rest ih => rw [after, ih, ledger_foldl, Ledger.after]

/-! ## No multiple of 256 goes by without a sweep -/

/-- Behind a sweep, every owner that went away has been swept. -/
theorem Recent.sweep (h : c.Recent) : Recent { c with ledger := c.ledger.sweep } := by
  intro i p hp hd
  obtain ⟨q, hq, rfl⟩ := Option.map_eq_some_iff.1 (List.getElem?_map.symm.trans hp)
  have hdropped : q.dropped = true := hd
  rw [Ledger.tracked_sweep]
  refine ⟨(h i q hq hdropped).1, fun hs => ?_⟩
  simp [Page.sweep, hdropped] at hs

theorem Recent.amend (h : c.Recent) (j : Nat) {f : Page → Page}
    (hf : ∀ p, (f p).tracked = p.tracked ∧ (f p).number = p.number)
    (hkeep : ∀ p, (f p).dropped = p.dropped ∧ (f p).swept = p.swept) :
    Recent { c with ledger := c.ledger.amend j f } := by
  intro i p hp hd
  rw [Ledger.tracked_amend_of_forall _ _ hf]
  simp only [Ledger.amend, List.getElem?_modify] at hp
  obtain ⟨q, hq, rfl⟩ := Option.map_eq_some_iff.1 hp
  split at hd
  · next hij =>
    rw [if_pos hij, (hkeep q).2]
    exact h i q hq ((hkeep q).1 ▸ hd)
  · next hij =>
    rw [if_neg hij]
    exact h i q hq hd

/-- The count starts when the owner goes away. -/
theorem Recent.drop (h : c.Recent) (j : Nat) : (c.note (.drop j)).Recent := by
  intro i p hp hd
  simp only [note] at hp ⊢
  rw [Ledger.tracked_note (by rintro _ _ ⟨⟩)]
  simp only [Ledger.note, Ledger.amend, List.getElem?_modify] at hp
  obtain ⟨q, hq, rfl⟩ := Option.map_eq_some_iff.1 hp
  by_cases hij : j = i
  · subst hij
    rw [Function.update_self]
    exact ⟨Nat.le_refl _, fun _ => rfl⟩
  · rw [if_neg hij] at hd ⊢
    rw [Function.update_of_ne (Ne.symm hij)]
    exact h i q hq hd

/-- The allocation that would reach a multiple of 256 sweeps. -/
theorem Recent.allocate (h : c.Recent) (capacity : Nat) :
    Recent { c with ledger := c.ledger.allocate capacity } := by
  intro i p hp hd
  rw [Ledger.tracked_allocate]
  have hbefore : c.ledger.beforeAllocation.pages[i]? = some p := by
    rcases Nat.lt_or_ge i c.ledger.beforeAllocation.pages.length with hlt | hge
    · exact (List.getElem?_append_left hlt).symm.trans hp
    · have hnew := (List.getElem?_append_right hge).symm.trans hp
      obtain rfl := List.mem_singleton.1 (List.mem_of_getElem? hnew)
      cases hd
  by_cases hdue : (c.ledger.settings.enabled && c.ledger.sweepDue) = true
  · rw [Ledger.beforeAllocation, if_pos hdue] at hbefore
    have hswept := h.sweep i p hbefore hd
    rw [Ledger.tracked_sweep] at hswept
    obtain ⟨q, hq, rfl⟩ := Option.map_eq_some_iff.1 (List.getElem?_map.symm.trans hbefore)
    have hdropped : q.dropped = true := hd
    refine ⟨Nat.le_add_right_of_le hswept.1, fun hs => ?_⟩
    simp [Page.sweep, hdropped] at hs
  · rw [Ledger.beforeAllocation, if_neg hdue] at hbefore
    obtain ⟨hle, hquot⟩ := h i p hbefore hd
    refine ⟨Nat.le_add_right_of_le hle, fun hs => (hquot hs).trans ?_⟩
    cases he : c.ledger.settings.enabled with
    | false => rfl
    | true =>
      have hne : (c.ledger.tracked + 1) % 256 ≠ 0 := by simpa [he, Ledger.sweepDue] using hdue
      rw [if_pos rfl]
      omega

/-- **No multiple of 256 goes by without a sweep.** -/
theorem Recent.note (h : c.Recent) (deed : Deed) : (c.note deed).Recent := by
  cases deed with
  | allocate _ capacity => exact h.allocate capacity
  | resize i _ | release i | releaseShared i =>
    exact h.amend i (fun _ => ⟨rfl, rfl⟩) fun _ => ⟨rfl, rfl⟩
  | drop i => exact h.drop i
  | sweep _ | settle _ => exact h.sweep
  | configure _ _ => exact h

theorem Recent.foldl {deeds : List Deed} (h : c.Recent) : (deeds.foldl Chronicle.note c).Recent := by
  induction deeds generalizing c with
  | nil => exact h
  | cons deed rest ih => exact ih (h.note deed)

theorem Recent.after (h : c.Recent) (w : World) (history : List Operation) :
    (c.after w history).Recent := by
  induction history generalizing c w with
  | nil => exact h
  | cons op rest ih => exact ih h.foldl _

theorem recent_start (settings : LeakSettings) : (start settings).Recent := nofun

/-- Where no sweep ran since, fewer than 256 allocations were tracked. -/
theorem Recent.age_lt (h : c.Recent) (hi : c.ledger.pages[i]? = some p) (hd : p.dropped = true)
    (hs : p.swept = false) : c.ended i ≤ c.ledger.tracked ∧ c.age i < 256 := by
  obtain ⟨hle, hquot⟩ := h i p hi hd
  have hquot := hquot hs
  refine ⟨hle, ?_⟩
  rw [age]
  omega

/-! ## What the table holds -/

/-- A record of an owner that went away is of a recent leak. -/
theorem Recent.recentLeak_of_record? (h : c.Recent) (hi : c.ledger.pages[i]? = some p)
    (hd : p.dropped = true) (hrec : p.record?.isSome = true) : c.recentLeak p i = true := by
  rw [Page.isSome_record?, hd] at hrec
  simp only [if_true, Bool.and_eq_true, Bool.not_eq_true'] at hrec
  obtain ⟨ht, hr, hs⟩ := hrec
  have hage := (h.age_lt hi hd hs).2
  simp [recentLeak, ht, hd, hr]
  omega

/-- Records are of owners that are there, or of recent leaks. -/
theorem Recent.outstanding_le (h : c.Recent) (pending : List Leak) :
    (c.ledger.detector pending).outstanding ≤
      c.ledger.pages.countP (fun p => p.tracked && !p.dropped) +
        c.ledger.pages.zipIdx.countP fun (p, i) => c.recentLeak p i := by
  rw [Ledger.outstanding_detector, List.countP_eq_countP_filter_add _ _ fun p => !p.dropped,
    List.countP_filter, List.countP_filter]
  refine Nat.add_le_add (List.countP_mono_left fun p _ hp => ?_) ?_
  · simp only [Page.isSome_record?, Bool.and_eq_true] at hp ⊢
    exact ⟨hp.1.1, hp.2⟩
  · rw [← List.zipIdx_map_fst 0 c.ledger.pages, List.countP_map, List.zipIdx_map_fst]
    refine List.countP_mono_left fun ⟨p, i⟩ hmem hp => ?_
    simp only [Function.comp_apply, Bool.and_eq_true, Bool.not_not] at hp
    exact h.recentLeak_of_record? (List.mk_mem_zipIdx_iff_getElem?.1 hmem) hp.2 hp.1

end Chronicle

namespace World

variable {w w' : World} {deed : Deed} {detector : Detector}

/-! ## Periodic sweeps -/

theorem Enacts.of_single (h : w.Enacts [deed] w') : deed.Allowed w ∧ (deed.enact w).Alike w' := by
  cases h with
  | deed _ hd h => cases h with
    | alike ha => exact ⟨hd, ha⟩

/-- What an operation that allocates does to the only detector, and what is announced. -/
theorem run_allocates (hw : w.Sound) (hdet : w.detectors = [detector]) {op : Operation}
    {k capacity : Nat} (hop : op.enacted w = [.allocate k capacity]) :
    k = 0 ∧ (op.run w).2.detectors = [(detector.track capacity).detector] ∧
      w.reportsOf (op.enacted w) = (detector.track capacity).found := by
  have hrun := (hw.run op).enacts
  rw [hop] at hrun ⊢
  obtain ⟨hallowed, ha⟩ := hrun.of_single
  obtain rfl : k = 0 := by
    have hlt := hallowed.1
    rw [hdet] at hlt
    exact Nat.lt_one_iff.1 hlt
  have hget : w.detectors[0]? = some detector := by rw [hdet]; rfl
  refine ⟨rfl, ?_, ?_⟩
  · rw [ha.detectors]
    simp only [Deed.enact, allocated]
    rw [onDetector_of_some hget, hdet]
    rfl
  · simp [reportsOf, Deed.reports, hget]

/-- **Periodic sweeps come in time.** Over any history of one detector, compare the detector with the
chronicle of the history:

* the counter since the last periodic sweep is the number of tracked allocations up to multiples of
  256, so it stays below 256;
* an allocation while detection is off changes nothing and finds nothing; every 256th tracked allocation
  sweeps the table as it was, announces the leaks, starts the counter again, and only then enters its
  own record; any other tracked allocation enters its record and counts;
* whatever else happens, sweeps on request among it, does not touch the counter;
* an allocation whose owner went away and whose record is in the table was not released, and fewer than
  256 allocations were tracked since its owner went away;
* so the answer for outstanding allocations is at most the number of tracked allocations whose owner is
  there and of those that are recent leaks. -/
theorem sweeps_in_time (settings : LeakSettings) (history : List Operation) :
    let w := (start [settings]).after history
    let c := (Chronicle.start settings).after (start [settings]) history
    c.ledger = (Ledger.start settings).after (start [settings]) history ∧
    ∃ d, w.detectors = [d] ∧
      (d.next = c.ledger.tracked ∧ d.sinceSweep = d.next % 256 ∧ d.sinceSweep < 256) ∧
      (∀ op : Operation, ∃ d' found, (op.run w).2.detectors = [d'] ∧
        (op.run w).2.telemetry.leaks = w.telemetry.leaks ++ found ∧
        (∀ k capacity, .allocate k capacity ∈ op.enacted w →
          let new := ⟨d.next, capacity, d.settings.sites, true⟩
          if d.settings.enabled = false then
            d' = d ∧ found = []
          else if (d.next + 1) % 256 = 0 then
            d'.next = d.next + 1 ∧ d'.sinceSweep = 0 ∧
              d'.records = (d.records.filter fun t => t.held) ++ [new] ∧ found = d.leaks
          else
            d'.next = d.next + 1 ∧ d'.sinceSweep = d.sinceSweep + 1 ∧
              d'.records = d.records ++ [new] ∧ found = []) ∧
        ((∀ k capacity, .allocate k capacity ∉ op.enacted w) →
          d'.next = d.next ∧ d'.sinceSweep = d.sinceSweep)) ∧
      (∀ (i : Nat) (p : Page), c.ledger.pages[i]? = some p → p.tracked = true →
        p.dropped = true → (∃ t ∈ d.records, t.allocation = p.number) →
        p.released = false ∧ c.ended i ≤ c.ledger.tracked ∧ c.age i < 256) ∧
      (Operation.outstanding 0).run w = (.done (.answer (.count d.outstanding)), w) ∧
      d.outstanding ≤ c.ledger.pages.countP (fun p => p.tracked && !p.dropped) +
        c.ledger.pages.zipIdx.countP fun (p, i) => c.recentLeak p i := by
  intro w c
  have hstart := sound_start [settings]
  have hw : w.Sound := hstart.after history
  have hledger : c.ledger = (Ledger.start settings).after (start [settings]) history :=
    Chronicle.ledger_after _ _ _
  have h : c.ledger.Describes w := by
    rw [hledger]
    exact (Ledger.Describes.start settings).after hstart history
  have hrecent : c.Recent := (Chronicle.recent_start settings).after _ history
  obtain ⟨pending, hdet⟩ := h.detectors
  refine ⟨hledger, _, hdet, ⟨rfl, rfl, Nat.mod_lt _ (by decide)⟩, fun op => ?_, ?_,
    run_outstanding_of_single hdet, hrecent.outstanding_le pending⟩
  · have hrun := hw.run op
    obtain ⟨pending', hdet'⟩ := (Ledger.Describes.enacts hrun.enacts h hw).detectors
    refine ⟨_, _, hdet', hrun.enacts.leaks, fun k capacity hmem => ?_, fun hnone => ?_⟩
    · obtain ⟨rfl, hdets, hfound⟩ := run_allocates hw hdet (Operation.enacted_eq_of_mem hmem)
      rw [hfound, List.singleton_inj.1 (hdet'.symm.trans hdets)]
      exact (c.ledger.detector pending).track_cases rfl capacity
    · have htracked := Ledger.tracked_foldl (l := c.ledger) hnone
      exact ⟨htracked, congrArg (· % 256) htracked⟩
  · rintro i p hi ht hd ⟨t, hmem, hn⟩
    have hrec := h.record?_of_number hi ht hmem hn
    have hleak := hrecent.recentLeak_of_record? hi hd (by rw [hrec]; rfl)
    simp only [Chronicle.recentLeak, Bool.and_eq_true, Bool.not_eq_true', decide_eq_true_eq] at hleak
    exact ⟨hleak.1.2, (hrecent i p hi hd).1, Nat.lt_succ_of_le hleak.2⟩

/-- An owner went away, and one allocation was tracked since. Its record is in the table next to the one
of the owner that is there. -/
example :
    let history : List Operation := [.allocate 0 8, .drop (.owner 0), .allocate 0 4]
    let w := (start [.standard]).after history
    let c := (Chronicle.start .standard).after (start [.standard]) history
    w.detectors.map Detector.outstanding = [2] ∧ c.age 0 = 1 ∧
      (c.ledger.pages.zipIdx.map fun (p, i) => c.recentLeak p i) = [true, false] := by
  decide

end World

end PacketMemory
