import PacketMemory.Proofs.Leak.Accounting

/-!
# Every leak is reported once

Over any history of one detector, the observer is told of exactly the tracked allocations whose
owner went away without a release and before some sweep, of each of them once. What there is to
tell comes from a ledger that the detector does not keep (`Ledger.after`), so that a report that
gets lost, comes twice or is out of date would show.

* `reports_after` — whatever the sweeps of a history find is announced, and measured.
* `Ledger.Describes.reports_of_page` — what was announced about one allocation.
* `leaks_reported_once` puts this together.
* `sweep_answers_reports` — a sweep on request answers its own share of the reports.
-/

namespace PacketMemory

namespace World

variable {w w' : World} {deeds : List Deed}

/-! ## What sweeps find is announced -/

theorem leaks_onDetector {d : Nat} {f : Detector → World} (found : Detector → List Leak)
    (hf : ∀ detector, (f detector).telemetry.leaks = w.telemetry.leaks ++ found detector) :
    (w.onDetector d f).telemetry.leaks = w.telemetry.leaks ++
      match w.detectors[d]? with
      | none => []
      | some detector => found detector := by
  unfold onDetector
  cases w.detectors[d]? with
  | none => exact (List.append_nil _).symm
  | some detector => exact hf detector

/-- A deed announces what its sweeps find. -/
theorem leaks_enact (w : World) (d : Deed) :
    (d.enact w).telemetry.leaks = w.telemetry.leaks ++ d.reports w := by
  cases d with
  | allocate d capacity =>
    exact leaks_onDetector (fun detector => (detector.track capacity).found)
      fun _ => Telemetry.leaks_announce _ _
  | resize i capacity =>
    refine (onOwner_kept (·.telemetry.leaks) fun o => ?_).trans (List.append_nil _).symm
    exact (Telemetry.leaks_publish _ rfl).trans (congrArg Telemetry.leaks (telemetry_amended o _))
  | release i | drop i =>
    refine (onOwner_kept (·.telemetry.leaks) fun o => ?_).trans (List.append_nil _).symm
    exact congrArg Telemetry.leaks (telemetry_amended o _)
  | releaseShared i =>
    refine (onOwner_kept (·.telemetry.leaks) fun o => ?_).trans (List.append_nil _).symm
    rfl
  | sweep d | settle d =>
    exact leaks_onDetector Detector.leaks fun _ => Telemetry.leaks_announce _ _
  | configure d settings =>
    refine (onDetector_kept (·.telemetry.leaks) fun _ => ?_).trans (List.append_nil _).symm
    exact Telemetry.leaks_publish _ rfl

theorem Enacts.leaks (h : w.Enacts deeds w') :
    w'.telemetry.leaks = w.telemetry.leaks ++ w.reportsOf deeds := by
  induction h with
  | alike ha =>
    unfold Telemetry.leaks
    rw [ha.events]
    exact (List.append_nil _).symm
  | deed d _ _ ih =>
    rw [ih, leaks_enact, List.append_assoc]
    rfl

/-- What the sweeps of a history find is announced, in this order. -/
theorem reports_after (hw : w.Sound) (history : List Operation) :
    (w.after history).telemetry.leaks = w.telemetry.leaks ++ w.reports history := by
  induction history generalizing w with
  | nil => exact (List.append_nil _).symm
  | cons op rest ih =>
    have hrun := hw.run op
    rw [after_cons, ih hrun.sound, hrun.enacts.leaks, List.append_assoc]
    rfl

theorem reports_append (w : World) (before rest : List Operation) :
    w.reports (before ++ rest) = w.reports before ++ (w.after before).reports rest := by
  induction before generalizing w with
  | nil => rfl
  | cons op before ih =>
    rw [List.cons_append, reports, ih, reports, List.append_assoc, after_cons]

end World

namespace Ledger

variable {l : Ledger} {w : World} {p : Page}

/-! ## What was announced about one allocation -/

/-- The pages before and behind a tracked one have other numbers, as far as they are tracked. -/
theorem Describes.others (h : l.Describes w) {before behind : List Page}
    (hpages : l.pages = before ++ p :: behind) (hp : p.tracked = true) :
    ∀ q, q ∈ before ∨ q ∈ behind → q.tracked = true → q.number ≠ p.number := by
  have hpair := h.pairwise
  rw [hpages] at hpair
  obtain ⟨-, hbehind, hacross⟩ := List.pairwise_append.1 hpair
  rintro q (hq | hq) ht
  · exact hacross q hq p List.mem_cons_self ht hp
  · exact ((List.pairwise_cons.1 hbehind).1 q hq hp ht).symm

/-- About a tracked allocation the observer was told what its page says, and nothing else. -/
theorem Describes.reports_of_page (h : l.Describes w) (hp : p ∈ l.pages)
    (ht : p.tracked = true) :
    w.telemetry.leaks.filter (fun leak => decide (leak.allocation = p.number)) =
      if p.leaked then [p.leak] else [] := by
  obtain ⟨before, behind, hpages⟩ := List.mem_iff_append.1 hp
  have hothers := h.others hpages ht
  -- the other pages have reports of other numbers, if any
  have hnone : ∀ q, q ∈ before ∨ q ∈ behind →
      q.report?.filter (fun leak => decide (leak.allocation = p.number)) = none := by
    intro q hq
    refine Option.filter_eq_none_iff.2 fun leak hleak => ?_
    obtain ⟨hl, he⟩ := Option.ite_none_right_eq_some.1 hleak
    cases he
    have htracked : q.tracked = true := by
      simp only [Page.leaked, Bool.and_eq_true] at hl
      exact hl.1.1.1
    exact fun hd => hothers q hq htracked (of_decide_eq_true hd)
  have hreports : l.reports.filter (fun leak => decide (leak.allocation = p.number)) =
      if p.leaked then [p.leak] else [] := by
    unfold Ledger.reports
    rw [List.filter_filterMap, hpages, List.filterMap_append, List.filterMap_cons,
      List.filterMap_eq_nil_iff.2 fun q hq => hnone q (.inl hq),
      List.filterMap_eq_nil_iff.2 fun q hq => hnone q (.inr hq)]
    cases hl : p.leaked <;> simp [Page.report?, hl, Page.leak, Option.filter]
  have hperm := h.leaks.filter fun leak => decide (leak.allocation = p.number)
  rw [hreports] at hperm
  cases hl : p.leaked <;> rw [hl] at hperm
  · exact hperm.eq_nil
  · exact hperm.eq_singleton

/-- A record of an owner that still has its memory is there, as its page has it. -/
theorem Describes.record_mem (h : l.Describes w) {i : Nat} {o : Owner} {detector : Detector}
    (hp : l.pages[i]? = some p) (ho : w.owner? i = some o) (hblock : o.block.isSome = true)
    (ht : p.tracked = true) (hd : w.detectors = [detector]) :
    ⟨p.number, o.capacity, p.settings.sites, true⟩ ∈ detector.records := by
  obtain ⟨p', hp', htitles, hin⟩ := h.page_inUse ho
  obtain rfl : p = p' := Option.some.inj (hp.symm.trans hp')
  obtain ⟨pending, hdet⟩ := h.detectors
  obtain rfl : detector = l.detector pending := List.singleton_inj.1 (hd.symm.trans hdet)
  have hreturned : p.returned = false := by
    have hsome := congrArg Option.isSome htitles.block
    rw [Option.isSome_map, hblock, hin] at hsome
    cases hr : p.returned
    · rfl
    · simp [hr] at hsome
  refine List.mem_filterMap.2 ⟨p, List.mem_of_getElem? hp, ?_⟩
  rw [p.record?_of_inUse hin, ht, hreturned, htitles.capacity]
  rfl

end Ledger

namespace World

/-- **Leaks are accounted for.** Over any history of one detector, compare the world with the
ledger of the history, which is not kept by the detector:

* every owner has a page; its capacity, its release and its end are those on the page, and the
  detector tracks it iff detection was on at its allocation, as long as it has its memory;
* the record of an owner that has its memory is among the records of the detector, with the
  capacity the owner has now, and no sweep has removed it;
* about a tracked allocation the observer was told once, with the capacity at the end and a site
  iff sites were captured at its allocation, if the owner went away without a release and a sweep
  ran afterwards, and otherwise not at all; it was not told of anything else;
* each of these leaks was found by one sweep and measured once. -/
theorem leaks_reported_once (settings : LeakSettings) (history : List Operation) :
    let w := (start [settings]).after history
    let l := (Ledger.start settings).after (start [settings]) history
    (l.pages.length = w.owners.length ∧
      ∀ (i : Nat) (p : Page) (o : Owner), l.pages[i]? = some p → w.owners[i]? = some o →
        o.capacity = p.capacity ∧ o.released = p.released ∧ o.inUse = !p.dropped ∧
        o.tracker = if p.settings.enabled && o.block.isSome then some p.number else none) ∧
    (∃ detector, w.detectors = [detector] ∧ detector.next = l.tracked ∧
      ∀ (i : Nat) (p : Page) (o : Owner), l.pages[i]? = some p → w.owner? i = some o →
        o.block.isSome = true → p.settings.enabled = true →
        ⟨p.number, o.capacity, p.settings.sites, true⟩ ∈ detector.records) ∧
    (((l.pages.filter Page.tracked).map Page.number).Nodup ∧
      (∀ p ∈ l.pages, p.settings.enabled = true →
        w.telemetry.leaks.filter (fun leak => decide (leak.allocation = p.number)) =
          if p.dropped && !p.released && p.swept then
            [⟨p.number, p.capacity, p.settings.sites⟩]
          else
            []) ∧
      ∀ leak ∈ w.telemetry.leaks, ∃ p ∈ l.pages,
        p.settings.enabled = true ∧ leak.allocation = p.number) ∧
    (start [settings]).reports history = w.telemetry.leaks ∧
      w.telemetry.leaked = w.telemetry.leaks.map Leak.capacity := by
  intro w l
  have hstart := sound_start [settings]
  have h : l.Describes w := (Ledger.Describes.start settings).after hstart history
  refine ⟨⟨?_, ?_⟩, ?_, ⟨?_, ?_, ?_⟩, ?_, h.leaked⟩
  · have hlen := congrArg List.length h.owners
    rw [List.length_map, List.length_map] at hlen
    exact hlen.symm
  · intro i p o hp ho
    obtain ⟨p', hp', ht⟩ := h.page ho
    obtain rfl : p = p' := Option.some.inj (hp.symm.trans hp')
    refine ⟨ht.capacity, ht.released, ht.inUse, ht.tracker.trans ?_⟩
    have hsome := congrArg Option.isSome ht.block
    rw [Option.isSome_map] at hsome
    rw [hsome]
    cases p.returned || p.dropped <;> rfl
  · obtain ⟨pending, hd⟩ := h.detectors
    refine ⟨l.detector pending, hd, rfl, ?_⟩
    intro i p o hp ho hblock ht
    exact h.record_mem hp ho hblock ht hd
  · rw [h.numbers]
    exact List.nodup_range
  · intro p hp ht
    rw [h.reports_of_page hp ht, Page.leaked, Page.tracked, ht, Bool.true_and]
    rfl
  · intro leak hleak
    obtain ⟨p, hp, hreport⟩ := List.mem_filterMap.1 (h.leaks.mem_iff.1 hleak)
    obtain ⟨hl, he⟩ := Option.ite_none_right_eq_some.1 hreport
    cases he
    simp only [Page.leaked, Bool.and_eq_true] at hl
    exact ⟨p, hp, hl.1.1.1, rfl⟩
  · exact (reports_after hstart history).symm

/-- **A sweep on request answers its share** of the reports of a history: what it answers is what is
reported between the operations before it and those behind it. The shares of other operations, which are
those of periodic sweeps and of checks, are answered to nobody. -/
theorem sweep_answers_reports {w : World} {d : Nat} (before rest : List Operation)
    (hd : ((w.after before).detectors[d]?).isSome = true) :
    ∃ found w', (Operation.sweep d).run (w.after before) = (.done (.leaks found), w') ∧
      w.reports (before ++ .sweep d :: rest) = w.reports before ++ (found ++ w'.reports rest) := by
  obtain ⟨detector, hd⟩ := Option.isSome_iff_exists.1 hd
  have hrun := Operation.run_sweep_of_some hd
  have hshare : (w.after before).reportsOf ((Operation.sweep d).enacted (w.after before)) =
      detector.leaks := by
    rw [Operation.enacted, hrun, Operation.deeds, reportsOf, Deed.reports, hd]
    exact List.append_nil _
  refine ⟨_, _, hrun, ?_⟩
  rw [reports_append, reports, hshare, hrun]

/-- Of two owners that go away, the one that was released first is no leak, and the other is one
with the capacity it was resized to, however often a sweep runs. -/
example :
    ((start [.standard]).after
      [.allocate 0 8, .resize 0 16, .allocate 0 4, .release (.owner 1),
        .drop (.owner 0), .drop (.owner 1), .sweep 0, .sweep 0]).telemetry.leaks =
      [⟨0, 16, false⟩] := by
  decide

end World

end PacketMemory
