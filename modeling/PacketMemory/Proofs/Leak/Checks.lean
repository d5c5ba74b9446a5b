import PacketMemory.Proofs.Leak.Pending

/-!
# What checks find

A check finds the leaks that are due: those that no check found before, no sweep on request, and no
periodic sweep in log mode. The docket of the history, which does not look at the detector, says
which these are.

* `Docket.Describes.due_perm` — pending leaks and a sweep together come to what is due.
* `Docket.Describes.first_due` — a complaint is about a leak of the earliest periodic sweep that
  left any.
* `Docket.surfaced_after` — in strict mode, as long as nobody asks for a sweep, whatever leaks
  stays due until a check finds it, however many allocations come in between.
* `World.check_finds_due` puts this together.
-/

namespace PacketMemory

/-- A check settles everything, so a check behind it finds nothing. -/
theorem Detector.due_settled (d : Detector) : d.settled.due = [] := by
  simp [due, settled, leaks, swept, List.filter_filter]

namespace Docket

variable {d : Docket} {w : World} {c : Case} {pending : List Leak} {i : Nat}

/-! ## What a check finds -/

/-- A sweep on request finds what nothing found before. -/
theorem Orderly.unfound_eq (ho : d.Orderly) :
    d.unfound = d.ledger.pages.filterMap Page.found? := by
  rw [found_ledger]
  simp only [unfound, ← List.filterMap_eq_map, List.filterMap_filter]
  exact List.filterMap_congr fun c hc => (Case.found?_page (ho c hc).found).symm

/-- What is pending and what a sweep finds is due, and nothing else. -/
theorem Retains.due_perm (h : d.Retains pending) (ho : d.Orderly) :
    (d.ledger.detector pending).due.Perm d.due := by
  obtain ⟨kept, rfl, hperm, -⟩ := h
  have hone : ∀ c ∈ d.cases, (c.kept?.map Prod.snd) = none ∨ c.page.found? = none := fun c hc =>
    (Case.kept?_or_found?_none (ho c hc).found).imp (fun h => by rw [h]; rfl) id
  have hdue : d.due = d.cases.filterMap fun c => (c.kept?.map Prod.snd).or c.page.found? := by
    simp only [due, ← List.filterMap_eq_map, List.filterMap_filter]
    exact List.filterMap_congr fun c hc => Case.due_eq (ho c hc).found
  rw [hdue, Detector.due, Ledger.leaks_detector, found_ledger]
  refine .trans ?_ (filterMap_or_perm hone)
  rw [← List.map_filterMap]
  exact (hperm.map Prod.snd).append_right _

/-- The first leak that is due comes from the earliest periodic sweep that left any. -/
theorem Retains.first_due (h : d.Retains pending) (ho : d.Orderly) (hne : d.due ≠ []) :
    ∃ c ∈ d.cases, c.due = true ∧ (d.ledger.detector pending).due.head? = some c.page.leak ∧
      ∀ c' ∈ d.cases, ∀ n', c'.finder = some (.periodic .strict n') →
        ∃ n, c.finder = some (.periodic .strict n) ∧ n ≤ n' := by
  have hperm := h.due_perm ho
  obtain ⟨kept, rfl, hkept, hsorted⟩ := h
  have hmem : ∀ n leak, (n, leak) ∈ kept ↔
      ∃ c ∈ d.cases, c.finder = some (.periodic .strict n) ∧ c.page.leak = leak := by
    intro n leak
    simp only [hkept.mem_iff, List.mem_filterMap, Case.kept?_eq_some_iff]
  cases hk : kept with
  -- nothing was left, so any leak will do
  | nil =>
    have hnone : ∀ c' ∈ d.cases, ∀ n', c'.finder ≠ some (.periodic .strict n') := by
      intro c' hc' n' hf
      have hin := (hmem n' c'.page.leak).2 ⟨c', hc', hf, rfl⟩
      simp [hk] at hin
    have hhead : (d.ledger.detector []).due ≠ [] := by
      intro hnil
      rw [hk] at hperm
      exact hne (List.Perm.nil_eq (hnil ▸ hperm)).symm
    obtain ⟨leak, rest, hcons⟩ := List.exists_cons_of_ne_nil hhead
    have hin : leak ∈ d.due := by
      rw [hk] at hperm
      exact hperm.mem_iff.1 (hcons ▸ List.mem_cons_self)
    obtain ⟨c, hc, rfl⟩ := List.mem_map.1 hin
    obtain ⟨hc, hdue⟩ := List.mem_filter.1 hc
    exact ⟨c, hc, hdue, by simp [hcons], fun c' hc' n' hf => absurd hf (hnone c' hc' n')⟩
  | cons first rest =>
    obtain ⟨n, leak⟩ := first
    obtain ⟨c, hc, hf, rfl⟩ := (hmem n leak).1 (hk ▸ List.mem_cons_self)
    have hl : c.isLeak = true := Case.isLeak_of_finder (ho c hc).found (by simp [hf])
    refine ⟨c, hc, by simp [Case.due, hl, hf, Finder.keeps], rfl, ?_⟩
    intro c' hc' n' hf'
    refine ⟨n, hf, ?_⟩
    have hin := (hmem n' c'.page.leak).2 ⟨c', hc', hf', rfl⟩
    rw [hk] at hin hsorted
    rcases List.mem_cons.1 hin with heq | hin
    · exact Nat.le_of_eq (congrArg Prod.fst heq).symm
    · exact (List.pairwise_cons.1 hsorted).1 _ hin

end Docket

/-! ## Nothing hides in strict mode -/

/-- The deed neither sweeps on request nor leaves strict mode. -/
def Deed.KeepsStrict : Deed → Prop
  | sweep _ => False
  | configure _ settings => settings.mode = .strict
  | _ => True

/-- The operation neither asks for a sweep nor leaves strict mode. -/
def Operation.KeepsStrict : Operation → Prop
  | sweep _ => False
  | configure _ value => value.mode = .strict
  | _ => True

theorem Operation.KeepsStrict.enacted {op : Operation} (h : op.KeepsStrict) (w : World) :
    ∀ deed ∈ op.enacted w, deed.KeepsStrict := by
  have hdeeds : ∀ deed ∈ op.deeds w, deed.KeepsStrict := by
    cases op with
    | sweep k => exact h.elim
    | configure k value => simpa [Operation.deeds, Deed.KeepsStrict, Operation.KeepsStrict] using h
    | release k | close k =>
      cases k <;> simp only [Operation.deeds, World.closeDeeds, World.releaseDeeds] <;>
        (repeat' split) <;> simp [Deed.KeepsStrict]
    | drop k => cases k <;> simp [Operation.deeds, World.dropDeeds, Deed.KeepsStrict]
    | copy k offset length =>
      simp only [Operation.deeds, World.copyDeeds]
      split <;> simp [Deed.KeepsStrict]
    | copyUnread k | keep k header =>
      simp only [Operation.deeds, World.copyUnreadDeeds, World.copyDeeds]
      (repeat' split) <;> simp [Deed.KeepsStrict]
    | _ => simp [Operation.deeds, Deed.KeepsStrict]
  have hfailed : ∀ deed ∈ op.failedDeeds, deed.KeepsStrict := by
    cases op <;> simp [Operation.failedDeeds, Deed.KeepsStrict]
  intro deed hdeed
  simp only [Operation.enacted] at hdeed
  split at hdeed
  · exact hdeeds deed hdeed
  · exact hfailed deed hdeed
  · cases hdeed

/-- No sweep on request found it, and no periodic sweep in log mode. -/
def Case.surfaced (c : Case) : Bool := c.finder.all fun f => f.keeps || decide (f = .check)

theorem Case.surfaced_sweep {c : Case} (h : c.surfaced = true) (n : Nat) :
    (c.sweep (.periodic .strict n)).surfaced = true := by
  cases hf : c.finder with
  | some f => simpa [surfaced, sweep, hf] using h
  | none => cases hl : c.isLeak <;> simp [surfaced, sweep, hf, hl, Finder.keeps]

theorem Case.surfaced_settle {c : Case} (h : c.surfaced = true) : c.settle.surfaced = true := by
  cases hd : c.due with
  | true => simp [surfaced, settle, hd]
  | false => simpa [surfaced, settle, hd] using h

/-- A leak that no such sweep found is due, unless a check found it. -/
theorem Case.due_or_checked {c : Case} (h : c.surfaced = true) (hl : c.isLeak = true) :
    c.due = true ∨ c.finder = some .check := by
  cases hf : c.finder with
  | none => exact .inl (by simp [due, hl, hf])
  | some f =>
    simp only [surfaced, hf, Option.all_some, Bool.or_eq_true, decide_eq_true_eq] at h
    rcases h with hkeeps | rfl
    · exact .inl (by simp [due, hl, hf, hkeeps])
    · exact .inr rfl

namespace Docket

variable {d : Docket} {i : Nat}

/-- The case of this number is surfaced, if there is one yet. -/
def SurfacedAt (d : Docket) (i : Nat) : Prop := ∀ c, d.cases[i]? = some c → c.surfaced = true

theorem SurfacedAt.map (h : d.SurfacedAt i) {f : Case → Case}
    (hf : ∀ c, c.surfaced = true → (f c).surfaced = true) :
    SurfacedAt { d with cases := d.cases.map f } i := by
  intro c hc
  obtain ⟨c, hc', rfl⟩ := Option.map_eq_some_iff.1 (List.getElem?_map.symm.trans hc)
  exact hf c (h c hc')

theorem SurfacedAt.amend (h : d.SurfacedAt i) (j : Nat) (f : Page → Page) :
    (d.amend j f).SurfacedAt i := by
  intro c hc
  simp only [Docket.amend, List.getElem?_modify] at hc
  obtain ⟨c, hc', rfl⟩ := Option.map_eq_some_iff.1 hc
  split
  · exact h c hc'
  · exact h c hc'

theorem SurfacedAt.allocate (h : d.SurfacedAt i) (hmode : d.settings.mode = .strict)
    (capacity : Nat) : (d.allocate capacity).SurfacedAt i := by
  have hbefore : d.beforeAllocation.SurfacedAt i := by
    simp only [beforeAllocation, hmode]
    split
    · exact h.map fun c hc => Case.surfaced_sweep hc _
    · exact h
  intro c hc
  rcases Nat.lt_or_ge i d.beforeAllocation.cases.length with hlt | hge
  · exact hbefore c ((List.getElem?_append_left hlt).symm.trans hc)
  · have hnew := (List.getElem?_append_right hge).symm.trans hc
    obtain rfl := List.mem_singleton.1 (List.mem_of_getElem? hnew)
    rfl

/-- **Nothing hides in strict mode**, as long as nobody asks for a sweep. -/
theorem SurfacedAt.note (h : d.SurfacedAt i) (hmode : d.settings.mode = .strict) {deed : Deed}
    (hd : deed.KeepsStrict) :
    (d.note deed).SurfacedAt i ∧ (d.note deed).settings.mode = .strict := by
  cases deed with
  | allocate k capacity =>
    refine ⟨h.allocate hmode capacity, ?_⟩
    simp only [Docket.note, Docket.allocate, beforeAllocation]
    split <;> exact hmode
  | resize j _ | release j | releaseShared j | drop j => exact ⟨h.amend j _, hmode⟩
  | sweep k => exact hd.elim
  | settle k => exact ⟨h.map fun c hc => Case.surfaced_settle hc, hmode⟩
  | configure k settings => exact ⟨h, hd⟩

theorem SurfacedAt.foldl {deeds : List Deed} (h : d.SurfacedAt i)
    (hmode : d.settings.mode = .strict) (hd : ∀ deed ∈ deeds, deed.KeepsStrict) :
    (deeds.foldl Docket.note d).SurfacedAt i ∧
      (deeds.foldl Docket.note d).settings.mode = .strict := by
  induction deeds generalizing d with
  | nil => exact ⟨h, hmode⟩
  | cons deed rest ih =>
    obtain ⟨hdeed, hrest⟩ := List.forall_mem_cons.1 hd
    obtain ⟨h', hmode'⟩ := h.note hmode hdeed
    exact ih h' hmode' hrest

theorem SurfacedAt.after {history : List Operation} {w : World} (h : d.SurfacedAt i)
    (hmode : d.settings.mode = .strict) (hops : ∀ op ∈ history, op.KeepsStrict) :
    (d.after w history).SurfacedAt i := by
  induction history generalizing d w with
  | nil => exact h
  | cons op rest ih =>
    obtain ⟨hop, hrest⟩ := List.forall_mem_cons.1 hops
    obtain ⟨h', hmode'⟩ := h.foldl hmode (hop.enacted w)
    exact ih h' hmode' hrest

theorem after_append (d : Docket) (w : World) (before between : List Operation) :
    d.after w (before ++ between) = (d.after w before).after (w.after before) between := by
  induction before generalizing d w with
  | nil => rfl
  | cons op rest ih => exact ih _ _

end Docket

namespace World

variable {w : World} {detector : Detector}

/-! ## Answers -/

/-- What a check of the only detector comes to. -/
theorem run_check_of_single (hdet : w.detectors = [detector]) :
    (Operation.check 0).run w =
      (match detector.complaint with
        | some leak => .failed (.memoryLeak leak)
        | none => .done (.answer (.count detector.due.length)), w.swept 0 Detector.settled) :=
  Operation.run_check_of_some (by rw [hdet]; rfl)

/-- A check behind a check finds nothing. -/
theorem run_check_again (hdet : w.detectors = [detector]) :
    ((Operation.check 0).run ((Operation.check 0).run w).2).1 = .done (.answer (.count 0)) := by
  have hget : w.detectors[0]? = some detector := by rw [hdet]; rfl
  have hafter : ((Operation.check 0).run w).2.detectors = [detector.settled] := by
    rw [run_check_of_single hdet, swept_of_some hget, hdet]
    rfl
  have hnone : detector.settled.complaint = none := by
    simp only [Detector.complaint, Detector.due_settled]
    split <;> rfl
  rw [run_check_of_single hafter, hnone, Detector.due_settled]
  rfl

/-- A sweep answers what it finds. -/
theorem run_sweep_of_single (hdet : w.detectors = [detector]) :
    ((Operation.sweep 0).run w).1 = .done (.leaks detector.leaks) := by
  have hget : w.detectors[0]? = some detector := by rw [hdet]; rfl
  rw [Operation.run_sweep_of_some hget]

/-- **What a check finds.** Over any history of one detector, compare the detector with the docket
of the history, which says what found each leak first:

* what is due to a check are exactly the leaks, which are the tracked allocations whose owner went
  away without a release, that no check found before, no sweep on request, and no periodic sweep in
  log mode; a sweep on request answers what nothing found before it;
* in log mode, a check counts what is due;
* in strict mode it counts nothing iff nothing is due, and otherwise it fails with one of the leaks
  that are due, which is from the earliest of the periodic sweeps that left any;
* a check right behind a check counts nothing;
* once the mode is strict, and as long as it stays strict and nobody asks for a sweep, every leak
  whose owner goes away is due until a check finds it, whatever is allocated in between. -/
theorem check_finds_due (settings : LeakSettings) (history : List Operation) :
    let w := (start [settings]).after history
    let d := (Docket.start settings).after (start [settings]) history
    let check := (Operation.check 0).run w
    (d.ledger = (Ledger.start settings).after (start [settings]) history ∧
      ∃ detector, w.detectors = [detector] ∧ detector.settings = d.settings ∧
        detector.due.Perm d.due) ∧
    (∃ found, ((Operation.sweep 0).run w).1 = .done (.leaks found) ∧ found.Perm d.unfound) ∧
    (d.settings.mode = .log → check.1 = .done (.answer (.count d.due.length))) ∧
    (d.settings.mode = .strict →
      (check.1 = .done (.answer (.count 0)) ↔ d.due = []) ∧
      (d.due ≠ [] → ∃ c ∈ d.cases, c.due = true ∧ check.1 = .failed (.memoryLeak c.page.leak) ∧
        ∀ c' ∈ d.cases, ∀ n', c'.finder = some (.periodic .strict n') →
          ∃ n, c.finder = some (.periodic .strict n) ∧ n ≤ n')) ∧
    ((Operation.check 0).run check.2).1 = .done (.answer (.count 0)) ∧
    ∀ before between, history = before ++ between →
      let d₁ := (Docket.start settings).after (start [settings]) before
      d₁.settings.mode = .strict → (∀ op ∈ between, op.KeepsStrict) →
      ∀ (i : Nat) (c : Case), d.cases[i]? = some c → c.isLeak = true →
        (∀ c₁, d₁.cases[i]? = some c₁ → c₁.page.dropped = false) →
        c.due = true ∨ c.finder = some .check := by
  intro w d check
  have hstart := sound_start [settings]
  have h : d.Describes w := (Docket.Describes.start settings).after hstart history
  obtain ⟨pending, hdet, hretains⟩ := h.pending
  have hperm := hretains.due_perm h.orderly
  have hcheck : check = _ := run_check_of_single hdet
  have hmode : (d.ledger.detector pending).settings.mode = d.settings.mode := rfl
  refine ⟨⟨?_, _, hdet, rfl, hperm⟩, ⟨_, run_sweep_of_single hdet, ?_⟩, ?_, ?_,
    run_check_again hdet, ?_⟩
  · exact Docket.ledger_after _ _ _
  · rw [h.orderly.unfound_eq, Ledger.leaks_detector]
  · intro hlog
    rw [hcheck, Detector.complaint, hmode, hlog, hperm.length_eq]
  · intro hstrict
    have hcomplaint : (d.ledger.detector pending).complaint =
        (d.ledger.detector pending).due.head? := by
      rw [Detector.complaint, hmode, hstrict]
    have hfails : d.due ≠ [] → ∃ c ∈ d.cases, c.due = true ∧
        check.1 = .failed (.memoryLeak c.page.leak) ∧
        ∀ c' ∈ d.cases, ∀ n', c'.finder = some (.periodic .strict n') →
          ∃ n, c.finder = some (.periodic .strict n) ∧ n ≤ n' := by
      intro hne
      obtain ⟨c, hc, hdue, hhead, hfirst⟩ := hretains.first_due h.orderly hne
      refine ⟨c, hc, hdue, ?_, hfirst⟩
      rw [hcheck, hcomplaint, hhead]
    refine ⟨⟨fun hzero => ?_, fun hnil => ?_⟩, hfails⟩
    · by_contra hne
      obtain ⟨c, -, -, hfailed, -⟩ := hfails hne
      rw [hzero] at hfailed
      cases hfailed
    · rw [hnil] at hperm
      rw [hcheck, hcomplaint, hperm.eq_nil]
      rfl
  · intro before between hsplit d₁ hstrict hops i c hc hl hlater
    have h₁ : d₁.Describes ((start [settings]).after before) :=
      (Docket.Describes.start settings).after hstart before
    -- what did not go away yet was not found either
    have hsurfaced : d₁.SurfacedAt i := by
      intro c₁ hc₁
      have hfound := (h₁.orderly c₁ (List.mem_of_getElem? hc₁)).found
      have hnone : c₁.finder = none := by simpa [Page.leaked, hlater c₁ hc₁] using hfound
      simp [Case.surfaced, hnone]
    have hafter : d = d₁.after ((start [settings]).after before) between := by
      simp only [d, d₁, hsplit, Docket.after_append]
    exact Case.due_or_checked (hsurfaced.after hstrict hops c (hafter ▸ hc)) hl

/-- An owner that goes away in strict mode is due, and the next check fails with it. -/
theorem check_finds_due_dropped :
    let settings : LeakSettings := ⟨true, false, .strict⟩
    let history : List Operation := [.allocate 0 8, .drop (.owner 0)]
    let d := (Docket.start settings).after (start [settings]) history
    (∃ c, d.cases[0]? = some c ∧ (c.due = true ∨ c.finder = some .check)) ∧
      ((Operation.check 0).run ((start [settings]).after history)).1 =
        .failed (.memoryLeak ⟨0, 8, false⟩) := by
  intro settings history d
  have hfinds := check_finds_due settings history
  have hcase : d.cases = [⟨⟨settings, 0, 8, false, false, true, false⟩, none⟩] := by decide
  constructor
  · refine ⟨_, by rw [hcase]; rfl, ?_⟩
    exact hfinds.2.2.2.2.2 [.allocate 0 8] [.drop (.owner 0)] rfl rfl
      (List.forall_mem_singleton.2 trivial) 0 _ (by decide) (by decide) (by decide)
  · obtain ⟨c, hc, -, hfailed, -⟩ := (hfinds.2.2.2.1 rfl).2 (by decide)
    obtain rfl := List.mem_singleton.1 (hcase ▸ hc)
    exact hfailed

end World

end PacketMemory
