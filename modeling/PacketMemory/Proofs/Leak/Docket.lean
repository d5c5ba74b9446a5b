import PacketMemory.Proofs.Leak.Accounting

/-!
# A docket of leaks

A ledger says which allocations are leaks, but not who found them. The docket is a ledger with a
note on every leak about that: the first sweep behind the end of the owner finds it, and this is a
sweep on request, a check, or one of the periodic sweeps of allocations. What a periodic sweep finds
in strict mode is left for the next check, which then counts as the one that found it.

* `Case.due` — the leak is one that the next check has to find.
* `Docket.after` is the docket of a history. Like a ledger, it is kept by an onlooker who sees the
  deeds only, and its pages are those of the ledger (`Docket.ledger_after`).
* `Case.Orderly` — exactly the leaks that a sweep ran behind have a finder.
-/

namespace PacketMemory

/-- What found a leak. -/
inductive Finder where
  /-- a sweep on request -/
  | request
  /-- a check -/
  | check
  /-- a periodic sweep in this mode, when so many allocations had been tracked -/
  | periodic (mode : ReportMode) (tracked : Nat)
  deriving DecidableEq, Repr

/-- The leak is left for the next check. -/
def Finder.keeps : Finder → Bool
  | periodic .strict _ => true
  | request | check | periodic .log _ => false

/-- The page of an allocation, and what found it to be a leak, if anything did. -/
structure Case where
  page : Page
  finder : Option Finder
  deriving DecidableEq, Repr

namespace Case

/-- A tracked allocation whose owner went away without a release. -/
def isLeak (c : Case) : Bool := c.page.tracked && c.page.dropped && !c.page.released

/-- A leak that no check found yet, no sweep on request, and no periodic sweep in log mode. -/
def due (c : Case) : Bool := c.isLeak && c.finder.all Finder.keeps

/-- A leak that a periodic sweep in strict mode found and no check since, and when. -/
def kept? (c : Case) : Option (Nat × Leak) :=
  match c.finder with
  | some (.periodic .strict tracked) => some (tracked, c.page.leak)
  | _ => none

/-- A sweep runs; what was found before is not found again. -/
def sweep (finder : Finder) (c : Case) : Case :=
  ⟨c.page.sweep, c.finder.or (if c.isLeak then some finder else none)⟩

/-- A check runs. -/
def settle (c : Case) : Case := ⟨c.page.sweep, if c.due then some .check else c.finder⟩

/-- A leak has a finder as soon as a sweep ran behind it, and nothing else has. No periodic sweep
that found it was later than so many tracked allocations. -/
structure Orderly (tracked : Nat) (c : Case) : Prop where
  found : c.finder.isSome = c.page.leaked
  early : ∀ mode n, c.finder = some (.periodic mode n) → n ≤ tracked

end Case

/-- Cases of all allocations, oldest first, and the settings in force. -/
structure Docket where
  settings : LeakSettings
  cases : List Case
  deriving DecidableEq, Repr

namespace Docket

/-- Nothing was allocated yet. -/
def start (settings : LeakSettings) : Docket := ⟨settings, []⟩

/-- The docket without the finders. -/
def ledger (d : Docket) : Ledger := ⟨d.settings, d.cases.map Case.page⟩

/-- The leaks that a check would find now. -/
def due (d : Docket) : List Leak := (d.cases.filter Case.due).map fun c => c.page.leak

/-- The leaks that nothing has found yet. -/
def unfound (d : Docket) : List Leak :=
  (d.cases.filter fun c => c.isLeak && c.finder.isNone).map fun c => c.page.leak

/-- A sweep runs. -/
def sweep (d : Docket) (finder : Finder) : Docket :=
  { d with cases := d.cases.map (Case.sweep finder) }

/-- A check runs. -/
def settle (d : Docket) : Docket := { d with cases := d.cases.map Case.settle }

/-- Something happens to one allocation. -/
def amend (d : Docket) (i : Nat) (f : Page → Page) : Docket :=
  { d with cases := d.cases.modify i fun c => { c with page := f c.page } }

/-- The docket when the detector gets to know of a new allocation. -/
def beforeAllocation (d : Docket) : Docket :=
  if d.settings.enabled && d.ledger.sweepDue then
    d.sweep (.periodic d.settings.mode d.ledger.tracked)
  else
    d

/-- Note an allocation. -/
def allocate (d : Docket) (capacity : Nat) : Docket :=
  { d.beforeAllocation with
    cases := d.beforeAllocation.cases ++ [⟨Page.new d.settings d.ledger.tracked capacity, none⟩] }

/-- Note a deed. -/
def note (d : Docket) : Deed → Docket
  | .allocate _ capacity => d.allocate capacity
  | .resize i capacity => d.amend i fun p => { p with capacity := capacity }
  | .release i => d.amend i fun p => { p with returned := true, released := true }
  | .releaseShared i => d.amend i fun p => { p with released := true }
  | .drop i => d.amend i fun p => { p with dropped := true, swept := false }
  | .sweep _ => d.sweep .request
  | .settle _ => d.settle
  | .configure _ settings => { d with settings := settings }

/-- The docket after a history that starts in `w`. -/
def after (d : Docket) (w : World) : List Operation → Docket
  | [] => d
  | op :: rest => ((op.enacted w).foldl note d).after (op.run w).2 rest

/-- Every case is in order. -/
def Orderly (d : Docket) : Prop := ∀ c ∈ d.cases, c.Orderly d.ledger.tracked

variable {d : Docket}

/-! ## The ledger inside -/

theorem ledger_sweep (d : Docket) (finder : Finder) : (d.sweep finder).ledger = d.ledger.sweep := by
  simp [ledger, sweep, Ledger.sweep, Function.comp_def, Case.sweep]

theorem ledger_settle (d : Docket) : d.settle.ledger = d.ledger.sweep := by
  simp [ledger, settle, Ledger.sweep, Function.comp_def, Case.settle]

theorem ledger_amend (d : Docket) (i : Nat) (f : Page → Page) :
    (d.amend i f).ledger = d.ledger.amend i f := by
  simp only [ledger, amend, Ledger.amend, Ledger.mk.injEq, true_and]
  refine List.ext_getElem? fun j => ?_
  simp only [List.getElem?_map, List.getElem?_modify]
  cases d.cases[j]? with
  | none => rfl
  | some c => by_cases hij : i = j <;> simp [hij]

theorem ledger_beforeAllocation (d : Docket) :
    d.beforeAllocation.ledger = d.ledger.beforeAllocation := by
  simp only [beforeAllocation, Ledger.beforeAllocation]
  rw [show d.ledger.settings = d.settings from rfl]
  split
  · exact d.ledger_sweep _
  · rfl

theorem ledger_allocate (d : Docket) (capacity : Nat) :
    (d.allocate capacity).ledger = d.ledger.allocate capacity := by
  simp only [allocate, Ledger.allocate, ← ledger_beforeAllocation]
  simp [ledger]

theorem ledger_note (d : Docket) (deed : Deed) : (d.note deed).ledger = d.ledger.note deed := by
  cases deed with
  | allocate _ capacity => exact d.ledger_allocate capacity
  | resize i _ | release i | releaseShared i | drop i => exact d.ledger_amend i _
  | sweep _ => exact d.ledger_sweep .request
  | settle _ => exact d.ledger_settle
  | configure _ settings => rfl

theorem ledger_foldl (deeds : List Deed) (d : Docket) :
    (deeds.foldl note d).ledger = deeds.foldl Ledger.note d.ledger := by
  induction deeds generalizing d with
  | nil => rfl
  | cons deed rest ih => rw [List.foldl_cons, ih, ledger_note, List.foldl_cons]

/-- The docket of a history is about the pages of its ledger. -/
theorem ledger_after (d : Docket) (w : World) (history : List Operation) :
    (d.after w history).ledger = d.ledger.after w history := by
  induction history generalizing d w with
  | nil => rfl
  | cons op rest ih => rw [after, ih, ledger_foldl, Ledger.after]

end Docket

/-! ## What a sweep does to a case -/

namespace Case

variable {c : Case} {finder : Finder}

theorem leaked_page (c : Case) : c.page.leaked = (c.isLeak && c.page.swept) := rfl

/-- Behind a sweep, every leak is found. -/
theorem leaked_page_sweep (c : Case) : c.page.sweep.leaked = c.isLeak := by
  simp only [Page.leaked, Page.sweep, isLeak, Page.tracked]
  cases c.page.dropped <;> simp

theorem isLeak_of_finder (hc : c.finder.isSome = c.page.leaked) (hf : c.finder.isSome = true) :
    c.isLeak = true := by
  rw [hc, leaked_page, Bool.and_eq_true] at hf
  exact hf.1

/-- What a sweep finds is what has no finder yet. -/
theorem found?_page (hc : c.finder.isSome = c.page.leaked) :
    c.page.found? = if c.isLeak && c.finder.isNone then some c.page.leak else none := by
  have hnone : c.finder.isNone = !c.page.leaked := by simp [← hc]
  have hcond : (c.page.tracked && c.page.dropped && !c.page.released && !c.page.swept) =
      (c.isLeak && c.finder.isNone) := by
    rw [hnone, leaked_page, isLeak]
    cases c.page.swept <;> simp
  rw [Page.found?, hcond]

/-! ## Cases stay in order -/

theorem Orderly.mono {tracked more : Nat} (h : c.Orderly tracked) (hle : tracked ≤ more) :
    c.Orderly more :=
  ⟨h.found, fun mode n hf => Nat.le_trans (h.early mode n hf) hle⟩

/-- What is no leak has no finder. -/
theorem Orderly.of_not_leaked {tracked : Nat} {page : Page} (hf : c.finder = none)
    (hp : page.leaked = false) : Orderly tracked { c with page := page } := by
  refine ⟨by simp [hf, hp], fun mode n h => ?_⟩
  rw [hf] at h
  cases h

theorem Orderly.sweep {tracked : Nat} (h : c.Orderly tracked)
    (hfinder : ∀ mode n, finder = .periodic mode n → n ≤ tracked) :
    (c.sweep finder).Orderly tracked := by
  refine ⟨?_, fun mode n hf => ?_⟩
  · simp only [Case.sweep, leaked_page_sweep, Option.isSome_or]
    cases hl : c.isLeak with
    | true => simp
    | false => simp [h.found, leaked_page, hl]
  · rcases Option.or_eq_some_iff.1 hf with hf | ⟨-, hf⟩
    · exact h.early mode n hf
    · obtain ⟨-, hf⟩ := Option.ite_none_right_eq_some.1 hf
      exact hfinder mode n (Option.some.inj hf)

theorem Orderly.settle {tracked : Nat} (h : c.Orderly tracked) : c.settle.Orderly tracked := by
  refine ⟨?_, fun mode n hf => ?_⟩
  · simp only [Case.settle, leaked_page_sweep]
    cases hf : c.finder with
    | none => cases hl : c.isLeak <;> simp [due, hl, hf]
    | some g =>
      have hl : c.isLeak = true := isLeak_of_finder h.found (by simp [hf])
      cases hg : g.keeps <;> simp [due, hl, hf, hg]
  · simp only [Case.settle] at hf
    split at hf
    · cases hf
    · exact h.early mode n hf

/-! ## What is left for a check -/

theorem kept?_eq_some_iff {n : Nat} {leak : Leak} :
    c.kept? = some (n, leak) ↔ c.finder = some (.periodic .strict n) ∧ c.page.leak = leak := by
  simp only [kept?]
  split
  · next n' hf => simp [hf, eq_comm]
  · next hf => simpa using fun h => absurd h (hf n)

/-- A sweep that leaves nothing for a check leaves what is left for it already. -/
theorem kept?_sweep (hfinder : finder.keeps = false) : (c.sweep finder).kept? = c.kept? := by
  cases hf : c.finder with
  | some g => simp [sweep, kept?, hf, Page.sweep, Page.leak]
  | none =>
    cases hl : c.isLeak with
    | false => simp [sweep, kept?, hf, hl]
    | true => cases finder with
      | request | check => simp [sweep, kept?, hf, hl]
      | periodic mode n => cases mode <;> simp_all [sweep, kept?, Finder.keeps]

/-- A sweep that leaves for a check what it finds. -/
theorem kept?_sweep_strict (hc : c.finder.isSome = c.page.leaked) (n : Nat) :
    (c.sweep (.periodic .strict n)).kept? = c.kept?.or (c.page.found?.map fun leak => (n, leak)) := by
  rw [found?_page hc]
  cases hf : c.finder with
  | some g => cases hk : c.kept? <;> simp_all [sweep, kept?, Page.sweep, Page.leak]
  | none => cases hl : c.isLeak <;> simp [sweep, kept?, hf, hl, Page.sweep, Page.leak]

/-- Nothing is left for another check. -/
theorem kept?_settle (hc : c.finder.isSome = c.page.leaked) : c.settle.kept? = none := by
  cases hf : c.finder with
  | none => cases hd : c.due <;> simp [settle, kept?, hf, hd]
  | some g =>
    have hl : c.isLeak = true := isLeak_of_finder hc (by simp [hf])
    cases g with
    | request | check => simp [settle, kept?, hf, due, hl, Finder.keeps]
    | periodic mode n => cases mode <;> simp [settle, kept?, hf, due, hl, Finder.keeps]

/-- What is left for a check has a finder, so no sweep finds it again. -/
theorem kept?_or_found?_none (hc : c.finder.isSome = c.page.leaked) :
    c.kept? = none ∨ c.page.found? = none := by
  rw [found?_page hc]
  cases hf : c.finder <;> simp [kept?, hf]

/-- A check finds what is left for it and what its own sweep finds. -/
theorem due_eq (hc : c.finder.isSome = c.page.leaked) :
    (if c.due then some c.page.leak else none) = (c.kept?.map Prod.snd).or c.page.found? := by
  rw [found?_page hc]
  cases hf : c.finder with
  | none => simp [kept?, due, hf]
  | some g =>
    have hl : c.isLeak = true := isLeak_of_finder hc (by simp [hf])
    cases g with
    | request | check => simp [kept?, due, hf, Finder.keeps]
    | periodic mode n => cases mode <;> simp [kept?, due, hf, hl, Finder.keeps]

end Case

end PacketMemory
