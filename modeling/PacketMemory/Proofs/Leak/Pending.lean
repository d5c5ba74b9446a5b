import PacketMemory.Proofs.Leak.Docket

/-!
# What is left for the next check

The pending leaks of a detector are those that the docket has from periodic sweeps in strict mode,
in the order of these sweeps (`Docket.Retains`). A docket that agrees with a world in this, and whose
ledger describes the world, `Describes` it.

Main statement: the docket of a history describes the world that the history leads to
(`Docket.Describes.after`). As with ledgers, there is one lemma per deed behind it, and each of them
says what becomes of the cases and of the pending leaks.
-/

namespace PacketMemory

namespace Docket

variable {d : Docket} {w w' : World} {c : Case} {finder : Finder} {i : Nat} {f : Page → Page}
variable {pending : List Leak}

/-! ## Cases stay in order -/

theorem tracked_sweep (d : Docket) (finder : Finder) :
    (d.sweep finder).ledger.tracked = d.ledger.tracked := by
  rw [ledger_sweep, Ledger.tracked_sweep]

theorem tracked_beforeAllocation (d : Docket) :
    d.beforeAllocation.ledger.tracked = d.ledger.tracked := by
  rw [ledger_beforeAllocation, Ledger.tracked_beforeAllocation]

theorem Orderly.sweep (h : d.Orderly)
    (hfinder : ∀ mode n, finder = .periodic mode n → n ≤ d.ledger.tracked) :
    (d.sweep finder).Orderly := by
  intro c' hc'
  obtain ⟨c, hc, rfl⟩ := List.mem_map.1 hc'
  rw [tracked_sweep]
  exact (h c hc).sweep hfinder

theorem Orderly.settle (h : d.Orderly) : d.settle.Orderly := by
  intro c' hc'
  obtain ⟨c, hc, rfl⟩ := List.mem_map.1 hc'
  rw [ledger_settle, Ledger.tracked_sweep]
  exact (h c hc).settle

theorem Orderly.beforeAllocation (h : d.Orderly) : d.beforeAllocation.Orderly := by
  simp only [Docket.beforeAllocation]
  split
  · refine h.sweep fun mode n hf => ?_
    cases hf
    exact Nat.le_refl _
  · exact h

theorem Orderly.allocate (h : d.Orderly) (capacity : Nat) : (d.allocate capacity).Orderly := by
  have htracked : d.ledger.tracked ≤ (d.allocate capacity).ledger.tracked := by
    rw [ledger_allocate, Ledger.allocate, Ledger.tracked_append, Ledger.tracked_beforeAllocation]
    omega
  intro c hc
  rcases List.mem_append.1 hc with hc | hc
  · have hbefore := h.beforeAllocation c hc
    rw [tracked_beforeAllocation] at hbefore
    exact hbefore.mono htracked
  · obtain rfl := List.mem_singleton.1 hc
    exact ⟨by simp [Page.new, Page.leaked], by rintro _ _ ⟨⟩⟩

/-- A page in the docket that something happens to before its owner goes away, or as it does. -/
theorem Orderly.amend (h : d.Orderly) (hi : d.cases[i]? = some c) (hin : c.page.dropped = false)
    (htracked : (f c.page).tracked = c.page.tracked) (hnumber : (f c.page).number = c.page.number)
    (hleaked : (f c.page).leaked = false) : (d.amend i f).Orderly := by
  have hpage : d.ledger.pages[i]? = some c.page := by
    simp [ledger, hi]
  intro c' hc'
  rw [ledger_amend, Ledger.tracked_amend hpage htracked hnumber]
  obtain ⟨j, hj⟩ := List.mem_iff_getElem?.1 hc'
  simp only [Docket.amend, List.getElem?_modify] at hj
  obtain ⟨c₀, hc₀, rfl⟩ := Option.map_eq_some_iff.1 hj
  by_cases hij : i = j
  · subst hij
    obtain rfl : c = c₀ := Option.some.inj (hi.symm.trans hc₀)
    have hfinder : c.finder = none := by
      have hfound := (h c (List.mem_of_getElem? hi)).found
      simpa [Page.leaked, hin] using hfound
    simpa using Case.Orderly.of_not_leaked hfinder hleaked
  · simpa [hij] using h c₀ (List.mem_of_getElem? hc₀)

/-! ## Pending leaks -/

/-- These are the leaks that are left for the next check, in the order of the sweeps. -/
def Retains (d : Docket) (pending : List Leak) : Prop :=
  ∃ kept : List (Nat × Leak), pending = kept.map Prod.snd ∧
    kept.Perm (d.cases.filterMap Case.kept?) ∧ kept.Pairwise fun a b => a.1 ≤ b.1

theorem Retains.of_kept (h : d.Retains pending) {d' : Docket}
    (hkept : d'.cases.filterMap Case.kept? = d.cases.filterMap Case.kept?) :
    d'.Retains pending := by
  obtain ⟨kept, hp, hperm, hsorted⟩ := h
  exact ⟨kept, hp, hkept ▸ hperm, hsorted⟩

/-- A sweep that keeps nothing for a check leaves alone what is pending. -/
theorem Retains.sweep (h : d.Retains pending) (hfinder : finder.keeps = false) :
    (d.sweep finder).Retains pending := by
  refine h.of_kept ?_
  simp only [Docket.sweep, List.filterMap_map]
  exact List.filterMap_congr fun c _ => Case.kept?_sweep hfinder

/-- What a sweep finds, case by case. -/
theorem found_ledger (d : Docket) :
    d.ledger.pages.filterMap Page.found? = d.cases.filterMap fun c => c.page.found? := by
  simp [ledger, List.filterMap_map]

/-- What a periodic sweep in strict mode finds comes behind what is left already. -/
theorem Retains.sweep_strict (h : d.Retains pending) (ho : d.Orderly) :
    (d.sweep (.periodic .strict d.ledger.tracked)).Retains
      (pending ++ d.ledger.pages.filterMap Page.found?) := by
  obtain ⟨kept, rfl, hperm, hsorted⟩ := h
  refine ⟨kept ++ (d.ledger.pages.filterMap Page.found?).map fun leak => (d.ledger.tracked, leak),
    ?_, ?_, ?_⟩
  · simp [Function.comp_def]
  · rw [found_ledger, List.map_filterMap]
    have hone : ∀ c ∈ d.cases, c.kept? = none ∨
        (c.page.found?.map fun leak => (d.ledger.tracked, leak)) = none := fun c hc =>
      (Case.kept?_or_found?_none (ho c hc).found).imp id fun h => by rw [h]; rfl
    refine (hperm.append_right _).trans ((filterMap_or_perm hone).trans (.of_eq ?_))
    simp only [Docket.sweep, List.filterMap_map]
    exact List.filterMap_congr fun c hc => (Case.kept?_sweep_strict (ho c hc).found _).symm
  · refine List.pairwise_append.2 ⟨hsorted, ?_, ?_⟩
    · exact List.pairwise_map.2 (List.pairwise_of_forall fun _ _ => Nat.le_refl _)
    -- no sweep before was later than this one
    · rintro ⟨n, leak⟩ ha b hb
      obtain ⟨_, -, rfl⟩ := List.mem_map.1 hb
      obtain ⟨c, hc, hk⟩ := List.mem_filterMap.1 (hperm.mem_iff.1 ha)
      exact (ho c hc).early .strict n (Case.kept?_eq_some_iff.1 hk).1

/-- Behind a check, nothing is left. -/
theorem Retains.settle (ho : d.Orderly) : d.settle.Retains [] := by
  refine ⟨[], rfl, ?_, .nil⟩
  have hnone : d.settle.cases.filterMap Case.kept? = [] := by
    simp only [Docket.settle, List.filterMap_map, List.filterMap_eq_nil_iff]
    exact fun c hc => Case.kept?_settle (ho c hc).found
  rw [hnone]

theorem Retains.beforeAllocation (h : d.Retains pending) (ho : d.Orderly) :
    d.beforeAllocation.Retains (pending ++ d.ledger.left) := by
  have hsettings : d.ledger.settings = d.settings := rfl
  simp only [Docket.beforeAllocation, Ledger.left, hsettings]
  cases hdue : d.settings.enabled && d.ledger.sweepDue with
  | false => simpa using h
  | true =>
    cases hmode : d.settings.mode with
    | log =>
      have hkeeps : Finder.keeps (.periodic .log d.ledger.tracked) = false := rfl
      simpa using h.sweep hkeeps
    | strict => simpa using h.sweep_strict ho

/-- An allocation leaves for a check what the sweep in front of it found. -/
theorem Retains.allocate (h : d.Retains pending) (ho : d.Orderly) (capacity : Nat) :
    (d.allocate capacity).Retains (pending ++ d.ledger.left) := by
  refine (h.beforeAllocation ho).of_kept ?_
  simp [Docket.allocate, Case.kept?]

/-- Nothing is left for a check of an owner that did not go away yet. -/
theorem Retains.amend (h : d.Retains pending) (ho : d.Orderly) (hi : d.cases[i]? = some c)
    (hin : c.page.dropped = false) : (d.amend i f).Retains pending := by
  refine h.of_kept (filterMap_modify (fun c' hc' => ?_) fun _ _ _ _ => rfl)
  obtain rfl : c = c' := Option.some.inj (hi.symm.trans hc')
  have hfound := (ho c (List.mem_of_getElem? hi)).found
  have hfinder : c.finder = none := by simpa [Page.leaked, hin] using hfound
  simp [Case.kept?, hfinder]

end Docket

/-! ## Deeds and pending leaks -/

/-- What is pending after a deed. -/
def Ledger.pendingAfter (l : Ledger) (pending : List Leak) : Deed → List Leak
  | .allocate _ _ => pending ++ l.left
  | .settle _ => []
  | _ => pending

namespace World

variable {w : World} {l : Ledger} {pending : List Leak}

/-- Amending a record leaves alone what is pending. -/
theorem pendings_amended (o : Owner) {g : Detector → Nat → Detector}
    (hg : ∀ detector n, (g detector n).pending = detector.pending) :
    (w.amended o g).detectors.map Detector.pending = w.detectors.map Detector.pending := by
  simp only [amended, onDetector]
  split
  · rfl
  · next n _ =>
    split
    · rfl
    · next detector hd =>
      obtain ⟨hlt, rfl⟩ := List.getElem?_eq_some_iff.1 hd
      simp only [List.map_set, hg]
      rw [← List.map_set, List.set_getElem_self]

theorem pendings_onOwner {i : Nat} {f : Owner → World}
    (hf : ∀ o, (f o).detectors.map Detector.pending = w.detectors.map Detector.pending) :
    (w.onOwner i f).detectors.map Detector.pending = w.detectors.map Detector.pending := by
  simp only [onOwner]
  split
  · rfl
  · exact hf _

/-- What a deed leaves pending with the only detector. -/
theorem pendings_enact (hdet : w.detectors = [l.detector pending]) {deed : Deed}
    (hd : deed.Allowed w) :
    (deed.enact w).detectors.map Detector.pending = [l.pendingAfter pending deed] := by
  have hsame : w.detectors.map Detector.pending = [pending] := by rw [hdet]; rfl
  -- deeds on the detector itself can only be about this one
  have honly : ∀ {k : Nat} {f : Detector → World}, k < w.detectors.length →
      k = 0 ∧ w.onDetector k f = f (l.detector pending) := by
    intro k f hk
    obtain rfl : k = 0 := by simpa [hdet] using hk
    exact ⟨rfl, onDetector_of_some (by rw [hdet]; rfl) f⟩
  cases deed with
  | allocate k capacity =>
    obtain ⟨rfl, hworld⟩ := honly hd.1
    simp only [Deed.enact, allocated]
    rw [hworld]
    simp only [l.track_detector, hdet]
    rfl
  | resize i capacity =>
    refine (pendings_onOwner fun o => ?_).trans hsame
    exact pendings_amended (g := fun detector n => detector.resize n capacity) o fun _ _ => rfl
  | release i =>
    refine (pendings_onOwner fun o => ?_).trans hsame
    exact pendings_amended (g := Detector.forget) o fun _ _ => rfl
  | releaseShared i =>
    refine (pendings_onOwner fun o => ?_).trans hsame
    rfl
  | drop i =>
    refine (pendings_onOwner fun o => ?_).trans hsame
    refine pendings_amended o fun detector n => ?_
    split <;> rfl
  | sweep k | settle k | configure k settings =>
    obtain ⟨rfl, hworld⟩ := honly hd
    simp only [Deed.enact, swept, configured]
    rw [hworld, hdet]
    rfl

end World

namespace Docket

variable {d : Docket} {w w' : World}

/-! ## The docket keeps up with the world -/

/-- The docket agrees with the world in all that concerns ownership and leaks. -/
structure Describes (d : Docket) (w : World) : Prop where
  ledger : d.ledger.Describes w
  orderly : d.Orderly
  pending : ∃ pending, w.detectors = [d.ledger.detector pending] ∧ d.Retains pending

theorem Describes.start (settings : LeakSettings) :
    (start settings).Describes (World.start [settings]) :=
  ⟨.start settings, nofun, [], rfl, [], rfl, .refl _, .nil⟩

/-- The case of an owner in use. -/
theorem Describes.case_inUse (h : d.Describes w) {i : Nat} {o : Owner}
    (ho : w.owner? i = some o) : ∃ c, d.cases[i]? = some c ∧ c.page.dropped = false := by
  obtain ⟨p, hp, -, hin⟩ := h.ledger.page_inUse ho
  simp only [Docket.ledger, List.getElem?_map] at hp
  obtain ⟨c, hc, rfl⟩ := Option.map_eq_some_iff.1 hp
  exact ⟨c, hc, hin⟩

/-- **The docket notes what happens.** -/
theorem Describes.note (h : d.Describes w) (hw : w.Sound) {deed : Deed} (hd : deed.Allowed w) :
    (d.note deed).Describes (deed.enact w) := by
  have hledger : (d.note deed).ledger.Describes (deed.enact w) := by
    rw [ledger_note]
    exact h.ledger.note hw hd
  obtain ⟨pending, hdet, hretains⟩ := h.pending
  have ho := h.orderly
  -- the cases, and what they say is left
  have hcases : (d.note deed).Orderly ∧
      (d.note deed).Retains (d.ledger.pendingAfter pending deed) := by
    cases deed with
    | allocate k capacity => exact ⟨ho.allocate capacity, hretains.allocate ho capacity⟩
    | resize i capacity =>
      obtain ⟨o, hi, -⟩ := hd
      obtain ⟨c, hc, hin⟩ := h.case_inUse hi
      exact ⟨ho.amend hc hin rfl rfl (by simp [Page.leaked, hin]), hretains.amend ho hc hin⟩
    | release i =>
      obtain ⟨o, hi, -⟩ := hd
      obtain ⟨c, hc, hin⟩ := h.case_inUse hi
      exact ⟨ho.amend hc hin rfl rfl (by simp [Page.leaked]), hretains.amend ho hc hin⟩
    | releaseShared i =>
      obtain ⟨o, hi⟩ := hd
      obtain ⟨c, hc, hin⟩ := h.case_inUse hi
      exact ⟨ho.amend hc hin rfl rfl (by simp [Page.leaked]), hretains.amend ho hc hin⟩
    | drop i =>
      obtain ⟨o, hi, -⟩ := hd
      obtain ⟨c, hc, hin⟩ := h.case_inUse hi
      exact ⟨ho.amend hc hin rfl rfl (by simp [Page.leaked]), hretains.amend ho hc hin⟩
    | sweep k => exact ⟨ho.sweep (by rintro _ _ ⟨⟩), hretains.sweep rfl⟩
    | settle k => exact ⟨ho.settle, .settle ho⟩
    | configure k settings => exact ⟨ho, hretains⟩
  obtain ⟨pending', hdet'⟩ := hledger.detectors
  have hpending := World.pendings_enact hdet hd
  rw [hdet'] at hpending
  obtain rfl : pending' = d.ledger.pendingAfter pending deed := List.singleton_inj.1 hpending
  exact ⟨hledger, hcases.1, _, hdet', hcases.2⟩

theorem Describes.alike (h : d.Describes w) (ha : w.Alike w') : d.Describes w' := by
  obtain ⟨pending, hdet, hretains⟩ := h.pending
  exact ⟨h.ledger.alike ha, h.orderly, pending, ha.detectors.trans hdet, hretains⟩

/-- Deed by deed, the docket keeps up. -/
theorem Describes.enacts {deeds : List Deed} (he : w.Enacts deeds w') :
    ∀ {d : Docket}, d.Describes w → w.Sound → (deeds.foldl Docket.note d).Describes w' := by
  induction he with
  | alike ha => exact fun h _ => h.alike ha
  | deed deed hd _ ih => exact fun h hw => ih (h.note hw hd) (hw.enact hd)

/-- **The docket of a history describes the world that the history leads to.** -/
theorem Describes.after (h : d.Describes w) (hw : w.Sound) (history : List Operation) :
    (d.after w history).Describes (w.after history) := by
  induction history generalizing d w with
  | nil => exact h
  | cons op rest ih =>
    have hrun := hw.run op
    exact ih (Describes.enacts hrun.enacts h hw) hrun.sound

end Docket

end PacketMemory
