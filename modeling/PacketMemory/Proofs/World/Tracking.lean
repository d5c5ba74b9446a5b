import PacketMemory.Proofs.World.Run

/-!
# Tracked owners have records

As long as an owner is tracked, the detector has a record of it that is held and tells its capacity,
and no other owner goes by the same number there (`World.Tracks`). Sweeps keep what is held, and what
happens to the record of one owner leaves the records of others alone, because their numbers differ.
Nothing is recorded yet under the number that a new owner gets (`Detector.Numbered`).

Main statement: this holds after every history (`World.tracks_after`).
-/

namespace PacketMemory

namespace Detector

/-- There is a record of this number, and an owner to it. -/
def Holds (d : Detector) (n : Nat) : Prop :=
  n < d.next ∧ ∃ t ∈ d.records, t.allocation = n ∧ t.held = true

/-- There is a record of this number, and an owner to it, and whatever is recorded under the number
tells this capacity. -/
structure Records (d : Detector) (n capacity : Nat) : Prop where
  holds : d.Holds n
  capacity_eq : ∀ t ∈ d.records, t.allocation = n → t.capacity = capacity

/-- Only numbers that were given to an allocation are recorded. -/
def Numbered (d : Detector) : Prop := ∀ t ∈ d.records, t.allocation < d.next

variable {d : Detector} {n m capacity : Nat} {f : Tracked → Tracked}

/-! ## What an allocation does to the table -/

theorem track_of_disabled (h : d.settings.enabled = false) (capacity : Nat) :
    d.track capacity = ⟨none, [], d⟩ := by
  rw [track, h]
  rfl

/-- The sweep sees the table without the new record. -/
theorem track_of_due (h : d.settings.enabled = true) (hdue : sweepInterval ≤ d.sinceSweep + 1)
    (capacity : Nat) : d.track capacity = ⟨some d.next, d.leaks, { d with
      next := d.next + 1
      sinceSweep := 0
      records := (d.records.filter fun t => t.held) ++
        [⟨d.next, capacity, d.settings.sites, true⟩]
      pending := d.pending ++ if d.settings.mode = .strict then d.leaks else [] }⟩ := by
  rw [track, h, beforeTracking, if_pos hdue]
  rfl

theorem track_of_not_due (h : d.settings.enabled = true) (hdue : d.sinceSweep + 1 < sweepInterval)
    (capacity : Nat) : d.track capacity = ⟨some d.next, [], { d with
      next := d.next + 1
      sinceSweep := d.sinceSweep + 1
      records := d.records ++ [⟨d.next, capacity, d.settings.sites, true⟩] }⟩ := by
  rw [track, h, beforeTracking, if_neg (Nat.not_le.2 hdue)]
  rfl

/-- An allocation enters one record iff detection is on, and at most sweeps before. -/
theorem records_track (d : Detector) (capacity : Nat) :
    if d.settings.enabled then
      (d.track capacity).number = some d.next ∧
        ∃ kept, (kept = d.records ∨ kept = d.records.filter fun t => t.held) ∧
          (d.track capacity).detector.records =
            kept ++ [⟨d.next, capacity, d.settings.sites, true⟩]
    else
      (d.track capacity).number = none ∧ (d.track capacity).detector = d := by
  split
  · next h =>
    rcases Nat.lt_or_ge (d.sinceSweep + 1) sweepInterval with hdue | hdue
    · rw [track_of_not_due h hdue]
      exact ⟨rfl, _, .inl rfl, rfl⟩
    · rw [track_of_due h hdue]
      exact ⟨rfl, _, .inr rfl, rfl⟩
  · next h =>
    rw [track_of_disabled (Bool.eq_false_iff.2 h)]
    exact ⟨rfl, rfl⟩

/-! ## What keeps records -/

theorem Holds.swept (h : d.Holds n) : d.swept.Holds n := by
  obtain ⟨hlt, t, ht, hn, hheld⟩ := h
  exact ⟨hlt, t, List.mem_filter.2 ⟨ht, hheld⟩, hn, hheld⟩

theorem Holds.amend (h : d.Holds n) (hf : ∀ t, (f t).allocation = t.allocation)
    (hheld : n = m → ∀ t, (f t).held = t.held) : (d.amend m f).Holds n := by
  obtain ⟨hlt, t, ht, rfl, hh⟩ := h
  refine ⟨hlt, _, List.mem_map_of_mem ht, ?_⟩
  split
  · next hm => exact ⟨hf t, (hheld hm t).trans hh⟩
  · exact ⟨rfl, hh⟩

theorem Holds.forget (h : d.Holds n) (hne : n ≠ m) : (d.forget m).Holds n := by
  obtain ⟨hlt, t, ht, rfl, hh⟩ := h
  exact ⟨hlt, t, List.mem_filter.2 ⟨ht, by simpa using hne⟩, rfl, hh⟩

theorem Holds.beforeTracking (h : d.Holds n) : d.beforeTracking.2.Holds n := by
  simp only [Detector.beforeTracking]
  split
  · exact h.swept
  · exact h

theorem Holds.track (h : d.Holds n) (capacity : Nat) : (d.track capacity).detector.Holds n := by
  simp only [Detector.track]
  split
  · obtain ⟨hlt, t, ht, hn, hh⟩ := h.beforeTracking
    exact ⟨Nat.lt_succ_of_lt hlt, t, List.mem_append_left _ ht, hn, hh⟩
  · exact h

theorem next_beforeTracking (d : Detector) : d.beforeTracking.2.next = d.next := by
  simp only [beforeTracking]
  split <;> rfl

/-- A sweep before an allocation only removes records. -/
theorem mem_of_mem_beforeTracking {t : Tracked} (ht : t ∈ d.beforeTracking.2.records) :
    t ∈ d.records := by
  simp only [beforeTracking] at ht
  split at ht
  · exact (List.mem_filter.1 ht).1
  · exact ht

/-- A record behind an allocation was there before, or is the new one. -/
theorem mem_records_track {t : Tracked} (ht : t ∈ (d.track capacity).detector.records) :
    t ∈ d.records ∨
      (d.track capacity).detector.next = d.next + 1 ∧ t.allocation = d.next ∧
        t.capacity = capacity := by
  simp only [track] at ht ⊢
  split at ht
  · next he =>
    rw [if_pos he]
    rcases List.mem_append.1 ht with ht | ht
    · exact .inl (mem_of_mem_beforeTracking ht)
    · obtain rfl := List.mem_singleton.1 ht
      exact .inr ⟨congrArg (· + 1) (next_beforeTracking d), next_beforeTracking d, rfl⟩
  · exact .inl ht

/-- A record behind an amendment is one of before, perhaps an amended one. -/
theorem mem_records_amend {t : Tracked} (ht : t ∈ (d.amend m f).records) :
    ∃ t₀ ∈ d.records, t = t₀ ∧ t₀.allocation ≠ m ∨ t = f t₀ ∧ t₀.allocation = m := by
  obtain ⟨t₀, ht₀, rfl⟩ := List.mem_map.1 ht
  refine ⟨t₀, ht₀, ?_⟩
  split
  · next hm => exact .inr ⟨rfl, hm⟩
  · next hm => exact .inl ⟨rfl, hm⟩

/-! ## Numbers that were given -/

theorem Numbered.swept (h : d.Numbered) : d.swept.Numbered :=
  fun t ht => h t (List.mem_filter.1 ht).1

theorem Numbered.forget (h : d.Numbered) (m : Nat) : (d.forget m).Numbered :=
  fun t ht => h t (List.mem_filter.1 ht).1

theorem Numbered.amend (h : d.Numbered) (hf : ∀ t, (f t).allocation = t.allocation) :
    (d.amend m f).Numbered := by
  intro t ht
  obtain ⟨t₀, ht₀, ⟨rfl, -⟩ | ⟨rfl, -⟩⟩ := mem_records_amend ht
  · exact h t ht₀
  · rw [hf]
    exact h t₀ ht₀

theorem next_le_track (d : Detector) (capacity : Nat) :
    d.next ≤ (d.track capacity).detector.next := by
  simp only [track]
  split
  · exact Nat.le_of_lt (Nat.lt_succ_of_le (Nat.le_of_eq (next_beforeTracking d).symm))
  · exact Nat.le_refl _

theorem Numbered.track (h : d.Numbered) (capacity : Nat) :
    (d.track capacity).detector.Numbered := by
  intro t ht
  rcases mem_records_track ht with ht | ⟨hnext, hn, -⟩
  · exact Nat.lt_of_lt_of_le (h t ht) (next_le_track d capacity)
  · rw [hnext, hn]
    exact Nat.lt_succ_self _

/-! ## What keeps the capacity on record -/

theorem Records.swept (h : d.Records n capacity) : d.swept.Records n capacity :=
  ⟨h.holds.swept, fun t ht => h.capacity_eq t (List.mem_filter.1 ht).1⟩

theorem Records.forget (h : d.Records n capacity) (hne : n ≠ m) :
    (d.forget m).Records n capacity :=
  ⟨h.holds.forget hne, fun t ht => h.capacity_eq t (List.mem_filter.1 ht).1⟩

/-- The record of another allocation is amended. -/
theorem Records.amend (h : d.Records n capacity) (hne : n ≠ m)
    (hf : ∀ t, (f t).allocation = t.allocation) : (d.amend m f).Records n capacity := by
  refine ⟨h.holds.amend hf fun hnm => absurd hnm hne, fun t ht hn => ?_⟩
  obtain ⟨t₀, ht₀, ⟨rfl, -⟩ | ⟨rfl, hm⟩⟩ := mem_records_amend ht
  · exact h.capacity_eq t ht₀ hn
  · exact absurd (hn.symm.trans ((hf t₀).trans hm)) hne

/-- A record is kept in step with its owner. -/
theorem Records.resize (h : d.Records n capacity) (other : Nat) :
    (d.resize n other).Records n other := by
  refine ⟨h.holds.amend (fun _ => rfl) fun _ _ => rfl, fun t ht hn => ?_⟩
  obtain ⟨t₀, -, ⟨rfl, hm⟩ | ⟨rfl, -⟩⟩ := mem_records_amend ht
  · exact absurd hn hm
  · rfl

theorem Records.track (h : d.Records n capacity) (other : Nat) :
    (d.track other).detector.Records n capacity := by
  refine ⟨h.holds.track other, fun t ht hn => ?_⟩
  rcases mem_records_track ht with ht | ⟨-, hnext, -⟩
  · exact h.capacity_eq t ht hn
  · exact absurd (hn.symm.trans hnext) (Nat.ne_of_lt h.holds.1)

/-- A new allocation gets the next number, if it is tracked, and is recorded under it. -/
theorem number_track (hd : d.Numbered) (h : (d.track capacity).number = some n) :
    n = d.next ∧ (d.track capacity).detector.Records n capacity := by
  have hholds : n = d.next ∧ (d.track capacity).detector.Holds n := by
    simp only [Detector.track] at h ⊢
    split at h
    · next he =>
      cases h
      rw [if_pos he]
      refine ⟨next_beforeTracking d, Nat.lt_succ_self _, ?_⟩
      exact ⟨_, List.mem_append_right _ List.mem_cons_self, rfl, rfl⟩
    · cases h
  obtain ⟨rfl, hholds⟩ := hholds
  refine ⟨rfl, hholds, fun t ht hn => ?_⟩
  rcases mem_records_track ht with ht | ⟨-, -, hc⟩
  · exact absurd hn (Nat.ne_of_lt (hd t ht))
  · exact hc

end Detector

namespace World

/-- Every tracked owner has a record that tells its capacity, and its number is its own. -/
structure Tracks (w : World) : Prop where
  numbered : ∀ detector ∈ w.detectors, detector.Numbered
  record : ∀ i o n, w.owner? i = some o → o.tracker = some n →
    ∃ detector, w.detectors[o.detector]? = some detector ∧ detector.Records n o.capacity
  apart : ∀ i j o u n, w.owner? i = some o → w.owner? j = some u → o.detector = u.detector →
    o.tracker = some n → u.tracker = some n → i = j

variable {w w' : World} {i j n capacity : Nat} {o o' u : Owner} {d : Nat}
variable {detector detector' : Detector}

/-! ## Changes of the tables -/

theorem Tracks.record_of (h : w.Tracks) (ho : w.owner? i = some o) (hn : o.tracker = some n)
    (hd : w.detectors[o.detector]? = some detector) : detector.Records n o.capacity := by
  obtain ⟨detector', hd', hrecords⟩ := h.record i o n ho hn
  obtain rfl := Option.some.inj (hd.symm.trans hd')
  exact hrecords

theorem Tracks.numbered_set (h : w.Tracks) (hd : w.detectors[d]? = some detector)
    (hkeep : detector.Numbered → detector'.Numbered) :
    ∀ found ∈ w.detectors.set d detector', found.Numbered := by
  intro found hfound
  rcases List.mem_or_eq_of_mem_set hfound with hfound | rfl
  · exact h.numbered found hfound
  · exact hkeep (h.numbered detector (List.mem_of_getElem? hd))

/-- The same owners, as far as tracking goes, and the same detectors. -/
theorem Tracks.of_owners (h : w.Tracks) (hdetectors : w'.detectors = w.detectors)
    (howners : ∀ i u, w'.owner? i = some u → ∃ o, w.owner? i = some o ∧
      u.detector = o.detector ∧ u.tracker = o.tracker ∧ u.capacity = o.capacity) : w'.Tracks := by
  refine ⟨?_, ?_, ?_⟩
  · rw [hdetectors]
    exact h.numbered
  · intro i u n hu hn
    obtain ⟨o, ho, hdet, htracker, hcapacity⟩ := howners i u hu
    rw [hdetectors, hdet, hcapacity]
    exact h.record i o n ho (htracker ▸ hn)
  · intro i j u u' n hu hu' hdet hn hn'
    obtain ⟨o, ho, hd, ht, -⟩ := howners i u hu
    obtain ⟨o', ho', hd', ht', -⟩ := howners j u' hu'
    exact h.apart i j o o' n ho ho' (by rw [← hd, ← hd', hdet]) (ht ▸ hn) (ht' ▸ hn')

theorem Tracks.alike (h : w.Tracks) (ha : w.Alike w') : w'.Tracks := by
  refine h.of_owners ha.detectors fun i u hu => ?_
  obtain ⟨hget, hin⟩ := owner?_eq_some_iff.1 hu
  have htitle := congrArg (fun titles => titles[i]?) ha.owners
  simp only [List.getElem?_map, hget, Option.map_some] at htitle
  obtain ⟨o, ho, heq⟩ := Option.map_eq_some_iff.1 htitle.symm
  have hdetector : o.title.detector = u.title.detector := by rw [heq]
  have htracker : o.title.tracker = u.title.tracker := by rw [heq]
  have hcapacity : o.title.capacity = u.title.capacity := by rw [heq]
  have hinUse : o.title.inUse = u.title.inUse := by rw [heq]
  exact ⟨o, owner?_eq_some_iff.2 ⟨ho, hinUse.trans hin⟩, hdetector.symm, htracker.symm,
    hcapacity.symm⟩

/-- One detector changes, and keeps the records of the owners that report to it. -/
theorem Tracks.setDetector (h : w.Tracks) (hd : w.detectors[d]? = some detector)
    (hnumbered : detector.Numbered → detector'.Numbered)
    (hkeep : ∀ n capacity, detector.Records n capacity → detector'.Records n capacity)
    (telemetry : Telemetry) :
    Tracks { w with detectors := w.detectors.set d detector', telemetry := telemetry } := by
  refine ⟨h.numbered_set hd hnumbered, fun i o n ho hn => ?_, h.apart⟩
  obtain ⟨found, hfound, hrecords⟩ := h.record i o n ho hn
  by_cases hod : d = o.detector
  · subst hod
    obtain rfl := Option.some.inj (hd.symm.trans hfound)
    exact ⟨detector', List.getElem?_set_self (List.getElem?_eq_some_iff.1 hd).1, hkeep n _ hrecords⟩
  · exact ⟨found, (List.getElem?_set_ne hod).trans hfound, hrecords⟩

/-- Amending the record of an owner changes only its own detector, and nothing if the owner is not
tracked. -/
theorem records_amended (hd : w.detectors[d]? = some detector) {f : Detector → Nat → Detector}
    (hf : ∀ m, o.tracker = some m → o.detector = d → (f detector m).Records n capacity)
    (hkept : o.tracker = none ∨ o.detector ≠ d → detector.Records n capacity) :
    ∃ detector', (w.amended o f).detectors[d]? = some detector' ∧
      detector'.Records n capacity := by
  simp only [amended]
  split
  · next hnone => exact ⟨detector, hd, hkept (.inl hnone)⟩
  · next m hm =>
    by_cases hod : o.detector = d
    · subst hod
      rw [onDetector_of_some hd]
      exact ⟨f detector m, List.getElem?_set_self (List.getElem?_eq_some_iff.1 hd).1, hf m hm rfl⟩
    · rcases onDetector_cases w o.detector _ with he | ⟨other, he⟩ <;> rw [he]
      · exact ⟨detector, hd, hkept (.inr hod)⟩
      · exact ⟨detector, (List.getElem?_set_ne hod).trans hd, hkept (.inr hod)⟩

theorem Tracks.numbered_amended (h : w.Tracks) (o : Owner) {f : Detector → Nat → Detector}
    (hf : ∀ (detector : Detector) m, detector.Numbered → (f detector m).Numbered) :
    ∀ detector ∈ (w.amended o f).detectors, detector.Numbered := by
  simp only [amended]
  split
  · exact h.numbered
  · next m hm =>
    cases hd : w.detectors[o.detector]? with
    | none =>
      rw [onDetector, hd]
      exact h.numbered
    | some detector =>
      rw [onDetector_of_some hd]
      exact h.numbered_set hd (hf detector m)

/-- An owner changes along with its record. The records of others are kept, and its own one tells the
new capacity as long as the owner is tracked. -/
theorem Tracks.amended_setOwner (h : w.Tracks) (ho : w.owner? i = some o)
    {f : Detector → Nat → Detector} (hdet : o'.detector = o.detector)
    (htracker : o'.inUse = true → o'.tracker = none ∨ o'.tracker = o.tracker)
    (hnumbered : ∀ (detector : Detector) m, detector.Numbered → (f detector m).Numbered)
    (hothers : ∀ (detector : Detector) m n capacity, n ≠ m → detector.Records n capacity →
      (f detector m).Records n capacity)
    (hself : o'.tracker ≠ none → ∀ (detector : Detector) n, detector.Records n o.capacity →
      (f detector n).Records n o'.capacity) :
    ((w.amended o f).setOwner i o').Tracks := by
  have howner : ∀ j u, ((w.amended o f).setOwner i o').owner? j = some u →
      (j = i ∧ u = o' ∧ u.inUse = true) ∨ j ≠ i ∧ w.owner? j = some u := by
    intro j u hu
    by_cases hij : j = i
    · subst hij
      obtain ⟨rfl, hin⟩ := eq_of_owner?_setOwner hu
      exact .inl ⟨rfl, rfl, hin⟩
    · exact .inr ⟨hij, (owner?_amended o f).symm.trans ((owner?_setOwner_ne hij).symm.trans hu)⟩
  -- a tracked owner was tracked before, under the same number
  have hbefore : ∀ j u n, ((w.amended o f).setOwner i o').owner? j = some u →
      u.tracker = some n → ∃ v, w.owner? j = some v ∧ u.detector = v.detector ∧
        v.tracker = some n ∧ ((j = i ∧ u = o' ∧ o'.tracker ≠ none) ∨ j ≠ i ∧ u = v) := by
    intro j u n hu hn
    rcases howner j u hu with ⟨rfl, rfl, hin⟩ | ⟨hij, hv⟩
    · rcases htracker hin with hnone | hsame
      · rw [hn] at hnone
        cases hnone
      · exact ⟨o, ho, hdet, hsame ▸ hn, .inl ⟨rfl, rfl, by rw [hn]; exact nofun⟩⟩
    · exact ⟨u, hv, rfl, hn, .inr ⟨hij, rfl⟩⟩
  refine ⟨h.numbered_amended o hnumbered, ?_, ?_⟩
  · intro j u n hu hn
    obtain ⟨v, hv, hud, hvn, hwho⟩ := hbefore j u n hu hn
    obtain ⟨found, hfound, hrecords⟩ := h.record j v n hv hvn
    rw [hud]
    rcases hwho with ⟨rfl, rfl, htracked⟩ | ⟨hij, rfl⟩
    · obtain rfl := Option.some.inj (ho.symm.trans hv)
      refine records_amended hfound (fun m hm _ => ?_) ?_
      · obtain rfl := Option.some.inj (hvn.symm.trans hm)
        exact hself htracked found n hrecords
      · rintro (hnone | hne)
        · exact nomatch hvn.symm.trans hnone
        · exact absurd rfl hne
    · refine records_amended hfound (fun m hm hod => ?_) fun _ => hrecords
      refine hothers found m n u.capacity (fun hnm => hij ?_) hrecords
      exact h.apart j i u o n hv ho hod.symm hvn (hnm ▸ hm)
  · intro j k u u' n hu hu' hd hn hn'
    obtain ⟨v, hv, hud, hvn, -⟩ := hbefore j u n hu hn
    obtain ⟨v', hv', hud', hvn', -⟩ := hbefore k u' n hu' hn'
    exact h.apart j k v v' n hv hv' (by rw [← hud, ← hud', hd]) hvn hvn'

/-! ## Deeds -/

/-- A new owner is tracked under a number of its own. -/
theorem Tracks.allocated (h : w.Tracks) (hd : d < w.detectors.length) (capacity : Nat) :
    (w.allocated d capacity).Tracks := by
  have hget : w.detectors[d]? = some w.detectors[d] := List.getElem?_eq_getElem hd
  rw [World.allocated, onDetector_of_some hget]
  generalize w.detectors[d] = detector at hget
  have hnumbered : detector.Numbered := h.numbered detector (List.mem_of_getElem? hget)
  have hbefore := h.setDetector hget (fun hn => hn.track capacity)
    (fun n _ hn => hn.track capacity) w.telemetry
  -- an owner was there before, or is the new one
  have howner : ∀ (i : Nat) (u new : Owner), (w.owners ++ [new])[i]? = some u →
      w.owners[i]? = some u ∨ i = w.owners.length ∧ u = new := by
    intro i u new hu
    rcases Nat.lt_or_ge i w.owners.length with hlt | hge
    · exact .inl ((List.getElem?_append_left hlt).symm.trans hu)
    · have hlen := (List.getElem?_eq_some_iff.1 hu).1
      rw [List.length_append, List.length_singleton] at hlen
      obtain rfl : i = w.owners.length := by omega
      rw [List.getElem?_concat_length] at hu
      exact .inr ⟨rfl, (Option.some.inj hu).symm⟩
  -- no owner had the next number so far
  have hfresh : ∀ i u n, w.owner? i = some u → u.detector = d → u.tracker = some n →
      n ≠ detector.next := by
    intro i u n hu hdet hn
    have hrecords := h.record_of hu hn (hdet ▸ hget)
    exact Nat.ne_of_lt hrecords.holds.1
  refine ⟨hbefore.numbered, ?_, ?_⟩
  · intro i u n hu hn
    obtain ⟨hu, hin⟩ := owner?_eq_some_iff.1 hu
    rcases howner i u _ hu with hu | ⟨rfl, rfl⟩
    · exact hbefore.record i u n (owner?_eq_some_iff.2 ⟨hu, hin⟩) hn
    · exact ⟨_, List.getElem?_set_self hd, (Detector.number_track hnumbered hn).2⟩
  · intro i j u u' n hu hu' hdet hn hn'
    obtain ⟨hu, hin⟩ := owner?_eq_some_iff.1 hu
    obtain ⟨hu', hin'⟩ := owner?_eq_some_iff.1 hu'
    rcases howner i u _ hu with hu | ⟨rfl, rfl⟩ <;> rcases howner j u' _ hu' with hu' | ⟨rfl, rfl⟩
    · exact h.apart i j u u' n (owner?_eq_some_iff.2 ⟨hu, hin⟩)
        (owner?_eq_some_iff.2 ⟨hu', hin'⟩) hdet hn hn'
    · exact absurd (Detector.number_track hnumbered hn').1
        (hfresh i u n (owner?_eq_some_iff.2 ⟨hu, hin⟩) hdet hn)
    · exact absurd (Detector.number_track hnumbered hn).1
        (hfresh j u' n (owner?_eq_some_iff.2 ⟨hu', hin'⟩) hdet.symm hn')
    · rfl

/-- **Every deed keeps tracked owners and their records together.** -/
theorem Tracks.enact (h : w.Tracks) {deed : Deed} (hd : deed.Allowed w) :
    (deed.enact w).Tracks := by
  cases deed with
  | allocate k capacity => exact h.allocated hd.1 capacity
  | resize i capacity =>
    obtain ⟨o, ho, -⟩ := hd
    simp only [Deed.enact, resized]
    rw [onOwner_of_some ho]
    have hset : Tracks ((w.amended o fun detector n => detector.resize n capacity).setOwner i
        (o.resized capacity)) :=
      h.amended_setOwner ho rfl (fun _ => .inr rfl) (fun _ _ hn => hn.amend fun _ => rfl)
        (fun _ _ _ _ hne hn => hn.amend hne fun _ => rfl) fun _ _ _ hn => hn.resize capacity
    exact hset.of_owners rfl fun i u hu => ⟨u, hu, rfl, rfl, rfl⟩
  | release i =>
    obtain ⟨o, ho, -⟩ := hd
    simp only [Deed.enact, released]
    rw [onOwner_of_some ho]
    exact h.amended_setOwner ho rfl (fun _ => .inl rfl) (fun _ m hn => hn.forget m)
      (fun _ _ _ _ hne hn => hn.forget hne) fun hnone => absurd rfl hnone
  | releaseShared i =>
    obtain ⟨o, ho⟩ := hd
    simp only [Deed.enact, releasedShared]
    rw [onOwner_of_some ho]
    refine h.of_owners rfl fun j u hu => ?_
    by_cases hij : j = i
    · subst hij
      obtain ⟨rfl, -⟩ := eq_of_owner?_setOwner hu
      exact ⟨o, ho, rfl, rfl, rfl⟩
    · exact ⟨u, (owner?_setOwner_ne hij).symm.trans hu, rfl, rfl, rfl⟩
  | drop i =>
    obtain ⟨o, ho, -⟩ := hd
    simp only [Deed.enact, dropped]
    rw [onOwner_of_some ho]
    refine h.amended_setOwner ho rfl (by rintro ⟨⟩) (fun detector m hn => ?_)
      (fun detector m n capacity hne hn => ?_) fun hnone => absurd rfl hnone
    · split
      · exact hn.forget m
      · exact hn.amend fun _ => rfl
    · split
      · exact hn.forget hne
      · exact hn.amend hne fun _ => rfl
  | sweep k =>
    simp only [Deed.enact, swept]
    rw [onDetector_of_some (List.getElem?_eq_getElem hd)]
    exact h.setDetector (List.getElem?_eq_getElem hd) (fun hn => hn.swept)
      (fun _ _ hn => hn.swept) _
  | settle k =>
    have hnumbered : w.detectors[k].Numbered → w.detectors[k].settled.Numbered :=
      fun hn => hn.swept
    have hkeep : ∀ n capacity, w.detectors[k].Records n capacity →
        w.detectors[k].settled.Records n capacity := fun _ _ hn => ⟨hn.swept.1, hn.swept.2⟩
    simp only [Deed.enact, swept]
    rw [onDetector_of_some (List.getElem?_eq_getElem hd)]
    exact h.setDetector (List.getElem?_eq_getElem hd) hnumbered hkeep _
  | configure k settings =>
    have hnumbered : w.detectors[k].Numbered →
        Detector.Numbered { w.detectors[k] with settings := settings } := fun hn => hn
    have hkeep : ∀ n capacity, w.detectors[k].Records n capacity →
        Detector.Records { w.detectors[k] with settings := settings } n capacity :=
      fun _ _ hn => ⟨hn.1, hn.2⟩
    simp only [Deed.enact, configured]
    rw [onDetector_of_some (List.getElem?_eq_getElem hd)]
    exact h.setDetector (List.getElem?_eq_getElem hd) hnumbered hkeep _

theorem Tracks.enacts {deeds : List Deed} (he : w.Enacts deeds w') : w.Tracks → w'.Tracks := by
  induction he with
  | alike ha => exact fun h => h.alike ha
  | deed deed hd _ ih => exact fun h => ih (h.enact hd)

theorem tracks_start (settings : List LeakSettings) : (start settings).Tracks := by
  refine ⟨fun detector hd => ?_, (fun _ _ _ ho => nomatch ho), fun _ _ _ _ _ ho => nomatch ho⟩
  obtain ⟨settings', -, rfl⟩ := List.mem_map.1 hd
  exact nofun

/-- **Every tracked owner has a record that tells its capacity**, whatever happened. -/
theorem tracks_after (settings : List LeakSettings) (history : List Operation) :
    ((start settings).after history).Tracks := by
  have hafter : ∀ {w : World}, w.Tracks → w.Sound → (w.after history).Tracks := by
    induction history with
    | nil => exact fun h _ => h
    | cons op rest ih => exact fun h hw => ih (h.enacts (hw.run op).enacts) (hw.run op).sound
  exact hafter (tracks_start settings) (sound_start settings)

theorem Reachable.tracks (hw : w.Reachable) : w.Tracks := by
  obtain ⟨settings, history, rfl⟩ := hw
  exact tracks_after settings history

end World

end PacketMemory
