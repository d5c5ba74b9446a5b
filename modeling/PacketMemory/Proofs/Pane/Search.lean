import PacketMemory.Proofs.Pane.Sound

/-!
# Searches

A search goes through the range between its bounds, away from the first of them. What it finds is the
place in this range that is closest to where it starts (`Nearest`), whichever way it goes.

* `firstMet` is the place where a byte is met first on the way through a list. Going through it from
  behind is going through the reversed list, and either way a place is the first one iff the byte is
  there and nowhere before it on the way (`firstMet_eq_some_iff`).
* `Pane.search` is what is found in the window of a pane (`Pane.find_apply`).
-/

namespace PacketMemory

/-- A place between two bounds where a byte is, with no other one that is closer to the first bound. -/
structure Nearest (bytes : List UInt8) (start stop : Nat) (value : UInt8) (i : Nat) : Prop where
  low_le : min start stop ≤ i
  lt_high : i < max start stop
  found : bytes[i]? = some value
  closest : ∀ j, min start stop ≤ j → j < max start stop →
    (if start ≤ stop then j < i else i < j) → bytes[j]? ≠ some value

/-- The place where a byte is met first, on the way forwards or backwards. -/
def firstMet (bytes : List UInt8) (value : UInt8) (forwards : Prop) [Decidable forwards] :
    Option Nat :=
  if forwards then bytes.idxOf? value
  else (bytes.reverse.idxOf? value).map fun i => bytes.length - 1 - i

variable {bytes : List UInt8} {value : UInt8} {start stop i : Nat}

/-! ## In a list -/

theorem idxOf?_eq_iff :
    bytes.idxOf? value = some i ↔ bytes[i]? = some value ∧ ∀ j < i, bytes[j]? ≠ some value := by
  rw [List.idxOf?_eq_some_iff]
  constructor
  · rintro ⟨hi, hvalue, hbefore⟩
    refine ⟨List.getElem?_eq_some_iff.2 ⟨hi, hvalue⟩, fun j hj hfound => ?_⟩
    obtain ⟨_, hfound⟩ := List.getElem?_eq_some_iff.1 hfound
    exact hbefore j hj hfound
  · rintro ⟨hfound, hbefore⟩
    obtain ⟨hi, hvalue⟩ := List.getElem?_eq_some_iff.1 hfound
    exact ⟨hi, hvalue, fun j hj hother =>
      hbefore j hj (List.getElem?_eq_some_iff.2 ⟨Nat.lt_trans hj hi, hother⟩)⟩

/-- From behind, the last place is met first. -/
theorem idxOf?_reverse_eq_iff :
    (bytes.reverse.idxOf? value).map (fun k => bytes.length - 1 - k) = some i ↔
      bytes[i]? = some value ∧ ∀ j, i < j → bytes[j]? ≠ some value := by
  have hlt : ∀ {j}, bytes[j]? = some value → j < bytes.length := fun h =>
    (List.getElem?_eq_some_iff.1 h).1
  have hmirror : ∀ {j}, j < bytes.length → bytes.reverse[bytes.length - 1 - j]? = bytes[j]? := by
    intro j hj
    rw [List.getElem?_reverse (by omega)]
    congr 1
    omega
  rw [Option.map_eq_some_iff]
  constructor
  · rintro ⟨k, hk, rfl⟩
    obtain ⟨hfound, hbefore⟩ := idxOf?_eq_iff.1 hk
    have hklt : k < bytes.length := by
      rw [← List.length_reverse]
      exact (List.getElem?_eq_some_iff.1 hfound).1
    refine ⟨(List.getElem?_reverse hklt).symm.trans hfound, fun j hj hother => ?_⟩
    have hjlt := hlt hother
    exact hbefore (bytes.length - 1 - j) (by omega) ((hmirror hjlt).trans hother)
  · rintro ⟨hfound, hbehind⟩
    have hi := hlt hfound
    refine ⟨bytes.length - 1 - i, idxOf?_eq_iff.2 ⟨(hmirror hi).trans hfound, fun j hj hother => ?_⟩,
      by omega⟩
    rw [List.getElem?_reverse (by omega)] at hother
    exact hbehind _ (by omega) hother

/-- **A byte is met first** where it is, with no other one before it on the way. -/
theorem firstMet_eq_some_iff (forwards : Prop) [Decidable forwards] :
    firstMet bytes value forwards = some i ↔
      bytes[i]? = some value ∧ ∀ j, (if forwards then j < i else i < j) → bytes[j]? ≠ some value := by
  rw [firstMet]
  split
  · exact idxOf?_eq_iff
  · exact idxOf?_reverse_eq_iff

theorem firstMet_eq_none_iff (forwards : Prop) [Decidable forwards] :
    firstMet bytes value forwards = none ↔ ∀ j : Nat, bytes[j]? ≠ some value := by
  have hnowhere : value ∉ bytes ↔ ∀ j : Nat, bytes[j]? ≠ some value := by
    rw [List.mem_iff_getElem?, not_exists]
  rw [firstMet]
  split
  · rw [List.idxOf?_eq_none_iff, hnowhere]
  · rw [Option.map_eq_none_iff, List.idxOf?_eq_none_iff, List.mem_reverse, hnowhere]

/-! ## In a pane -/

namespace Pane

variable {p : Pane} {low length : Nat}

/-- What is found between two bounds. -/
def search (p : Pane) (start stop : Nat) (value : UInt8) : Option Nat :=
  (firstMet (p.bytesAt (min start stop) (max start stop - min start stop)) value (start ≤ stop)).map
    (min start stop + ·)

/-- What was found lies in the range, so its sum with the start of the range fits a word. -/
theorem find_apply (hp : p.Sound) (hl : p.Live) (h : max start stop ≤ p.capacity) :
    find start stop value p = (.done (p.search start stop value), p) := by
  have hsmall := hp.small
  have hfit : min start stop + (max start stop - min start stop) ≤ p.capacity := by omega
  have hlen := length_bytesAt hp hl hfit
  apply (Action.bind_done (checkRange_of_le hl (by omega) hfit)).trans
  apply (Action.bind_done (fetch_apply hp hl hfit)).trans
  rw [search]
  generalize p.bytesAt (min start stop) (max start stop - min start stop) = range at hlen ⊢
  have hlt : ∀ i, firstMet range value (start ≤ stop) = some i → i < range.length := fun i hi =>
    (List.getElem?_eq_some_iff.1 ((firstMet_eq_some_iff _).1 hi).1).1
  rw [← hlen]
  unfold firstMet at hlt ⊢
  generalize (if start ≤ stop then _ else _ : Option Nat) = position at hlt ⊢
  rcases position with _ | i
  · rfl
  · have hi := hlt i rfl
    simp only [Word.add_of_lt (show i + min start stop < Word.limit by omega), pure_bind]
    rw [Option.map_some, Nat.add_comm]
    rfl

theorem find_of_lt (hl : p.Live) (h : p.capacity < max start stop) :
    find start stop value p = (.failed (.outOfBounds
      (.range (min start stop) (max start stop - min start stop) p.capacity)), p) :=
  Action.bind_failed (checkRange_of_lt hl (by omega))

/-- A byte of a range is a byte of the window. -/
theorem getElem?_range (hl : p.Live) (h : low + length ≤ p.capacity) {k : Nat} (hk : k < length) :
    (p.bytesAt low length)[k]? = (p.bytesAt 0 p.capacity)[low + k]? := by
  obtain ⟨b, hb⟩ := Option.isSome_iff_exists.1 hl.2
  rw [getElem?_bytesAt hb hk, getElem?_bytesAt hb (by omega), Nat.add_zero, Nat.add_assoc]

/-- **What is found is closest** to where the search starts. -/
theorem search_eq_some_iff (hp : p.Sound) (hl : p.Live) (h : max start stop ≤ p.capacity) :
    p.search start stop value = some i ↔
      Nearest (p.bytesAt 0 p.capacity) start stop value i := by
  have hfit : min start stop + (max start stop - min start stop) ≤ p.capacity := by omega
  have hlen := length_bytesAt hp hl hfit
  have hbyte := fun k => getElem?_range hl hfit (k := k)
  rw [search]
  generalize p.bytesAt (min start stop) (max start stop - min start stop) = range at hlen hbyte ⊢
  have hlt : ∀ {k}, range[k]? = some value → k < max start stop - min start stop := fun hk =>
    hlen ▸ (List.getElem?_eq_some_iff.1 hk).1
  rw [Option.map_eq_some_iff]
  constructor
  · rintro ⟨k, hk, rfl⟩
    obtain ⟨hfound, hbefore⟩ := (firstMet_eq_some_iff _).1 hk
    have hklt := hlt hfound
    refine ⟨by omega, by omega, (hbyte k hklt).symm.trans hfound, fun j hlow hhigh hcloser => ?_⟩
    -- where the window has the byte closer to the start, so does the range
    have hj : min start stop + (j - min start stop) = j := Nat.add_sub_cancel' hlow
    rw [← hj, ← hbyte _ (by omega)]
    refine hbefore _ ?_
    split at hcloser <;> split <;> omega
  · intro hn
    have hlow := hn.low_le
    have hhigh := hn.lt_high
    have hi : min start stop + (i - min start stop) = i := Nat.add_sub_cancel' hlow
    refine ⟨i - min start stop, (firstMet_eq_some_iff _).2 ⟨?_, fun j hj hother => ?_⟩, hi⟩
    · rw [hbyte _ (by omega), hi, hn.found]
    · have hjlt := hlt hother
      rw [hbyte _ hjlt] at hother
      refine hn.closest _ (Nat.le_add_right _ _) (by omega) ?_ hother
      split at hj <;> split <;> omega

/-- Nothing is found where the byte is not in the range. -/
theorem search_eq_none_iff (hp : p.Sound) (hl : p.Live) (h : max start stop ≤ p.capacity) :
    p.search start stop value = none ↔
      ∀ j, min start stop ≤ j → j < max start stop →
        (p.bytesAt 0 p.capacity)[j]? ≠ some value := by
  have hfit : min start stop + (max start stop - min start stop) ≤ p.capacity := by omega
  have hlen := length_bytesAt hp hl hfit
  have hbyte := fun k => getElem?_range hl hfit (k := k)
  rw [search]
  rw [Option.map_eq_none_iff, firstMet_eq_none_iff]
  constructor
  · intro hnone j hlow hhigh
    rw [← Nat.add_sub_cancel' hlow, ← hbyte _ (by omega)]
    exact hnone _
  · intro hnone k hfound
    have hk := (List.getElem?_eq_some_iff.1 hfound).1
    rw [hbyte k (by omega)] at hfound
    exact hnone _ (Nat.le_add_right _ _) (by omega) hfound

end Pane

end PacketMemory
