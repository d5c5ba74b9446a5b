import PacketMemory.Proofs.World.Calls

/-!
# Searches are exact

The bytes of a window are bytes of the owner, so a search through a view is a search through the owner,
further back (`View.search_pane`). With what is found in a window (`Pane.search_eq_some_iff`,
`Pane.search_eq_none_iff`) this says of every search what it comes to.

Main statement: `World.Reachable.search_exact`.
-/

namespace PacketMemory

/-- A search through a view is one through the owner, further back. -/
theorem View.search_pane (v : View) (o : Owner) (start stop : Nat) (value : UInt8) :
    o.pane.search (v.offset + start) (v.offset + stop) value =
      ((v.pane o).search start stop value).map (v.offset + ·) := by
  have hlow : min (v.offset + start) (v.offset + stop) = v.offset + min start stop := by omega
  have hlength : max (v.offset + start) (v.offset + stop) - (v.offset + min start stop) =
      max start stop - min start stop := by omega
  have hforwards : (v.offset + start ≤ v.offset + stop) = (start ≤ stop) :=
    propext Nat.add_le_add_iff_left
  rw [Pane.search, Pane.search, World.bytesAt_pane, hlow, hlength, Option.map_map]
  simp only [hforwards, Function.comp_def, Nat.add_assoc]

namespace World

variable {w : World} {h : Handle} {p : Pane}

theorem Sound.run_find (hw : w.Sound) (hp : w.pane? h = some p) (hl : p.Live) {start stop : Nat}
    (hfit : max start stop ≤ p.capacity) (value : UInt8) :
    (Operation.call h (.find start stop value)).run w =
      (.done (.answer (.position (p.search start stop value))), w) :=
  call_query hp (Action.bind_done (Pane.find_apply (hw.pane hp) hl hfit))

/-- **A search is exact in both directions.** On memory that was not released, it is refused iff one of
its bounds lies behind the window. Otherwise it finds a place iff this lies between the bounds, holds the
byte, and no place between the bounds that is closer to the first one does; it finds nothing iff the byte
is nowhere between the bounds. Places are relative to the handle: the owner finds them in the translated
range, further back by the offset of the window. -/
theorem Reachable.search_exact (hw : w.Reachable) (hp : w.pane? h = some p)
    (hr : p.released = false) :
    ∃ bytes, bytes.length = p.capacity ∧
      (Operation.call h (.peekBytes 0 p.capacity)).run w = (.done (.answer (.bytes bytes)), w) ∧
      ∀ (start stop : Nat) (value : UInt8),
        let low := min start stop
        let high := max start stop
        let searching := Operation.call h (.find start stop value)
        (p.capacity < high → searching.run w =
          (.failed (.outOfBounds (.range low (high - low) p.capacity)), w)) ∧
        (high ≤ p.capacity → ∃ found,
          searching.run w = (.done (.answer (.position found)), w) ∧
          (∀ i, found = some i ↔ Nearest bytes start stop value i) ∧
          (found = none ↔ ∀ j, low ≤ j → j < high → bytes[j]? ≠ some value) ∧
          ∀ root, w.root? h = some root → ∃ place,
            (Operation.call (.owner root) (.find (p.offset + start) (p.offset + stop) value)).run w =
              (.done (.answer (.position place)), w) ∧
            (∀ i, place = some i → p.offset ≤ i) ∧ found = place.map (· - p.offset)) := by
  have hs := hw.sound
  have hps := hs.pane hp
  have hl := hs.live_of_pane hp hr
  have hwhole : 0 + p.capacity ≤ p.capacity := Nat.le_of_eq (Nat.zero_add _)
  refine ⟨_, Pane.length_bytesAt hps hl hwhole, run_peekBytes hp hps hl hwhole, ?_⟩
  intro start stop value low high searching
  refine ⟨fun hlt => ?_, fun hfit => ⟨_, hs.run_find hp hl hfit value,
    fun i => Pane.search_eq_some_iff hps hl hfit, Pane.search_eq_none_iff hps hl hfit,
    fun root hroot => ?_⟩⟩
  · exact Action.bind_failed (through_refused hp (Action.bind_failed (Pane.find_of_lt hl hlt)))
  · obtain ⟨v, o, ho, hfits, rfl⟩ := hs.window_of_root hp hroot
    have howner := pane?_owner ho
    have hwindow := hfits.window
    have hfit' : max (v.offset + start) (v.offset + stop) ≤ o.pane.capacity := by
      have hfit : max start stop ≤ v.capacity := hfit
      show _ ≤ o.capacity
      omega
    have hfind := hs.run_find howner (hs.live_of_pane howner hr) hfit' value
    rw [View.search_pane] at hfind
    refine ⟨_, hfind, fun i hi => ?_, ?_⟩
    · obtain ⟨k, -, rfl⟩ := Option.map_eq_some_iff.1 hi
      exact Nat.le_add_right _ _
    · cases (v.pane o).search start stop value with
      | none => rfl
      | some i => exact congrArg some (Nat.add_sub_cancel_left v.offset i).symm

/-- The slice shows 7 2 7 3 7. Backwards from its place 4, which does not count, a 7 is found at place 2,
which is place 4 of the owner; backwards from its end it is found at place 4. Behind the end there is
nothing to look for. -/
theorem search_exact_backwards :
    let w := (World.start [.standard]).after [.allocate 0 8,
      .call (.owner 0) (.pokeBytes 0 [7, 1, 7, 2, 7, 3, 7, 4]), .slice (.owner 0) 2 5]
    (Operation.call (.view 0) (.find 4 0 7)).run w = (.done (.answer (.position (some 2))), w) ∧
      (Operation.call (.owner 0) (.find 6 2 7)).run w = (.done (.answer (.position (some 4))), w) ∧
      (Operation.call (.view 0) (.find 5 0 7)).run w = (.done (.answer (.position (some 4))), w) ∧
      (Operation.call (.view 0) (.find 6 0 7)).run w =
        (.failed (.outOfBounds (.range 0 6 5)), w) := by
  intro w
  have hw : w.Reachable := ⟨_, _, rfl⟩
  have hp : w.pane? (.view 0) =
      some ⟨some [7, 1, 7, 2, 7, 3, 7, 4], false, 2, 5, Cursor.holding 5, default⟩ := by rfl
  obtain ⟨bytes, -, hbytes, hsearch⟩ := hw.search_exact hp rfl
  have hcontent : (Operation.call (.view 0) (.peekBytes 0 5)).run w =
      (.done (.answer (.bytes [7, 2, 7, 3, 7])), w) := by rfl
  obtain rfl : [7, 2, 7, 3, 7] = bytes := by
    cases congrArg Prod.fst (hcontent.symm.trans hbytes)
    rfl
  obtain ⟨found, hfind, hplace, -, howner⟩ := (hsearch 4 0 7).2 (by decide)
  obtain ⟨place, hroot, hle, hsame⟩ := howner 0 (by rfl)
  obtain ⟨last, hlast, hend, -⟩ := (hsearch 5 0 7).2 (by decide)
  obtain rfl : found = some 2 := by
    refine (hplace 2).2 ⟨by decide, by decide, rfl, fun j _ hbelow hcloser => ?_⟩
    have hbelow : j < 4 := hbelow
    have hcloser : 2 < j := hcloser
    obtain rfl : j = 3 := by omega
    decide
  obtain rfl : last = some 4 := by
    refine (hend 4).2 ⟨by decide, by decide, rfl, fun j _ hbelow hcloser => ?_⟩
    have hbelow : j < 5 := hbelow
    have hcloser : 4 < j := hcloser
    omega
  obtain ⟨i, rfl, hi⟩ := Option.map_eq_some_iff.1 hsame.symm
  have hi' : 2 ≤ i := hle i rfl
  obtain rfl : i = 4 := by
    have hi : i - 2 = 2 := hi
    omega
  exact ⟨hfind, hroot, hlast, (hsearch 6 0 7).1 (by decide)⟩

end World

end PacketMemory
