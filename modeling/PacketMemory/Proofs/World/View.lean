import PacketMemory.Proofs.World.Owner
import PacketMemory.World.View

/-!
# Views: derivation and release

A derived view is carried by the owner of its source: the window of a slice is checked against
the one it is cut from, which lies in the owner, so the sum of the offsets cannot run over.
Derivation does no deed. What a release does depends on the part that its handle has in the
ownership (`World.releaseDeeds`).

* `World.basis?` is the view that others are derived from through a handle, and `View.cut` a slice
  of it. `World.Cuts` says that a view was cut from what a live handle sees.
-/

namespace PacketMemory

/-- A slice of a view, all of it readable. -/
def View.cut (v : View) (offset length : Nat) : View :=
  ⟨v.root, v.offset + offset, length, Cursor.holding length, v.order, .slice⟩

/-- What a slice of what a pane shows starts with. -/
def Pane.cut (p : Pane) (offset length : Nat) : Pane :=
  { p with offset := p.offset + offset, capacity := length, cursor := Cursor.holding length }

/-- A slice of a sound pane ends where the pane ends at the latest, so it is sound. -/
theorem Pane.Sound.cut {p : Pane} (hp : p.Sound) {offset length : Nat}
    (h : offset + length ≤ p.capacity) : (p.cut offset length).Sound := by
  have hsmall := hp.small
  refine ⟨Cursor.inBounds_holding length, fun b hb => ?_, ?_⟩
  · have hwindow := hp.window b hb
    show p.offset + offset + length ≤ b.length
    omega
  · show p.offset + offset + length < Word.limit
    omega

/-- What a slice shows at an index is found behind its offset. -/
theorem Pane.bytesAt_cut (p : Pane) (offset length index n : Nat) :
    (p.cut offset length).bytesAt index n = p.bytesAt (offset + index) n := by
  simp only [Pane.bytesAt, Pane.cut, Nat.add_assoc]

/-- The handle is a record, from which nothing derives. -/
def Handle.isRecord : Handle → Bool
  | .record _ => true
  | .owner _ | .view _ => false

namespace World

/-- What views are derived from through a handle. -/
def basis? (w : World) : Handle → Option View
  | .owner i => (w.owner? i).map fun o => ⟨i, 0, o.capacity, o.cursor, o.order, .duplicate⟩
  | .view i => w.view? i
  | .record _ => none

/-- The view is a slice of what the handle sees, and the memory is live. -/
structure Cuts (w : World) (h : Handle) (offset length : Nat) (v : View) : Prop where
  source : ∃ u, w.basis? h = some u ∧ v = u.cut offset length
  live : ∃ p, w.pane? h = some p ∧ p.Live ∧ offset + length ≤ p.capacity

/-- What releasing a handle does to ownership. -/
def releaseDeeds (w : World) : Handle → List Deed
  | .owner i => [.release i]
  | .view i =>
    match w.view? i with
    | none => []
    | some v =>
      match v.kind with
      | .slice => []
      | .duplicate => [.releaseShared v.root]
  | .record _ => []

/-- What closing a handle does to ownership. -/
def closeDeeds (w : World) : Handle → List Deed
  | .owner i => [.release i, .drop i]
  | h => w.releaseDeeds h

/-- What dropping a handle does to ownership. -/
def dropDeeds : Handle → List Deed
  | .owner i => [.drop i]
  | .view _ | .record _ => []

variable {w w' : World} {h : Handle} {i : Nat} {v : View} {deeds : List Deed}

/-! ## Derivation -/

theorem Sound.becomes_addView (hw : w.Sound) (hv : w.Carries v) :
    w.Becomes [] { w with views := w.views ++ [some v] } :=
  (hw.addView hv).becomes_alike ⟨rfl, rfl, rfl, rfl, rfl⟩

/-- A view that its owner carries is added under the next number, which is no deed. -/
theorem addView_succeeds (hw : w.Sound) (hv : w.Carries v) :
    Action.Succeeds (addView v) w fun i w' => i = w.views.length ∧ w.Becomes [] w' :=
  ⟨w.views.length, _, rfl, rfl, hw.becomes_addView hv⟩

/-- To ask for the basis is to look it up. A handle that has none is misused. -/
theorem basis_apply (w : World) (h : Handle) :
    basis h w = (match w.basis? h with
      | some v => .done v
      | none => .trapped .misuse, w) := by
  cases h with
  | owner i =>
    simp only [basis, basis?, ownerAt, Action.state_bind_apply, bind_assoc]
    cases w.owner? i <;> rfl
  | view i =>
    simp only [basis, basis?, Action.state_bind_apply, derived?]
    cases w.view? i <;> rfl
  | record i => rfl

theorem basis_observes (h : Handle) :
    Action.Observes Trap.isMisuse (basis h) w fun v => w.basis? h = some v := by
  have happly := basis_apply w h
  rcases hb : w.basis? h with _ | v <;> rw [hb] at happly
  · exact .of_apply_trapped happly Trap.isMisuse_misuse
  · exact .of_apply_done happly ⟨rfl, rfl⟩

/-- Views can be derived through every handle but a record. -/
theorem basis_of_root (hroot : w.root? h = some i) (hh : h.isRecord = false) :
    ∃ u, w.basis? h = some u := by
  cases h with
  | owner j =>
    obtain ⟨o, ho, -⟩ := Option.map_eq_some_iff.1 hroot
    exact ⟨_, Option.map_eq_some_iff.2 ⟨o, ho, rfl⟩⟩
  | view j =>
    obtain ⟨v, hv, -⟩ := Option.map_eq_some_iff.1 hroot
    exact ⟨v, hv⟩
  | record j => cases hh

/-- What is derived through a handle leads to the owner that the handle leads to. -/
theorem root_of_basis (hv : w.basis? h = some v) : w.root? h = some v.root := by
  cases h with
  | owner i =>
    obtain ⟨o, ho, rfl⟩ := Option.map_eq_some_iff.1 hv
    exact root?_owner ho
  | view i => exact root?_derived hv
  | record i => cases hv

/-- What views are derived from sees what its handle sees, and is carried by the owner. -/
theorem Sound.basis (hw : w.Sound) (hv : w.basis? h = some v) :
    ∃ o, w.owner? v.root = some o ∧ v.Fits o.capacity ∧ w.pane? h = some (v.pane o) := by
  cases h with
  | owner i =>
    obtain ⟨o, ho, rfl⟩ := Option.map_eq_some_iff.1 hv
    have hfit : View.Fits ⟨i, 0, o.capacity, o.cursor, o.order, .duplicate⟩ o.capacity :=
      ⟨(hw.owner i o ho).cursor, by simp only; omega⟩
    exact ⟨o, ho, hfit, pane?_owner ho⟩
  | view i =>
    obtain ⟨o, ho, hfit⟩ := hw.derived (.view i) v hv
    exact ⟨o, ho, hfit, pane?_derived hv ho⟩
  | record i => cases hv

/-- What a handle sees is a window of the owner that it leads to. -/
theorem Sound.window_of_root (hw : w.Sound) (hp : w.pane? h = some p) {root : Nat}
    (hroot : w.root? h = some root) :
    ∃ (v : View) (o : Owner), w.owner? root = some o ∧ v.Fits o.capacity ∧ p = v.pane o := by
  rcases pane?_eq_some_iff.1 hp with ⟨j, o, rfl, ho, rfl⟩ | ⟨v, o, hv, ho, rfl⟩
  · obtain rfl : j = root := Option.some.inj ((root?_owner ho).symm.trans hroot)
    obtain ⟨u, hu, hfits, -⟩ := hw.basis (h := .owner j) (Option.map_eq_some_iff.2 ⟨o, ho, rfl⟩)
    obtain rfl := Option.some.inj (ho.symm.trans hu)
    exact ⟨_, o, ho, hfits, rfl⟩
  · obtain rfl : v.root = root := Option.some.inj ((root?_derived hv).symm.trans hroot)
    obtain ⟨u, hu, hfits⟩ := hw.derived h v hv
    obtain rfl := Option.some.inj (ho.symm.trans hu)
    exact ⟨v, o, ho, hfits, rfl⟩

/-- A byte of a window is the byte of the owner that the offset leads to. -/
theorem bytesAt_pane (v : View) (o : Owner) (index length : Nat) :
    (v.pane o).bytesAt index length = o.pane.bytesAt (v.offset + index) length := by
  simp only [Pane.bytesAt, View.pane, Owner.pane, Nat.zero_add]

/-- A slice is carried by the owner of what it is cut from. -/
theorem Cuts.carries (hw : w.Sound) {offset length : Nat} (h : w.Cuts h offset length v) :
    w.Carries v := by
  obtain ⟨⟨u, hu, rfl⟩, p, hp, -, hrange⟩ := h
  obtain ⟨o, ho, hfit, hp'⟩ := hw.basis hu
  obtain rfl : p = u.pane o := Option.some.inj (hp.symm.trans hp')
  have hwin := hfit.window
  have hrange : offset + length ≤ u.capacity := hrange
  refine ⟨o, ho, Cursor.inBounds_holding length, ?_⟩
  show u.offset + offset + length ≤ o.capacity
  omega

/-- **A range that fits is cut out of what a live handle sees.** -/
theorem slicing_apply (hw : w.Sound) {u : View} {p : Pane} {offset length : Nat}
    (hu : w.basis? h = some u) (hp : w.pane? h = some p) (hl : p.Live)
    (hrange : offset + length ≤ p.capacity) :
    slicing h offset length w = (.done (u.cut offset length), w) := by
  obtain ⟨o, -, -, hp'⟩ := hw.basis hu
  obtain rfl : p = u.pane o := Option.some.inj (hp.symm.trans hp')
  have hbasis := basis_apply w h
  rw [hu] at hbasis
  -- both offsets lie in the window of a sound pane, whose end fits a word
  have hsmall : u.offset + u.capacity < Word.limit := (hw.pane hp).small
  have hrange' : offset + length ≤ u.capacity := hrange
  have hcheck := Pane.checkRange_of_le hl (by show u.capacity < _; omega) hrange
  refine (Action.bind_done hbasis).trans ?_
  refine (Action.bind_done (through_query hp hcheck)).trans ?_
  rw [Word.add_of_lt (by omega), pure_bind]
  rfl

/-- A range that the pane refuses cannot be cut out. -/
theorem slicing_refused {p : Pane} {offset length : Nat} {e : Failure} (hh : h.isRecord = false)
    (hp : w.pane? h = some p) (hrefused : Pane.checkRange offset length p = (.failed e, p)) :
    slicing h offset length w = (.failed e, w) := by
  obtain ⟨_, -, hroot, -⟩ := root_of_pane hp
  obtain ⟨u, hu⟩ := basis_of_root hroot hh
  have hbasis := basis_apply w h
  rw [hu] at hbasis
  exact (Action.bind_done hbasis).trans (Action.bind_failed (through_refused hp hrefused))

/-- However a slice came about, it fits in what a live handle sees. -/
theorem slicing_observes (hw : w.Sound) (h : Handle) (offset length : Nat) :
    Action.Observes Trap.isMisuse (slicing h offset length) w fun v =>
      w.Cuts h offset length v := by
  by_cases hcuts : ∃ v, w.Cuts h offset length v
  · obtain ⟨_, ⟨u, hu, rfl⟩, p, hp, hl, hrange⟩ := hcuts
    exact .of_apply_done (slicing_apply hw hu hp hl hrange) ⟨rfl, ⟨u, hu, rfl⟩, p, hp, hl, hrange⟩
  · -- one of the checks stops it
    refine (basis_observes h).bind fun u hu => ?_
    refine (through_observes hw fun p _ hs => Pane.checkRange_observes hs offset length).bind ?_
    rintro _ ⟨p, hp, hl, hrange⟩
    exact absurd ⟨_, ⟨u, hu, rfl⟩, p, hp, hl, hrange⟩ hcuts

theorem addView_apply (w : World) (v : View) :
    addView v w = (.done w.views.length, { w with views := w.views ++ [some v] }) := rfl

/-! What exists sees the same after a derivation. -/

/-- The number of a new view leads to it. -/
theorem view?_append (w : World) (v : View) :
    { w with views := w.views ++ [some v] }.view? w.views.length = some v := by
  simp [view?]

theorem derived?_append {u : View} (hu : w.derived? h = some u) (v : View) :
    { w with views := w.views ++ [some v] }.derived? h = some u := by
  cases h with
  | owner i => cases hu
  | view i =>
    have hget := view?_eq_some_iff.1 hu
    have hlt := (List.getElem?_eq_some_iff.1 hget).1
    exact view?_eq_some_iff.2 ((List.getElem?_append_left hlt).trans hget)
  | record i => exact hu

theorem pane?_append {p : Pane} (hp : w.pane? h = some p) (v : View) :
    { w with views := w.views ++ [some v] }.pane? h = some p := by
  rcases pane?_eq_some_iff.1 hp with ⟨i, o, rfl, ho, rfl⟩ | ⟨u, o, hu, ho, rfl⟩
  · exact pane?_owner ho
  · exact pane?_derived (derived?_append hu v) ho

theorem root?_append (hr : w.root? h = some i) (v : View) :
    { w with views := w.views ++ [some v] }.root? h = some i := by
  cases h with
  | owner j => exact hr
  | view j | record j =>
    obtain ⟨u, hu, rfl⟩ := Option.map_eq_some_iff.1 hr
    exact root?_derived (derived?_append hu v)

/-- A range that fits is cut out. -/
theorem Sound.slice_of_basis (hw : w.Sound) {p : Pane} {offset length : Nat}
    (hv : w.basis? h = some v) (hp : w.pane? h = some p) (hl : p.Live)
    (hfit : offset + length ≤ p.capacity) :
    slice h offset length w = (.done w.views.length,
      { w with views := w.views ++ [some (v.cut offset length)] }) :=
  (Action.bind_done (slicing_apply hw hv hp hl hfit)).trans (addView_apply w _)

/-- A slice is a new handle of the memory of its source. -/
theorem Sound.slice_apply (hw : w.Sound) {p : Pane} {offset length : Nat}
    (hh : h.isRecord = false) (hp : w.pane? h = some p) (hl : p.Live)
    (hfit : offset + length ≤ p.capacity) :
    ∃ j w', slice h offset length w = (.done j, w') ∧
      w'.Sound ∧ h ≠ .view j ∧ w'.pane? h = some p ∧
      w'.pane? (.view j) = some (p.cut offset length) ∧ w'.root? h = w'.root? (.view j) := by
  obtain ⟨_, -, hr, -⟩ := root_of_pane hp
  obtain ⟨v, hv⟩ := basis_of_root hr hh
  obtain ⟨o, ho, -, hp'⟩ := hw.basis hv
  obtain rfl : p = v.pane o := Option.some.inj (hp.symm.trans hp')
  have hcuts : w.Cuts h offset length (v.cut offset length) := ⟨⟨v, hv, rfl⟩, _, hp, hl, hfit⟩
  have hview := view?_append w (v.cut offset length)
  refine ⟨_, _, hw.slice_of_basis hv hp hl hfit, (hw.becomes_addView (hcuts.carries hw)).sound, ?_,
    pane?_append hp _, ?_, ?_⟩
  · -- the number of the slice is new
    rintro rfl
    have hlt := (List.getElem?_eq_some_iff.1 (view?_eq_some_iff.1 hv)).1
    exact absurd hlt (Nat.lt_irrefl _)
  · exact pane?_derived (h := .view w.views.length) hview ho
  · rw [root?_append (root_of_basis hv), root?_derived (h := .view w.views.length) hview]
    rfl

/-- A duplicate is a new view like the one that its handle derives from. -/
theorem duplicate_makes (h : Handle) :
    Action.Careful Trap.isMisuse (duplicate h) w fun i w' => ∃ v, w.basis? h = some v ∧
      i = w.views.length ∧ w' = { w with views := w.views ++ [some v] } :=
  (basis_observes h).bind fun v hv =>
    Action.Succeeds.careful ⟨_, _, addView_apply w v, v, hv, rfl, rfl⟩

theorem duplicate_careful (hw : w.Sound) (h : Handle) :
    Action.Careful Trap.isMisuse (duplicate h) w fun _ w' => w.Becomes [] w' := by
  refine (duplicate_makes h).mono ?_
  rintro _ _ ⟨v, hv, -, rfl⟩
  obtain ⟨o, ho, hfit, -⟩ := hw.basis hv
  exact hw.becomes_addView ⟨o, ho, hfit⟩

/-- A slice is a new view, cut out of what a live handle sees. -/
theorem slice_makes (hw : w.Sound) (h : Handle) (offset length : Nat) :
    Action.Careful Trap.isMisuse (slice h offset length) w fun i w' => ∃ v,
      w.Cuts h offset length v ∧ i = w.views.length ∧
        w' = { w with views := w.views ++ [some v] } :=
  (slicing_observes hw h offset length).bind fun v hv =>
    Action.Succeeds.careful ⟨_, _, addView_apply w v, v, hv, rfl, rfl⟩

theorem slice_careful (hw : w.Sound) (h : Handle) (offset length : Nat) :
    Action.Careful Trap.isMisuse (slice h offset length) w fun _ w' => w.Becomes [] w' := by
  refine (slice_makes hw h offset length).mono ?_
  rintro _ _ ⟨v, hv, -, rfl⟩
  exact hw.becomes_addView (hv.carries hw)

theorem readable_observes {p : Pane} (hp : p.Sound) :
    Action.Observes Trap.isMisuse Pane.readable p fun length =>
      length = p.cursor.writer - p.cursor.reader := by
  have hlook := Pane.onCursor_query (Cursor.readable_apply hp.cursor.reader_le)
  exact Action.Stays.of_apply_done hlook ⟨rfl, rfl⟩

/-- What is not yet read is the slice between reader and writer. -/
theorem sliceUnread_makes (hw : w.Sound) (h : Handle) :
    Action.Careful Trap.isMisuse (sliceUnread h) w fun i w' => ∃ p v, w.pane? h = some p ∧
      w.Cuts h p.cursor.reader (p.cursor.writer - p.cursor.reader) v ∧ i = w.views.length ∧
        w' = { w with views := w.views ++ [some v] } := by
  refine (through_observes hw fun _ _ hs => readable_observes hs).bind ?_
  rintro _ ⟨p, hp, rfl⟩
  refine (paneOf_observes h).bind fun p' hp' => ?_
  obtain rfl := Option.some.inj (hp.symm.trans hp')
  exact (slice_makes hw h _ _).mono fun _ _ ⟨v, hv⟩ => ⟨p, v, hp, hv⟩

theorem sliceUnread_careful (hw : w.Sound) (h : Handle) :
    Action.Careful Trap.isMisuse (sliceUnread h) w fun _ w' => w.Becomes [] w' := by
  refine (sliceUnread_makes hw h).mono ?_
  rintro _ _ ⟨p, v, -, hv, -, rfl⟩
  exact hw.becomes_addView (hv.carries hw)

theorem rootOf_of_some (hr : w.root? h = some i) : rootOf h w = (.done i, w) := by
  rw [rootOf, Action.state_bind_apply, hr, Action.expect_some, Action.pure_apply]

theorem rootOf_observes (h : Handle) :
    Action.Observes Trap.isMisuse (rootOf h) w fun i => w.root? h = some i :=
  Action.Careful.state_bind (Action.Observes.expect Trap.isMisuse_misuse)

/-! ## Release and the end of a handle -/

theorem releaseShared_becomes (hw : w.Sound) (i : Nat) :
    Action.Careful Trap.isMisuse (releaseShared i) w fun _ w' =>
      w.Becomes [.releaseShared i] w' := by
  refine (releaseShared_careful i).mono ?_
  rintro _ _ ⟨o, ho, -, rfl⟩
  exact hw.becomes_enact ⟨o, ho⟩

/-- A release comes to the deed that the part of its handle in the ownership allows for: a slice
does none, and a duplicate shares in the release. -/
theorem release_careful (hw : w.Sound) (h : Handle) :
    Action.Careful Trap.isMisuse (release h) w fun _ w' => w.Becomes (w.releaseDeeds h) w' := by
  cases h with
  | owner i =>
    refine (releaseOwner_careful hw i).mono ?_
    rintro _ _ ⟨o, ho, hnone, -, rfl⟩
    exact hw.becomes_enact ⟨o, ho, hnone⟩
  | view i =>
    refine (viewAt_observes i).bind ?_
    intro v hv
    simp only [releaseDeeds, hv]
    cases v.kind with
    | slice => exact Action.Careful.pure hw.becomes_refl
    | duplicate => exact releaseShared_becomes hw v.root
  | record i => exact Action.Careful.trap Trap.isMisuse_misuse

/-- To give up a view or a record is no deed. -/
theorem Sound.becomes_removed (hw : w.Sound) (hv : w.derived? h = some v) :
    w.Becomes [] (w.setDerived h none) := by
  refine (hw.setDerived hv ?_).becomes_alike (Alike.setDerived none)
  rintro _ ⟨⟩

/-- Only the end of an owner is a deed. Views and records just disappear. -/
theorem drop_careful (hw : w.Sound) (h : Handle) :
    Action.Careful Trap.isMisuse (drop h) w fun _ w' => w.Becomes (dropDeeds h) w' := by
  cases h with
  | owner i =>
    refine (dropOwner_careful hw i).mono ?_
    rintro _ _ ⟨hd, rfl⟩
    exact hw.becomes_enact hd
  | view i =>
    refine (viewAt_observes i).bind fun v hv => Action.Succeeds.careful ?_
    exact Action.Succeeds.update (hw.becomes_removed (h := .view i) hv)
  | record i =>
    refine Action.Careful.state_bind ?_
    refine (Action.Observes.expect Trap.isMisuse_misuse).bind ?_
    intro v hv
    exact Action.Succeeds.careful
      (Action.Succeeds.update (hw.becomes_removed (h := .record i) hv))

theorem viewAt_of_some (hv : w.view? i = some v) : viewAt i w = (.done v, w) := by
  unfold viewAt
  rw [Action.state_bind_apply, hv, Action.expect_some, Action.pure_apply]

/-- Closing a slice gives it up and fails. -/
theorem close_slice (hv : w.view? i = some v) (hk : v.kind = .slice) :
    close (.view i) w = (.failed (.illegalState .sliceClosed), w.setView i none) := by
  have hdrop : drop (.view i) w = (.done (), w.setView i none) :=
    Action.bind_done (viewAt_of_some hv)
  refine (Action.bind_done (viewAt_of_some hv)).trans ?_
  rw [hk]
  exact Action.bind_done hdrop

/-- Closing anything else is careful. -/
theorem close_careful (hw : w.Sound)
    (hk : ∀ i v, h = .view i → w.view? i = some v → v.kind = .duplicate) :
    Action.Careful Trap.isMisuse (close h) w fun _ w' => w.Becomes (w.closeDeeds h) w' := by
  cases h with
  | owner i => exact closeOwner_careful hw i
  | view i =>
    refine (viewAt_observes i).bind ?_
    intro v hv
    have hkind := hk i v rfl hv
    simp only [closeDeeds, releaseDeeds, hv, hkind]
    refine (releaseShared_careful v.root).bind ?_
    rintro _ _ ⟨o, ho, -, rfl⟩
    have hb := hw.becomes_enact (d := .releaseShared v.root) ⟨o, ho⟩
    -- the view outlives the release of what it is a duplicate of
    have hv' : (w.releasedShared v.root).view? i = some v := by
      rw [releasedShared, onOwner_of_some ho]
      exact hv
    refine Action.Succeeds.after (viewAt_of_some hv') (Action.Succeeds.update ?_)
    exact hb.trans (hb.sound.becomes_removed (h := .view i) hv')
  | record i => exact Action.Careful.trap Trap.isMisuse_misuse

end World

end PacketMemory
