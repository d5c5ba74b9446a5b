import PacketMemory.Capture.Header
import PacketMemory.Proofs.Pane.Sound
import PacketMemory.World.Lemmas

/-!
# Sound worlds

In a sound world every owner that is in use has a block of its capacity, or has released it, and
every view and every record has its window inside of an owner that is in use. What a handle sees
there is a sound pane (`Sound.pane`), and this is all that the operations on it rely on.

* `World.setDerived` stores a view or a record, whichever the handle names.
* The `Sound.set…` and `Sound.add…` lemmas say which changes of the tables keep a world sound.
  An owner may change its capacity only while nothing is derived from it.
-/

namespace PacketMemory

/-- The cursor is within the capacity, and the block has this size as long as it is there. Only
a released owner is without a block. -/
structure Owner.Sound (o : Owner) : Prop where
  cursor : o.cursor.InBounds o.capacity
  small : o.capacity ≤ Block.largest
  size : ∀ b, o.block = some b → b.length = o.capacity
  gone : o.block = none → o.released = true

/-- The cursor is within the window, and the window within a capacity. -/
structure View.Fits (v : View) (capacity : Nat) : Prop where
  cursor : v.cursor.InBounds v.capacity
  window : v.offset + v.capacity ≤ capacity

theorem Owner.Sound.pane {o : Owner} (ho : o.Sound) : o.pane.Sound := by
  refine ⟨ho.cursor, ?_, ?_⟩
  · intro b hb
    show 0 + o.capacity ≤ b.length
    rw [ho.size b hb]
    omega
  · have hs := ho.small
    have hl : Block.largest < Word.limit := by decide
    show 0 + o.capacity < Word.limit
    omega

/-- Memory that was not released is there. -/
theorem Owner.Sound.live {o : Owner} (ho : o.Sound) (hr : o.released = false) : o.pane.Live := by
  refine ⟨hr, ?_⟩
  cases hb : o.block with
  | some b =>
    show o.block.isSome = true
    rw [hb]
    rfl
  | none => exact absurd ((ho.gone hb).symm.trans hr) (by decide)

theorem View.Fits.pane {v : View} {o : Owner} (hv : v.Fits o.capacity) (ho : o.Sound) :
    (v.pane o).Sound := by
  have hwin := hv.window
  refine ⟨hv.cursor, ?_, ?_⟩
  · intro b hb
    show v.offset + v.capacity ≤ b.length
    rw [ho.size b hb]
    exact hwin
  · have hs := ho.small
    have hl : Block.largest < Word.limit := by decide
    show v.offset + v.capacity < Word.limit
    omega

namespace World

/-- The window of `v` lies in an owner that is in use. -/
def Carries (w : World) (v : View) : Prop := ∃ o, w.owner? v.root = some o ∧ v.Fits o.capacity

/-- All owners in use are sound and watched by a detector that exists, everything derived is
carried by one of them, and records have the size of a record. -/
structure Sound (w : World) : Prop where
  owner : ∀ i o, w.owner? i = some o → o.Sound
  watched : ∀ i o, w.owner? i = some o → o.detector < w.detectors.length
  derived : ∀ h v, w.derived? h = some v → w.Carries v
  record : ∀ i v, w.record? i = some v → v.capacity = CaptureRecord.size

/-- Replace or remove the view or record behind a handle. -/
def setDerived (w : World) (h : Handle) (v : Option View) : World :=
  match h with
  | .owner _ => w
  | .view i => w.setView i v
  | .record i => w.setRecord i v

variable {w w' : World} {h k : Handle} {i j : Nat} {o o' : Owner} {v v' : View} {p p' q : Pane}

/-! ## Look-up after a change -/

theorem owner?_setOwner_self (ho : w.owner? i = some o) (hu : o'.inUse = true) :
    (w.setOwner i o').owner? i = some o' := by
  have hlt := (List.getElem?_eq_some_iff.1 (owner?_eq_some_iff.1 ho).1).1
  exact owner?_eq_some_iff.2 ⟨List.getElem?_set_self hlt, hu⟩

theorem owner?_setOwner_ne (hij : j ≠ i) : (w.setOwner i o').owner? j = w.owner? j := by
  unfold owner? setOwner
  rw [List.getElem?_set_ne (Ne.symm hij)]

/-- What stands in the place of an owner was put there. -/
theorem eq_of_owner?_setOwner (h : (w.setOwner i o').owner? i = some o) :
    o = o' ∧ o'.inUse = true := by
  obtain ⟨hget, hu⟩ := owner?_eq_some_iff.1 h
  obtain ⟨hlt, hget⟩ := List.getElem?_eq_some_iff.1 hget
  have hset : o' = o := (List.getElem_set_self (l := w.owners) hlt).symm.trans hget
  exact ⟨hset.symm, hset ▸ hu⟩

theorem setBlock_of_owner (ho : w.owner? i = some o) (b : Option Block) :
    w.setBlock i b = w.setOwner i { o with block := b } := by
  rw [setBlock, ho]

theorem owner?_setBlock_self (ho : w.owner? i = some o) (b : Option Block) :
    (w.setBlock i b).owner? i = some { o with block := b } := by
  rw [setBlock_of_owner ho]
  exact owner?_setOwner_self ho (owner?_eq_some_iff.1 ho).2

theorem owner?_setBlock_ne (hij : j ≠ i) (b : Option Block) :
    (w.setBlock i b).owner? j = w.owner? j := by
  unfold setBlock
  split
  · rfl
  · exact owner?_setOwner_ne hij

theorem derived?_setOwner : (w.setOwner i o').derived? h = w.derived? h := by
  cases h <;> rfl

theorem derived?_setBlock (b : Option Block) : (w.setBlock i b).derived? h = w.derived? h := by
  unfold setBlock
  split
  · rfl
  · exact derived?_setOwner

theorem owner?_setDerived (u : Option View) : (w.setDerived h u).owner? i = w.owner? i := by
  cases h <;> rfl

theorem derived?_setDerived_self (hv : w.derived? h = some v) (u : Option View) :
    (w.setDerived h u).derived? h = u := by
  cases h with
  | owner i => cases hv
  | view i =>
    obtain ⟨hlt, -⟩ := List.getElem?_eq_some_iff.1 (view?_eq_some_iff.1 hv)
    show (w.views.set i u)[i]?.join = u
    rw [List.getElem?_set_self hlt, Option.join_some]
  | record i =>
    obtain ⟨hlt, -⟩ := List.getElem?_eq_some_iff.1 (record?_eq_some_iff.1 hv)
    show (w.records.set i u)[i]?.join = u
    rw [List.getElem?_set_self hlt, Option.join_some]

theorem derived?_setDerived_ne (hkh : k ≠ h) (u : Option View) :
    (w.setDerived h u).derived? k = w.derived? k := by
  cases h with
  | owner i => rfl
  | view i =>
    cases k with
    | owner j => rfl
    | view j =>
      have hij : i ≠ j := fun e => hkh (e ▸ rfl)
      show (w.views.set i u)[j]?.join = w.views[j]?.join
      rw [List.getElem?_set_ne hij]
    | record j => rfl
  | record i =>
    cases k with
    | owner j => rfl
    | view j => rfl
    | record j =>
      have hij : i ≠ j := fun e => hkh (e ▸ rfl)
      show (w.records.set i u)[j]?.join = w.records[j]?.join
      rw [List.getElem?_set_ne hij]

/-- Nothing is derived from an owner without views. -/
theorem root_ne_of_hasViews (hi : w.hasViews i = false) (hv : w.derived? h = some v) :
    v.root ≠ i := by
  have hmem : some v ∈ w.views ++ w.records := by
    cases h with
    | owner i => cases hv
    | view i =>
      exact List.mem_append_left _ (List.mem_of_getElem? (view?_eq_some_iff.1 hv))
    | record i =>
      exact List.mem_append_right _ (List.mem_of_getElem? (record?_eq_some_iff.1 hv))
  have hall := List.any_eq_false.1 hi _ hmem
  simpa using hall

/-! ## Panes of handles -/

/-- A handle is an owner or something derived from one, and sees what it is or was derived
from. -/
theorem pane?_eq_some_iff :
    w.pane? h = some p ↔
      (∃ i o, h = .owner i ∧ w.owner? i = some o ∧ p = o.pane) ∨
      (∃ v o, w.derived? h = some v ∧ w.owner? v.root = some o ∧ p = v.pane o) := by
  cases h with
  | owner i =>
    constructor
    · intro hp
      obtain ⟨o, ho, rfl⟩ := Option.map_eq_some_iff.1 hp
      exact .inl ⟨i, o, rfl, ho, rfl⟩
    · rintro (⟨j, o, hj, ho, rfl⟩ | ⟨v, o, hv, -⟩)
      · cases hj
        exact Option.map_eq_some_iff.2 ⟨o, ho, rfl⟩
      · cases hv
  | view i | record i =>
    constructor
    · intro hp
      obtain ⟨v, hv, hp⟩ := Option.bind_eq_some_iff.1 hp
      obtain ⟨o, ho, rfl⟩ := viewPane?_eq_some_iff.1 hp
      exact .inr ⟨v, o, hv, ho, rfl⟩
    · rintro (⟨j, o, hj, -⟩ | ⟨v, o, hv, ho, rfl⟩)
      · cases hj
      · exact Option.bind_eq_some_iff.2 ⟨v, hv, viewPane?_eq_some_iff.2 ⟨o, ho, rfl⟩⟩

theorem pane?_owner (ho : w.owner? i = some o) : w.pane? (.owner i) = some o.pane :=
  pane?_eq_some_iff.2 (.inl ⟨i, o, rfl, ho, rfl⟩)

theorem pane?_derived (hv : w.derived? h = some v) (ho : w.owner? v.root = some o) :
    w.pane? h = some (v.pane o) :=
  pane?_eq_some_iff.2 (.inr ⟨v, o, hv, ho, rfl⟩)

/-- **A handle sees a sound pane.** -/
theorem Sound.pane (hw : w.Sound) (hp : w.pane? h = some p) : p.Sound := by
  rcases pane?_eq_some_iff.1 hp with ⟨i, o, rfl, ho, rfl⟩ | ⟨v, o, hv, ho, rfl⟩
  · exact (hw.owner i o ho).pane
  · obtain ⟨o', ho', hfit⟩ := hw.derived h v hv
    obtain rfl : o = o' := Option.some.inj (ho.symm.trans ho')
    exact hfit.pane (hw.owner _ o ho)

/-! ## What keeps a world sound -/

/-- The detectors can change, and what the observer was told. -/
theorem Sound.of_tables (hw : w.Sound) (howners : w'.owners = w.owners)
    (hviews : w'.views = w.views) (hrecords : w'.records = w.records)
    (hdetectors : w'.detectors.length = w.detectors.length) : w'.Sound := by
  have howner : ∀ i, w'.owner? i = w.owner? i := fun i => by
    unfold owner?
    rw [howners]
  have hderived : ∀ h, w'.derived? h = w.derived? h := fun h => by
    cases h with
    | owner i => rfl
    | view i =>
      unfold derived? view?
      rw [hviews]
    | record i =>
      unfold derived? record?
      rw [hrecords]
  refine ⟨?_, ?_, ?_, ?_⟩
  · intro i o ho
    exact hw.owner i o (howner i ▸ ho)
  · intro i o ho
    rw [hdetectors]
    exact hw.watched i o (howner i ▸ ho)
  · intro h v hv
    obtain ⟨o, ho, hfit⟩ := hw.derived h v (hderived h ▸ hv)
    exact ⟨o, (howner _).trans ho, hfit⟩
  · intro i v hv
    exact hw.record i v ((hderived (.record i)).symm.trans hv)

/-- An owner can be replaced by a sound one of the same capacity. While nothing is derived from
it, it may also change its capacity or go away. -/
theorem Sound.setOwner (hw : w.Sound) (ho : w.owner? i = some o)
    (hs : o'.inUse = true → o'.Sound ∧ o'.detector = o.detector)
    (hkeep : o'.inUse = true ∧ o'.capacity = o.capacity ∨ w.hasViews i = false) :
    (w.setOwner i o').Sound := by
  have howner : ∀ j u, (w.setOwner i o').owner? j = some u →
      w.owner? j = some u ∨ j = i ∧ u = o' ∧ u.inUse = true := by
    intro j u hu
    by_cases hij : j = i
    · subst hij
      obtain ⟨rfl, hin⟩ := eq_of_owner?_setOwner hu
      exact .inr ⟨rfl, rfl, hin⟩
    · exact .inl ((owner?_setOwner_ne hij).symm.trans hu)
  refine ⟨?_, ?_, ?_, fun j v hv => hw.record j v hv⟩
  · intro j u hu
    rcases howner j u hu with hu | ⟨-, rfl, hin⟩
    · exact hw.owner j u hu
    · exact (hs hin).1
  · intro j u hu
    rcases howner j u hu with hu | ⟨-, rfl, hin⟩
    · exact hw.watched j u hu
    · show u.detector < w.detectors.length
      rw [(hs hin).2]
      exact hw.watched i o ho
  · intro h v hv
    have hv : w.derived? h = some v := derived?_setOwner.symm.trans hv
    obtain ⟨u, hu, hfit⟩ := hw.derived h v hv
    -- only what was derived from this owner notices
    by_cases hroot : v.root = i
    · rcases hkeep with ⟨hin, hcap⟩ | hnone
      · obtain rfl : u = o := Option.some.inj (hu.symm.trans (hroot ▸ ho))
        refine ⟨o', ?_, hcap ▸ hfit⟩
        rw [hroot]
        exact owner?_setOwner_self ho hin
      · exact absurd hroot (root_ne_of_hasViews hnone hv)
    · exact ⟨u, (owner?_setOwner_ne hroot).trans hu, hfit⟩

/-- A block can be replaced by one of the same size. -/
theorem Sound.setBlock (hw : w.Sound) (ho : w.owner? i = some o) {b : Option Block}
    (hb : b.map List.length = o.block.map List.length) : (w.setBlock i b).Sound := by
  have hos := hw.owner i o ho
  have hin := (owner?_eq_some_iff.1 ho).2
  rw [setBlock_of_owner ho]
  refine hw.setOwner ho (fun _ => ⟨⟨hos.cursor, hos.small, ?_, ?_⟩, rfl⟩) (.inl ⟨hin, rfl⟩)
  · rintro b' rfl
    obtain ⟨c, hc, hlen⟩ := Option.map_eq_some_iff.1 hb.symm
    rw [← hlen]
    exact hos.size c hc
  · rintro rfl
    exact hos.gone (Option.map_eq_none_iff.1 hb.symm)

/-- Something derived can be replaced by something else of the same size that is carried, too, or
removed. -/
theorem Sound.setDerived (hw : w.Sound) (hv : w.derived? h = some v) {u : Option View}
    (hu : ∀ v', u = some v' → w.Carries v' ∧ v'.capacity = v.capacity) :
    (w.setDerived h u).Sound := by
  refine ⟨?_, ?_, ?_, ?_⟩
  · intro i o ho
    exact hw.owner i o ((owner?_setDerived u).symm.trans ho)
  · intro i o ho
    have hlen : (w.setDerived h u).detectors = w.detectors := by cases h <;> rfl
    rw [hlen]
    exact hw.watched i o ((owner?_setDerived u).symm.trans ho)
  · intro k x hx
    have hcarries : w.Carries x := by
      by_cases hkh : k = h
      · subst hkh
        exact (hu x ((derived?_setDerived_self hv u).symm.trans hx)).1
      · exact hw.derived k x ((derived?_setDerived_ne hkh u).symm.trans hx)
    obtain ⟨o, ho, hfit⟩ := hcarries
    exact ⟨o, (owner?_setDerived u).trans ho, hfit⟩
  · intro i x hx
    have hx : (w.setDerived h u).derived? (.record i) = some x := hx
    by_cases hkh : Handle.record i = h
    · subst hkh
      obtain ⟨-, hcap⟩ := hu x ((derived?_setDerived_self hv u).symm.trans hx)
      exact hcap.trans (hw.record i v hv)
    · exact hw.record i x ((derived?_setDerived_ne hkh u).symm.trans hx)

/-- Nothing happens to the owners that exist if another one is added. -/
theorem owner?_append_of_some (ho : w.owner? i = some o) (u : Owner) :
    { w with owners := w.owners ++ [u] }.owner? i = some o := by
  obtain ⟨hget, hin⟩ := owner?_eq_some_iff.1 ho
  have hlt := (List.getElem?_eq_some_iff.1 hget).1
  exact owner?_eq_some_iff.2 ⟨(List.getElem?_append_left hlt).trans hget, hin⟩

theorem Sound.addOwner (hw : w.Sound) (hs : o.Sound) (hd : o.detector < w.detectors.length) :
    { w with owners := w.owners ++ [o] }.Sound := by
  have howner : ∀ i u, { w with owners := w.owners ++ [o] }.owner? i = some u →
      w.owner? i = some u ∨ u = o := by
    intro i u hu
    obtain ⟨hget, hin⟩ := owner?_eq_some_iff.1 hu
    rcases Nat.lt_or_ge i w.owners.length with hlt | hge
    · exact .inl (owner?_eq_some_iff.2 ⟨(List.getElem?_append_left hlt).symm.trans hget, hin⟩)
    · have hget : (w.owners ++ [o])[i]? = some u := hget
      rw [List.getElem?_append_right hge] at hget
      exact .inr (List.mem_singleton.1 (List.mem_of_getElem? hget))
  refine ⟨?_, ?_, ?_, hw.record⟩
  · intro i u hu
    rcases howner i u hu with hu | rfl
    · exact hw.owner i u hu
    · exact hs
  · intro i u hu
    rcases howner i u hu with hu | rfl
    · exact hw.watched i u hu
    · exact hd
  · intro h v hv
    have hv : w.derived? h = some v := by
      cases h <;> exact hv
    obtain ⟨u, hu, hfit⟩ := hw.derived h v hv
    exact ⟨u, owner?_append_of_some hu o, hfit⟩

/-- An entry of a table to which one was added. -/
theorem join_append_cases {slots : List (Option View)}
    (h : (slots ++ [some v])[i]?.join = some v') : slots[i]?.join = some v' ∨ v' = v := by
  rcases Nat.lt_or_ge i slots.length with hlt | hge
  · rw [List.getElem?_append_left hlt] at h
    exact .inl h
  · rw [List.getElem?_append_right hge] at h
    have hmem := List.mem_singleton.1 (List.mem_of_getElem? (Option.join_eq_some_iff.1 h))
    exact .inr (Option.some.inj hmem)

theorem Sound.addView (hw : w.Sound) (hv : w.Carries v) :
    { w with views := w.views ++ [some v] }.Sound := by
  refine ⟨hw.owner, hw.watched, ?_, hw.record⟩
  intro h x hx
  cases h with
  | owner i => cases hx
  | view i =>
    rcases join_append_cases hx with hx | rfl
    · exact hw.derived (.view i) x hx
    · exact hv
  | record i => exact hw.derived (.record i) x hx

theorem Sound.addRecord (hw : w.Sound) (hv : w.Carries v)
    (hsize : v.capacity = CaptureRecord.size) :
    { w with records := w.records ++ [some v] }.Sound := by
  refine ⟨hw.owner, hw.watched, ?_, ?_⟩
  · intro h x hx
    cases h with
    | owner i => cases hx
    | view i => exact hw.derived (.view i) x hx
    | record i =>
      rcases join_append_cases hx with hx | rfl
      · exact hw.derived (.record i) x hx
      · exact hv
  · intro i x hx
    rcases join_append_cases hx with hx | rfl
    · exact hw.record i x hx
    · exact hsize

end World

end PacketMemory
