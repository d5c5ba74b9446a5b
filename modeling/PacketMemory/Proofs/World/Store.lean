import PacketMemory.Proofs.World.Sound

/-!
# Work on what a handle sees

`World.through` performs a task on the pane of a handle and stores what the task left there. In
a sound world, contracts of tasks on panes become contracts on the world: what looked, looks
(`through_observes`), what was careful, is careful (`through_careful`), and the world stays sound
as long as the pane evolves (`Sound.store`).

* `pane?_store_self` — the handle itself sees what the task left.
* `pane?_store_of_ne` — any other handle sees what it saw before, except for the bytes if it
  shares the block.

The bytes and the cursor of a pane go to different places (`store_eq`), so they can be stored one
after the other and in any order (`setCursor_setBlock`).
-/

namespace PacketMemory

/-- The pane `q'` is `q` with other bytes in the block. -/
def Pane.Rewritten (q q' : Pane) : Prop :=
  ∃ b, b.map List.length = q.block.map List.length ∧ q' = { q with block := b }

theorem Pane.Rewritten.refl (q : Pane) : q.Rewritten q := ⟨q.block, rfl, rfl⟩

namespace World

variable {α : Type} {T : Trap → Prop}
variable {w w' : World} {h k : Handle} {i j : Nat} {o o' : Owner} {v v' : View} {p p' q : Pane}

/-! ## Storing -/

theorem store_owner (ho : w.owner? i = some o) (p : Pane) :
    w.store (.owner i) p = w.setOwner i (o.absorb p) := by
  rw [store, ho]

theorem store_derived (hv : w.derived? h = some v) (p : Pane) :
    w.store h p = (w.setBlock v.root p.block).setDerived h (some (v.absorb p)) := by
  cases h with
  | owner i => cases hv
  | view i =>
    have hv : w.view? i = some v := hv
    rw [store, hv]
    rfl
  | record i =>
    have hv : w.record? i = some v := hv
    rw [store, hv]
    rfl

/-! In which order blocks and views are replaced makes no difference, and the last one counts. -/

theorem setBlock_setBlock (ho : w.owner? i = some o) (b b' : Option Block) :
    (w.setBlock i b).setBlock i b' = w.setBlock i b' := by
  rw [setBlock_of_owner (owner?_setBlock_self ho b), setBlock_of_owner ho, setBlock_of_owner ho]
  simp only [setOwner, List.set_set]

theorem setBlock_setDerived (u : Option View) (b : Option Block) :
    (w.setDerived h u).setBlock i b = (w.setBlock i b).setDerived h u := by
  unfold setBlock
  rw [owner?_setDerived]
  cases w.owner? i <;> cases h <;> rfl

theorem setDerived_setDerived (u u' : Option View) :
    (w.setDerived h u).setDerived h u' = w.setDerived h u' := by
  cases h with
  | owner i => rfl
  | view i => simp only [setDerived, setView, List.set_set]
  | record i => simp only [setDerived, setRecord, List.set_set]

theorem setDerived_comm (hkh : k ≠ h) (u u' : Option View) :
    (w.setDerived h u).setDerived k u' = (w.setDerived k u').setDerived h u := by
  cases h with
  | owner i => rfl
  | view i =>
    cases k with
    | view j =>
      have hij : i ≠ j := fun e => hkh (e ▸ rfl)
      simp only [setDerived, setView, List.set_comm _ _ hij]
    | owner j | record j => rfl
  | record i =>
    cases k with
    | record j =>
      have hij : i ≠ j := fun e => hkh (e ▸ rfl)
      simp only [setDerived, setRecord, List.set_comm _ _ hij]
    | owner j | view j => rfl

theorem setDerived_self (hv : w.derived? h = some v) : w.setDerived h (some v) = w := by
  cases h with
  | owner i => rfl
  | view i => exact setView_self hv
  | record i => exact setRecord_self hv

/-- What is stored twice for an owner is as good as stored once. -/
theorem store_store_owner (ho : w.owner? i = some o) (p p' : Pane) :
    (w.store (.owner i) p).store (.owner i) p' = w.store (.owner i) p' := by
  have hself : (w.setOwner i (o.absorb p)).owner? i = some (o.absorb p) :=
    owner?_setOwner_self ho (owner?_eq_some_iff.1 ho).2
  rw [store_owner ho, store_owner ho, store_owner hself]
  simp only [setOwner, List.set_set, Owner.absorb]

/-- Of what is stored for a handle, the last counts. -/
theorem store_store (hp : w.pane? h = some p) (p' p'' : Pane) :
    (w.store h p').store h p'' = w.store h p'' := by
  rcases pane?_eq_some_iff.1 hp with ⟨i, o, rfl, ho, rfl⟩ | ⟨v, o, hv, ho, rfl⟩
  · exact store_store_owner ho p' p''
  · have hv' : ((w.setBlock v.root p'.block).setDerived h (some (v.absorb p'))).derived? h =
        some (v.absorb p') := derived?_setDerived_self ((derived?_setBlock _).trans hv) _
    rw [store_derived hv p', store_derived hv', store_derived hv p'', setBlock_setDerived,
      setDerived_setDerived]
    exact congrArg (fun w => World.setDerived w h _) (setBlock_setBlock ho _ _)

/-- The handle itself sees what was stored. -/
theorem pane?_store_self (hp : w.pane? h = some p) (he : p.Evolves p') :
    (w.store h p').pane? h = some p' := by
  obtain ⟨hreleased, hoffset, hcapacity, -, -, -⟩ := he
  rcases p' with ⟨block, released, offset, capacity, cursor, order⟩
  simp only at hreleased hoffset hcapacity
  subst hreleased hoffset hcapacity
  rcases pane?_eq_some_iff.1 hp with ⟨i, o, rfl, ho, rfl⟩ | ⟨v, o, hv, ho, rfl⟩
  · rw [store_owner ho]
    have hin := (owner?_eq_some_iff.1 ho).2
    exact pane?_eq_some_iff.2 (.inl ⟨i, _, rfl, owner?_setOwner_self ho hin, rfl⟩)
  · rw [store_derived hv]
    have hroot : ((w.setBlock v.root block).setDerived h (some (v.absorb
        ⟨block, o.released, v.offset, v.capacity, cursor, order⟩))).owner? v.root =
        some { o with block := block } :=
      (owner?_setDerived _).trans (owner?_setBlock_self ho block)
    exact pane?_derived (derived?_setDerived_self ((derived?_setBlock block).trans hv) _) hroot

theorem root?_owner (ho : w.owner? i = some o) : w.root? (.owner i) = some i :=
  Option.map_eq_some_iff.2 ⟨o, ho, rfl⟩

theorem root?_derived (hv : w.derived? h = some v) : w.root? h = some v.root := by
  cases h with
  | owner i => cases hv
  | view i | record i => exact Option.map_eq_some_iff.2 ⟨v, hv, rfl⟩

/-- What a handle sees belongs to an owner in use. -/
theorem root_of_pane (hp : w.pane? h = some p) :
    ∃ i o, w.root? h = some i ∧ w.owner? i = some o ∧ p.block = o.block ∧
      p.released = o.released := by
  rcases pane?_eq_some_iff.1 hp with ⟨i, o, rfl, ho, rfl⟩ | ⟨v, o, hv, ho, rfl⟩
  · exact ⟨i, o, root?_owner ho, ho, rfl, rfl⟩
  · exact ⟨v.root, o, root?_derived hv, ho, rfl, rfl⟩

/-- What leads to an owner sees its memory. -/
theorem Sound.pane_of_root (hw : w.Sound) (hroot : w.root? h = some i) :
    ∃ o p, w.owner? i = some o ∧ w.pane? h = some p ∧ p.released = o.released := by
  cases h with
  | owner j =>
    obtain ⟨o, ho, rfl⟩ := Option.map_eq_some_iff.1 hroot
    exact ⟨o, o.pane, ho, pane?_owner ho, rfl⟩
  | view j | record j =>
    obtain ⟨v, hv, rfl⟩ := Option.map_eq_some_iff.1 hroot
    obtain ⟨o, ho, -⟩ := hw.derived _ v hv
    exact ⟨o, v.pane o, ho, pane?_derived hv ho, rfl⟩

/-- Handles of one owner see the same memory. -/
theorem memory_of_root (hp : w.pane? h = some p) (hq : w.pane? k = some q)
    (hroot : w.root? k = w.root? h) : q.block = p.block ∧ q.released = p.released := by
  obtain ⟨i, o, hi, ho, hblock, hreleased⟩ := root_of_pane hp
  obtain ⟨j, o', hj, ho', hblock', hreleased'⟩ := root_of_pane hq
  obtain rfl : j = i := Option.some.inj (hj.symm.trans (hroot.trans hi))
  obtain rfl : o' = o := Option.some.inj (ho'.symm.trans ho)
  exact ⟨hblock'.trans hblock.symm, hreleased'.trans hreleased.symm⟩

theorem block_of_root (hp : w.pane? h = some p) (hq : w.pane? k = some q)
    (hroot : w.root? k = w.root? h) : q.block = p.block :=
  (memory_of_root hp hq hroot).1

/-- Memory that was not released is there. -/
theorem Sound.live_of_pane (hw : w.Sound) (hp : w.pane? h = some p) (hr : p.released = false) :
    p.Live := by
  obtain ⟨i, o, -, ho, hblock, hreleased⟩ := root_of_pane hp
  refine ⟨hr, ?_⟩
  rw [hblock]
  exact ((hw.owner i o ho).live (hreleased ▸ hr)).2

/-- What the other handles see after work on an owner. -/
theorem pane?_store_owner_of_ne (ho : w.owner? i = some o) (p' : Pane) (hkh : k ≠ .owner i)
    (hq : w.pane? k = some q) :
    (w.store (.owner i) p').pane? k =
      some (if w.root? k = some i then { q with block := p'.block } else q) := by
  have hin := (owner?_eq_some_iff.1 ho).2
  rw [store_owner ho]
  rcases pane?_eq_some_iff.1 hq with ⟨j, u, rfl, hu, rfl⟩ | ⟨x, u, hx, hu, rfl⟩
  -- another owner has a block of its own
  · have hij : j ≠ i := fun e => hkh (e ▸ rfl)
    rw [root?_owner hu, if_neg (fun e => hij (Option.some.inj e))]
    exact pane?_owner ((owner?_setOwner_ne hij).trans hu)
  · have hx' : (w.setOwner i (o.absorb p')).derived? k = some x := derived?_setOwner.trans hx
    rw [root?_derived hx]
    by_cases hroot : x.root = i
    · obtain rfl : u = o := Option.some.inj (hu.symm.trans (hroot ▸ ho))
      rw [if_pos (congrArg some hroot)]
      refine pane?_eq_some_iff.2 (.inr ⟨x, u.absorb p', hx', ?_, rfl⟩)
      rw [hroot]
      exact owner?_setOwner_self ho hin
    · rw [if_neg (fun e => hroot (Option.some.inj e))]
      exact pane?_derived hx' ((owner?_setOwner_ne hroot).trans hu)

/-- What the other handles see after work on something derived. -/
theorem pane?_store_derived_of_ne (hv : w.derived? h = some v) (p' : Pane) (hkh : k ≠ h)
    (hq : w.pane? k = some q) :
    (w.store h p').pane? k =
      some (if w.root? k = some v.root then { q with block := p'.block } else q) := by
  rw [store_derived hv]
  have howner : ∀ j u, w.owner? j = some u →
      ((w.setBlock v.root p'.block).setDerived h (some (v.absorb p'))).owner? j =
        some (if j = v.root then { u with block := p'.block } else u) := by
    intro j u hu
    rw [owner?_setDerived]
    by_cases hj : j = v.root
    · subst hj
      rw [if_pos rfl]
      exact owner?_setBlock_self hu _
    · rw [if_neg hj]
      exact (owner?_setBlock_ne hj _).trans hu
  rcases pane?_eq_some_iff.1 hq with ⟨j, u, rfl, hu, rfl⟩ | ⟨x, u, hx, hu, rfl⟩
  · rw [root?_owner hu]
    refine pane?_eq_some_iff.2 (.inl ⟨j, _, rfl, howner j u hu, ?_⟩)
    by_cases hj : j = v.root
    · rw [if_pos (congrArg some hj), if_pos hj]
      rfl
    · rw [if_neg (fun e => hj (Option.some.inj e)), if_neg hj]
  · rw [root?_derived hx]
    have hx' : ((w.setBlock v.root p'.block).setDerived h (some (v.absorb p'))).derived? k =
        some x := (derived?_setDerived_ne hkh _).trans ((derived?_setBlock _).trans hx)
    refine pane?_eq_some_iff.2 (.inr ⟨x, _, hx', howner x.root u hu, ?_⟩)
    by_cases hj : x.root = v.root
    · rw [if_pos (congrArg some hj), if_pos hj]
      rfl
    · rw [if_neg (fun e => hj (Option.some.inj e)), if_neg hj]

/-- The other handles see what was stored only if they share the block, and then only its
bytes. -/
theorem pane?_store_of_ne (hp : w.pane? h = some p) (p' : Pane) (hkh : k ≠ h)
    (hq : w.pane? k = some q) :
    (w.store h p').pane? k =
      some (if w.root? k = w.root? h then { q with block := p'.block } else q) := by
  rcases pane?_eq_some_iff.1 hp with ⟨i, o, rfl, ho, rfl⟩ | ⟨v, o, hv, ho, rfl⟩
  · rw [root?_owner ho]
    exact pane?_store_owner_of_ne ho p' hkh hq
  · rw [root?_derived hv]
    exact pane?_store_derived_of_ne hv p' hkh hq

/-- Work on the pane of one handle leaves the others what they see, except for bytes. -/
theorem pane?_rewritten (hp : w.pane? h = some p) (he : p.Evolves p') (hkh : k ≠ h)
    (hq : w.pane? k = some q) : ∃ q', (w.store h p').pane? k = some q' ∧ q.Rewritten q' := by
  refine ⟨_, pane?_store_of_ne hp p' hkh hq, ?_⟩
  by_cases hroot : w.root? k = w.root? h
  · rw [if_pos hroot]
    refine ⟨p'.block, ?_, rfl⟩
    rw [he.size, block_of_root hp hq hroot]
  · rw [if_neg hroot]
    exact .refl q

/-- Every handle of the memory sees the bytes that were changed through one of them. -/
theorem pane?_store_shared (hp : w.pane? h = some p) {b : Option Block}
    (he : p.Evolves { p with block := b }) (hq : w.pane? k = some q)
    (hroot : w.root? k = w.root? h) :
    (w.store h { p with block := b }).pane? k = some { q with block := b } := by
  by_cases hkh : k = h
  · subst hkh
    obtain rfl := Option.some.inj (hp.symm.trans hq)
    exact pane?_store_self hp he
  · rw [pane?_store_of_ne hp _ hkh hq, if_pos hroot]

/-- Where a handle leads depends on which owners are in use and on where views lead. -/
theorem root?_eq {w w' : World} {k : Handle}
    (howner : ∀ i, (w'.owner? i).isSome = (w.owner? i).isSome)
    (hderived : (w'.derived? k).map View.root = (w.derived? k).map View.root) :
    w'.root? k = w.root? k := by
  cases k with
  | owner i =>
    have h := howner i
    simp only [root?]
    cases hi : w.owner? i <;> cases hi' : w'.owner? i <;> simp_all
  | view i | record i => exact hderived

theorem isSome_owner?_setOwner {o' : Owner} (ho : w.owner? i = some o) (hu : o'.inUse = true)
    (j : Nat) : ((w.setOwner i o').owner? j).isSome = (w.owner? j).isSome := by
  by_cases hij : j = i
  · subst hij
    rw [owner?_setOwner_self ho hu, ho]
    rfl
  · rw [owner?_setOwner_ne hij]

/-- Work on what handles see changes nothing about where they lead. -/
theorem root?_store (hp : w.pane? h = some p) (p' : Pane) : (w.store h p').root? k = w.root? k := by
  rcases pane?_eq_some_iff.1 hp with ⟨i, o, rfl, ho, rfl⟩ | ⟨v, o, hv, ho, rfl⟩
  · have hin : (o.absorb p').inUse = true := (owner?_eq_some_iff.1 ho).2
    rw [store_owner ho]
    exact root?_eq (isSome_owner?_setOwner ho hin) (by rw [derived?_setOwner])
  · have hin : { o with block := p'.block }.inUse = true := (owner?_eq_some_iff.1 ho).2
    rw [store_derived hv]
    refine root?_eq (fun j => ?_) ?_
    · rw [owner?_setDerived, setBlock_of_owner ho]
      exact isSome_owner?_setOwner ho hin j
    · by_cases hkh : k = h
      · subst hkh
        rw [derived?_setDerived_self ((derived?_setBlock _).trans hv), hv]
        rfl
      · rw [derived?_setDerived_ne hkh, derived?_setBlock]

/-- **Work within a window keeps the world sound.** -/
theorem Sound.store (hw : w.Sound) (hp : w.pane? h = some p) (he : p.Evolves p') :
    (w.store h p').Sound := by
  rcases pane?_eq_some_iff.1 hp with ⟨i, o, rfl, ho, rfl⟩ | ⟨v, o, hv, ho, rfl⟩
  · rw [store_owner ho]
    have hos := hw.owner i o ho
    have hin := (owner?_eq_some_iff.1 ho).2
    refine hw.setOwner ho (fun _ => ⟨⟨he.cursor, hos.small, ?_, ?_⟩, rfl⟩) (.inl ⟨hin, rfl⟩)
    · intro b hb
      obtain ⟨c, hc, hlen⟩ := Option.map_eq_some_iff.1
        (he.size.symm.trans (congrArg (Option.map List.length) hb))
      rw [← hlen]
      exact hos.size c hc
    · intro hb
      have hnone := he.size.symm.trans (congrArg (Option.map List.length) hb)
      exact hos.gone (Option.map_eq_none_iff.1 hnone)
  -- bytes go to the owner, cursor and byte order to the view
  · rw [store_derived hv]
    obtain ⟨u, hu, hfit⟩ := hw.derived h v hv
    obtain rfl : o = u := Option.some.inj (ho.symm.trans hu)
    refine (hw.setBlock ho he.size).setDerived ((derived?_setBlock _).trans hv) ?_
    rintro _ ⟨⟩
    exact ⟨⟨_, owner?_setBlock_self ho _, he.cursor, hfit.window⟩, rfl⟩

/-! ## Bytes and cursor apart -/

/-- The world with another cursor of a handle. -/
def setCursor (w : World) (h : Handle) (c : Cursor) : World :=
  match h with
  | .owner i =>
    match w.owner? i with
    | none => w
    | some o => w.setOwner i { o with cursor := c }
  | h =>
    match w.derived? h with
    | none => w
    | some v => w.setDerived h (some { v with cursor := c })

theorem setCursor_owner (ho : w.owner? i = some o) (c : Cursor) :
    w.setCursor (.owner i) c = w.setOwner i { o with cursor := c } := by
  simp only [setCursor, ho]

theorem setCursor_derived (hv : w.derived? h = some v) (c : Cursor) :
    w.setCursor h c = w.setDerived h (some { v with cursor := c }) := by
  cases h with
  | owner i => cases hv
  | view i | record i => simp only [setCursor, hv]

/-- Bytes and cursor are stored separately. -/
theorem store_eq (hp : w.pane? h = some p) (hr : w.root? h = some i) (b : Option Block)
    (c : Cursor) :
    w.store h { p with block := b, cursor := c } = (w.setBlock i b).setCursor h c := by
  rcases pane?_eq_some_iff.1 hp with ⟨j, o, rfl, ho, rfl⟩ | ⟨v, o, hv, ho, rfl⟩
  · obtain rfl : j = i := Option.some.inj ((root?_owner ho).symm.trans hr)
    rw [store_owner ho, setCursor_owner (owner?_setBlock_self ho b), setBlock_of_owner ho]
    simp only [setOwner, List.set_set, Owner.absorb, Owner.pane]
  · obtain rfl : v.root = i := Option.some.inj ((root?_derived hv).symm.trans hr)
    rw [store_derived hv, setCursor_derived ((derived?_setBlock b).trans hv)]
    rfl

/-- Work on the bytes alone. -/
theorem store_block (hp : w.pane? h = some p) (hr : w.root? h = some i) (b : Option Block) :
    w.store h { p with block := b } = w.setBlock i b := by
  rcases pane?_eq_some_iff.1 hp with ⟨j, o, rfl, ho, rfl⟩ | ⟨v, o, hv, ho, rfl⟩
  · obtain rfl : j = i := Option.some.inj ((root?_owner ho).symm.trans hr)
    rw [store_owner ho, setBlock_of_owner ho]
    rfl
  · obtain rfl : v.root = i := Option.some.inj ((root?_derived hv).symm.trans hr)
    rw [store_derived hv]
    exact setDerived_self ((derived?_setBlock b).trans hv)

/-- Work on the cursor alone. -/
theorem store_cursor (hp : w.pane? h = some p) (c : Cursor) :
    w.store h { p with cursor := c } = w.setCursor h c := by
  obtain ⟨i, o, hr, ho, hblock, -⟩ := root_of_pane hp
  have hstore := store_eq hp hr p.block c
  rw [hblock, setBlock_self ho, ← hblock] at hstore
  exact hstore

/-- A cursor and a block can be replaced in any order. -/
theorem setCursor_setBlock (hp : w.pane? h = some p) (c : Cursor) (b : Option Block) :
    (w.setCursor h c).setBlock i b = (w.setBlock i b).setCursor h c := by
  rcases pane?_eq_some_iff.1 hp with ⟨j, o, rfl, ho, rfl⟩ | ⟨v, o, hv, ho, rfl⟩
  · rw [setCursor_owner ho]
    by_cases hij : i = j
    · subst hij
      have hself : (w.setOwner i { o with cursor := c }).owner? i = some { o with cursor := c } :=
        owner?_setOwner_self ho (owner?_eq_some_iff.1 ho).2
      rw [setCursor_owner (owner?_setBlock_self ho b), setBlock_of_owner ho, setBlock_of_owner hself]
      simp only [setOwner, List.set_set]
    · rw [setCursor_owner ((owner?_setBlock_ne (Ne.symm hij) b).trans ho)]
      unfold setBlock
      rw [owner?_setOwner_ne hij]
      cases w.owner? i with
      | none => rfl
      | some u => simp only [setOwner, List.set_comm _ _ hij]
  · rw [setCursor_derived hv, setCursor_derived ((derived?_setBlock b).trans hv)]
    exact setBlock_setDerived _ _

/-- The other handles see nothing of a cursor. -/
theorem pane?_store_cursor (hp : w.pane? h = some p) {c : Cursor}
    (he : p.Evolves { p with cursor := c }) (hq : w.pane? k = some q) :
    (w.store h { p with cursor := c }).pane? k =
      some { q with cursor := if k = h then c else q.cursor } := by
  by_cases hkh : k = h
  · subst hkh
    obtain rfl := Option.some.inj (hp.symm.trans hq)
    rw [if_pos rfl]
    exact pane?_store_self hp he
  · rw [if_neg hkh, pane?_store_of_ne hp _ hkh hq]
    split
    · next hroot => rw [← block_of_root hp hq hroot]
    · rfl

/-- Nor does any handle see more of changed bytes than these. -/
theorem pane?_store_block (hp : w.pane? h = some p) {b : Option Block}
    (he : p.Evolves { p with block := b }) (hq : w.pane? k = some q) :
    ∃ b', (w.store h { p with block := b }).pane? k = some { q with block := b' } := by
  by_cases hkh : k = h
  · subst hkh
    obtain rfl := Option.some.inj (hp.symm.trans hq)
    exact ⟨b, pane?_store_self hp he⟩
  · obtain ⟨_, hq', b', -, rfl⟩ := pane?_rewritten hp he hkh hq
    exact ⟨b', hq'⟩

/-! ## Tasks on panes -/

theorem through_of_none {m : Pane.Task α} (hp : w.pane? h = none) :
    through h m w = (.trapped .misuse, w) := by
  unfold through
  rw [hp]

theorem through_apply {m : Pane.Task α} (hp : w.pane? h = some p) :
    through h m w = ((m p).1, w.store h (m p).2) := by
  unfold through
  rw [hp]

theorem through_observes {m : Pane.Task α} {R : Pane → α → Prop} (hw : w.Sound)
    (hm : ∀ p, w.pane? h = some p → p.Sound → Action.Observes Trap.isMisuse m p (R p)) :
    Action.Observes Trap.isMisuse (through h m) w fun a => ∃ p, w.pane? h = some p ∧ R p a := by
  rcases hp : w.pane? h with _ | p
  · exact Action.Stays.of_apply_trapped (through_of_none hp) Trap.isMisuse_misuse
  · have hobs := hm p hp (hw.pane hp)
    have hrun := through_of_kept hp hobs.state_eq
    rcases hmp : m p with ⟨a | e | t, p'⟩ <;> rw [hmp] at hrun
    · exact Action.Stays.of_apply_done hrun ⟨rfl, p, rfl, (Action.Careful.of_done hobs hmp).2⟩
    · exact Action.Stays.of_apply_failed hrun rfl
    · exact Action.Stays.of_apply_trapped hrun (Action.Careful.of_trapped hobs hmp).1

theorem through_careful {m : Pane.Task α} {P : Pane → α → Pane → Prop} (hw : w.Sound)
    (hm : ∀ p, w.pane? h = some p → p.Sound → Action.Careful Trap.isMisuse m p (P p)) :
    Action.Careful Trap.isMisuse (through h m) w fun a w' =>
      ∃ p p', w.pane? h = some p ∧ P p a p' ∧ w' = w.store h p' := by
  rcases hp : w.pane? h with _ | p
  · exact Action.Stays.of_apply_trapped (through_of_none hp) Trap.isMisuse_misuse
  · have hcare := hm p hp (hw.pane hp)
    have hrun := through_apply (m := m) hp
    rcases hmp : m p with ⟨a | e | t, p'⟩ <;> rw [hmp] at hrun
    · exact Action.Stays.of_apply_done hrun ⟨p, p', rfl, hcare.of_done hmp, rfl⟩
    -- what was not changed is stored as it was
    · obtain rfl := hcare.of_failed hmp
      exact Action.Stays.of_apply_failed hrun (store_self hp)
    · obtain ⟨ht, rfl⟩ := hcare.of_trapped hmp
      exact Action.Stays.of_apply_trapped (hrun.trans (by rw [store_self hp])) ht

theorem through_succeeds {m : Pane.Task α} {P : α → Pane → Prop} (hp : w.pane? h = some p)
    (hm : Action.Succeeds m p P) :
    Action.Succeeds (through h m) w fun a w' => ∃ p', P a p' ∧ w' = w.store h p' := by
  obtain ⟨a, p', hrun, ha⟩ := hm
  refine ⟨a, w.store h p', ?_, p', ha, rfl⟩
  rw [through_apply hp, hrun]

/-- A question to a pane. -/
theorem through_query {m : Pane.Task α} {a : α} (hp : w.pane? h = some p)
    (hm : m p = (.done a, p)) : through h m w = (.done a, w) := by
  rw [through_of_kept hp (by rw [hm]), hm]

/-- A task that the pane refuses. -/
theorem through_refused {m : Pane.Task α} {e : Failure} (hp : w.pane? h = some p)
    (hm : m p = (.failed e, p)) : through h m w = (.failed e, w) := by
  rw [through_of_kept hp (by rw [hm]), hm]

/-! ## What is looked up -/

theorem paneOf_of_some (hp : w.pane? h = some p) : paneOf h w = (.done p, w) := by
  rw [paneOf, Action.state_bind_apply, hp, Action.expect_some, Action.pure_apply]

theorem ownerAt_observes (i : Nat) :
    Action.Observes Trap.isMisuse (ownerAt i) w fun o => w.owner? i = some o :=
  Action.Careful.state_bind (Action.Observes.expect Trap.isMisuse_misuse)

theorem viewAt_observes (i : Nat) :
    Action.Observes Trap.isMisuse (viewAt i) w fun v => w.view? i = some v :=
  Action.Careful.state_bind (Action.Observes.expect Trap.isMisuse_misuse)

theorem paneOf_observes (h : Handle) :
    Action.Observes Trap.isMisuse (paneOf h) w fun p => w.pane? h = some p :=
  Action.Careful.state_bind (Action.Observes.expect Trap.isMisuse_misuse)

theorem detectorAt_observes (d : Nat) :
    Action.Observes Trap.isMisuse (detectorAt d) w fun detector =>
      w.detectors[d]? = some detector :=
  Action.Careful.state_bind (Action.Observes.expect Trap.isMisuse_misuse)

theorem withoutViews_observes (i : Nat) :
    Action.Observes Trap.isMisuse (withoutViews i) w fun _ => w.hasViews i = false := by
  refine Action.Careful.state_bind ?_
  by_cases h : w.hasViews i = false
  · rw [Action.assert_true h]
    exact Action.Observes.pure h
  · rw [Action.assert_false h]
    exact Action.Observes.trap Trap.isMisuse_misuse

end World

end PacketMemory
