import PacketMemory.Proofs.Pane.Released
import PacketMemory.Proofs.World.Run

/-!
# Later worlds

What no operation ever undoes, as a preorder on worlds:

* a released owner stays released, and from then on neither its capacity nor its indices nor its
  bytes change; at most its memory is returned (`Owner.Ages`);
* a view keeps its window and its part in the ownership, and once its memory was released, its
  indices, too (`View.Ages`); a view that is gone does not come back (`Slots.Ages`).

Main statement: every operation leads to a later world (`World.Sound.later`), and so does every
history (`World.Sound.later_after`). Behind it is that work on the pane of a handle leads to a later
world if it leaves released memory alone (`World.Later.through`).
-/

namespace PacketMemory

/-- What may become of an owner. -/
def Owner.Ages (o o' : Owner) : Prop :=
  o.released = true → o'.released = true ∧ o'.capacity = o.capacity ∧ o'.cursor = o.cursor ∧
    (o'.block = o.block ∨ o'.block = none)

/-- What may become of a view, whose memory was released or not. -/
structure View.Ages (freed : Prop) (v v' : View) : Prop where
  root : v'.root = v.root
  offset : v'.offset = v.offset
  capacity : v'.capacity = v.capacity
  kind : v'.kind = v.kind
  cursor : freed → v'.cursor = v.cursor

/-- What may become of a table of views, for which this memory was released. -/
def Slots.Ages (freed : Nat → Prop) (slots slots' : List (Option View)) : Prop :=
  ∀ (i : Nat) (slot : Option View), slots[i]? = some slot → ∃ slot', slots'[i]? = some slot' ∧
    ∀ v', slot' = some v' → ∃ v, slot = some v ∧ v.Ages (freed v.root) v'

namespace World

/-- The owner was released. -/
def Freed (w : World) (i : Nat) : Prop := ∃ o, w.owners[i]? = some o ∧ o.released = true

/-- The world `w'` may be what became of `w`. -/
structure Later (w w' : World) : Prop where
  owner : ∀ (i : Nat) (o : Owner), w.owners[i]? = some o → ∃ o', w'.owners[i]? = some o' ∧ o.Ages o'
  views : Slots.Ages w.Freed w.views w'.views
  records : Slots.Ages w.Freed w.records w'.records

end World

/-! ## Owners and views -/

theorem Owner.Ages.refl (o : Owner) : o.Ages o := fun h => ⟨h, rfl, rfl, .inl rfl⟩

/-- While an owner is not released, it may become anything. -/
theorem Owner.Ages.of_not_released {o o' : Owner} (h : o.released = false) : o.Ages o' :=
  fun h' => absurd (h.symm.trans h') (by decide)

/-- Ageing goes on: what a release settled stays settled. -/
theorem Owner.Ages.trans {o o' o'' : Owner} (h : o.Ages o') (h' : o'.Ages o'') : o.Ages o'' := by
  intro hr
  obtain ⟨hr', hcapacity, hcursor, hblock⟩ := h hr
  obtain ⟨hr'', hcapacity', hcursor', hblock'⟩ := h' hr'
  refine ⟨hr'', hcapacity'.trans hcapacity, hcursor'.trans hcursor, ?_⟩
  rcases hblock' with hsame | hnone
  · rw [hsame]
    exact hblock
  · exact .inr hnone

theorem View.Ages.refl (freed : Prop) (v : View) : v.Ages freed v :=
  ⟨rfl, rfl, rfl, rfl, fun _ => rfl⟩

/-- What counts as freed for the first step has to count for the second one, too. -/
theorem View.Ages.trans {freed freed' : Prop} {v v' v'' : View} (h : v.Ages freed v')
    (h' : v'.Ages freed' v'') (hfreed : freed → freed') : v.Ages freed v'' :=
  ⟨h'.root.trans h.root, h'.offset.trans h.offset, h'.capacity.trans h.capacity,
    h'.kind.trans h.kind, fun hf => (h'.cursor (hfreed hf)).trans (h.cursor hf)⟩

namespace Slots

variable {freed freed' : Nat → Prop} {slots slots' slots'' : List (Option View)}

theorem Ages.refl (freed : Nat → Prop) (slots : List (Option View)) : Ages freed slots slots :=
  fun _ slot hslot => ⟨slot, hslot, fun v hv => ⟨v, hv, .refl _ v⟩⟩

theorem Ages.trans (h : Ages freed slots slots') (h' : Ages freed' slots' slots'')
    (hfreed : ∀ i, freed i → freed' i) : Ages freed slots slots'' := by
  intro i slot hslot
  obtain ⟨slot', hslot', hages⟩ := h i slot hslot
  obtain ⟨slot'', hslot'', hages'⟩ := h' i slot' hslot'
  refine ⟨slot'', hslot'', fun v'' hv'' => ?_⟩
  obtain ⟨v', hv', ha'⟩ := hages' v'' hv''
  obtain ⟨v, hv, ha⟩ := hages v' hv'
  refine ⟨v, hv, ha.trans ha' fun hf => ?_⟩
  rw [ha.root]
  exact hfreed v.root hf

/-- New entries go behind the old ones and make none of them older. -/
theorem Ages.append (freed : Nat → Prop) (slots : List (Option View)) (u : Option View) :
    Ages freed slots (slots ++ [u]) := by
  intro i slot hslot
  have hlt := (List.getElem?_eq_some_iff.1 hslot).1
  refine ⟨slot, (List.getElem?_append_left hlt).trans hslot, fun v hv => ⟨v, hv, .refl _ v⟩⟩

/-- One entry is replaced by what may become of it, or removed. -/
theorem Ages.set {i : Nat} {v : View} {u : Option View} (hv : slots[i]? = some (some v))
    (hu : ∀ v', u = some v' → v.Ages (freed v.root) v') : Ages freed slots (slots.set i u) := by
  intro j slot hslot
  by_cases hij : i = j
  · subst hij
    obtain rfl : some v = slot := Option.some.inj (hv.symm.trans hslot)
    have hlt := (List.getElem?_eq_some_iff.1 hslot).1
    exact ⟨u, List.getElem?_set_self hlt, fun v' hv' => ⟨v, rfl, hu v' hv'⟩⟩
  · exact ⟨slot, (List.getElem?_set_ne hij).trans hslot, fun v' hv' => ⟨v', hv', .refl _ v'⟩⟩

end Slots

namespace World

variable {α β : Type} {w w' w'' : World} {h : Handle} {i d : Nat} {o o' : Owner} {v : View}
variable {p p' : Pane}

/-! ## The preorder -/

theorem Later.refl (w : World) : w.Later w :=
  ⟨fun _ o ho => ⟨o, ho, .refl o⟩, .refl _ _, .refl _ _⟩

/-- **What is freed stays freed.** -/
theorem Later.freed (h : w.Later w') (i : Nat) (hf : w.Freed i) : w'.Freed i := by
  obtain ⟨o, ho, hr⟩ := hf
  obtain ⟨o', ho', hages⟩ := h.owner i o ho
  exact ⟨o', ho', (hages hr).1⟩

theorem Later.trans (h : w.Later w') (h' : w'.Later w'') : w.Later w'' := by
  refine ⟨fun i o ho => ?_, h.views.trans h'.views h.freed, h.records.trans h'.records h.freed⟩
  obtain ⟨o', ho', hages⟩ := h.owner i o ho
  obtain ⟨o'', ho'', hages'⟩ := h'.owner i o' ho'
  exact ⟨o'', ho'', hages.trans hages'⟩

/-- A view of a later world that was there before. -/
theorem Later.derived (hl : w.Later w') (hv : w.derived? h = some v) {v' : View}
    (hv' : w'.derived? h = some v') : v.Ages (w.Freed v.root) v' := by
  have hages : ∀ {slots slots' : List (Option View)} {i : Nat}, Slots.Ages w.Freed slots slots' →
      slots[i]? = some (some v) → slots'[i]? = some (some v') → v.Ages (w.Freed v.root) v' := by
    intro slots slots' i hages hv hv'
    obtain ⟨slot', hslot', hback⟩ := hages i _ hv
    obtain ⟨u, hu, ha⟩ := hback v' (Option.some.inj (hslot'.symm.trans hv'))
    obtain rfl := Option.some.inj hu
    exact ha
  cases h with
  | owner i => cases hv
  | view i => exact hages hl.views (view?_eq_some_iff.1 hv) (view?_eq_some_iff.1 hv')
  | record i => exact hages hl.records (record?_eq_some_iff.1 hv) (record?_eq_some_iff.1 hv')

/-! ## Changes of the tables -/

/-- What detectors and observers know is no concern here. -/
theorem Later.of_tables (howners : w'.owners = w.owners) (hviews : w'.views = w.views)
    (hrecords : w'.records = w.records) : w.Later w' := by
  refine ⟨?_, ?_, ?_⟩
  · intro i o ho
    rw [howners]
    exact ⟨o, ho, .refl o⟩
  · rw [hviews]
    exact .refl _ _
  · rw [hrecords]
    exact .refl _ _

/-- A new owner is nobody's owner yet. -/
theorem Later.addOwner (w : World) (o : Owner) : w.Later { w with owners := w.owners ++ [o] } := by
  refine ⟨fun i u hu => ⟨u, ?_, .refl u⟩, .refl _ _, .refl _ _⟩
  exact (List.getElem?_append_left (List.getElem?_eq_some_iff.1 hu).1).trans hu

theorem Later.addView (w : World) (v : View) :
    w.Later { w with views := w.views ++ [some v] } :=
  ⟨fun _ o ho => ⟨o, ho, .refl o⟩, .append _ _ _, .refl _ _⟩

theorem Later.addRecord (w : World) (v : View) :
    w.Later { w with records := w.records ++ [some v] } :=
  ⟨fun _ o ho => ⟨o, ho, .refl o⟩, .refl _ _, .append _ _ _⟩

/-- An owner is replaced by what may become of it. -/
theorem Later.setOwner (ho : w.owner? i = some o) (hages : o.Ages o') :
    w.Later (w.setOwner i o') := by
  refine ⟨fun j u hu => ?_, .refl _ _, .refl _ _⟩
  by_cases hij : i = j
  · subst hij
    obtain rfl : o = u := Option.some.inj ((owner?_eq_some_iff.1 ho).1.symm.trans hu)
    exact ⟨o', List.getElem?_set_self (List.getElem?_eq_some_iff.1 hu).1, hages⟩
  · exact ⟨u, (List.getElem?_set_ne hij).trans hu, .refl u⟩

/-- The bytes of memory that was not released are free to change. -/
theorem Later.setBlock (ho : w.owner? i = some o) (hr : o.released = false) (b : Option Block) :
    w.Later (w.setBlock i b) := by
  rw [setBlock_of_owner ho]
  exact .setOwner ho (.of_not_released hr)

/-- A view is replaced by what may become of it, or removed. -/
theorem Later.setDerived (hv : w.derived? h = some v) {u : Option View}
    (hu : ∀ v', u = some v' → v.Ages (w.Freed v.root) v') : w.Later (w.setDerived h u) := by
  cases h with
  | owner i => cases hv
  | view i =>
    exact ⟨fun _ o ho => ⟨o, ho, .refl o⟩, .set (view?_eq_some_iff.1 hv) hu, .refl _ _⟩
  | record i =>
    exact ⟨fun _ o ho => ⟨o, ho, .refl o⟩, .refl _ _, .set (record?_eq_some_iff.1 hv) hu⟩

theorem Later.amended (w : World) (o : Owner) (f : Detector → Nat → Detector) :
    w.Later (w.amended o f) := by
  rcases amended_cases w o f with he | ⟨detector, he⟩ <;> rw [he]
  · exact .refl w
  · exact .of_tables rfl rfl rfl

/-- An owner is replaced along with its record. -/
theorem Later.amended_setOwner (ho : w.owner? i = some o) (f : Detector → Nat → Detector)
    (hages : o.Ages o') : w.Later ((w.amended o f).setOwner i o') :=
  (Later.amended w o f).trans (.setOwner ((owner?_amended o f).trans ho) hages)

/-- What is stored leaves released memory alone. -/
theorem Later.store (hp : w.pane? h = some p)
    (hidle : p.released = true → p'.cursor = p.cursor ∧ p'.block = p.block) :
    w.Later (w.store h p') := by
  rcases pane?_eq_some_iff.1 hp with ⟨i, o, rfl, ho, rfl⟩ | ⟨v, o, hv, ho, rfl⟩
  · rw [store_owner ho]
    exact .setOwner ho fun hr => ⟨hr, rfl, (hidle hr).1, .inl (hidle hr).2⟩
  · rw [store_derived hv, setBlock_of_owner ho]
    have hset : w.Later (w.setOwner v.root { o with block := p'.block }) :=
      .setOwner ho fun hr => ⟨hr, rfl, rfl, .inl (hidle hr).2⟩
    refine hset.trans (.setDerived (derived?_setOwner.trans hv) ?_)
    rintro _ ⟨⟩
    -- storing bytes does not release anything
    refine ⟨rfl, rfl, rfl, rfl, ?_⟩
    rintro ⟨u, hu, hr⟩
    have hlt := (List.getElem?_eq_some_iff.1 (owner?_eq_some_iff.1 ho).1).1
    obtain rfl := Option.some.inj ((List.getElem?_set_self hlt).symm.trans hu)
    exact (hidle hr).1

/-! ## Sequences -/

/-- A careful action that leads to a later world leads to one if it fails, too, since then nothing
happens. -/
theorem Later.of_careful {T : Trap → Prop} {m : Task α} {Q : α → World → Prop}
    (hm : Action.Careful T m w Q) (hQ : ∀ a w', Q a w' → w.Later w') : w.Later (m w).2 :=
  hm.leads (.refl w) hQ

theorem Later.of_observes {T : Trap → Prop} {m : Task α} {R : α → Prop}
    (hm : Action.Observes T m w R) : w.Later (m w).2 := by
  rw [hm.state_eq]
  exact .refl w

/-- A sequence leads to a later world if its steps do. -/
theorem Later.bind {m : Task α} {f : α → Task β} (hm : w.Later (m w).2)
    (hf : ∀ a w', m w = (.done a, w') → w'.Later (f a w').2) : w.Later ((m >>= f) w).2 :=
  Action.leads_bind .trans hm hf

/-- What follows a look. -/
theorem Later.look {T : Trap → Prop} {m : Task α} {R : α → Prop} {f : α → Task β}
    (hm : Action.Observes T m w R) (hf : ∀ a, R a → w.Later (f a w).2) :
    w.Later ((m >>= f) w).2 :=
  hm.leads_bind (.refl w) hf

/-- Only the answer is changed. -/
theorem Later.answer {m : Task α} (f : α → β) (hm : w.Later (m w).2) :
    w.Later ((m >>= fun a => pure (f a)) w).2 := by
  rw [Action.state_answer]
  exact hm

/-- **Work on what a handle sees**, if it leaves released memory alone. -/
theorem Later.through {m : Pane.Task α}
    (hm : ∀ p, w.pane? h = some p → p.released = true → p.Idle (m p).2) :
    w.Later (World.through h m w).2 := by
  rcases hp : w.pane? h with _ | p
  · rw [through_of_none hp]
    exact .refl w
  · rw [through_apply hp]
    refine .store hp fun hr => ?_
    obtain ⟨order, hidle⟩ := hm p hp hr
    rw [hidle]
    exact ⟨rfl, rfl⟩

/-- Work on live memory is no concern of released memory. -/
theorem Later.store_live (hp : w.pane? h = some p) (hl : p.Live) : w.Later (w.store h p') :=
  .store hp fun hr => absurd (hl.1.symm.trans hr) (by decide)

/-- Work within windows leads to a later world. -/
theorem Later.works (h : w.Works w') : w.Later w' := by
  induction h with
  | refl w => exact .refl w
  | store hp hl _ _ ih => exact (Later.store_live hp hl).trans ih

/-! ## Owners -/

theorem later_allocated (w : World) (d capacity : Nat) : w.Later (w.allocated d capacity) := by
  rcases onDetector_cases w d _ with he | ⟨detector, he⟩ <;> rw [allocated, he]
  · exact .refl w
  · exact (Later.addOwner w _).trans (.of_tables rfl rfl rfl)

/-- A release is one way to be freed. -/
theorem later_released (ho : w.owner? i = some o) : w.Later (w.released i) := by
  rw [released, onOwner_of_some ho]
  exact .amended_setOwner ho _ fun _ => ⟨rfl, rfl, rfl, .inr rfl⟩

theorem later_releasedShared (ho : w.owner? i = some o) : w.Later (w.releasedShared i) := by
  rw [releasedShared, onOwner_of_some ho]
  exact .setOwner ho fun _ => ⟨rfl, rfl, rfl, .inl rfl⟩

/-- So is the end of an owner. -/
theorem later_dropped (ho : w.owner? i = some o) : w.Later (w.dropped i) := by
  rw [dropped, onOwner_of_some ho]
  exact .amended_setOwner ho _ fun hr => ⟨hr, rfl, rfl, .inr rfl⟩

/-- Only live memory is resized. -/
theorem later_resized (ho : w.owner? i = some o) (hl : o.pane.Live) (capacity : Nat) :
    w.Later (w.resized i capacity) := by
  rw [resized, onOwner_of_some ho]
  exact (Later.amended_setOwner ho _ (.of_not_released hl.1)).trans (.of_tables rfl rfl rfl)

/-- An allocation leaves everything alone that exists. -/
theorem later_allocate (w : World) (d capacity : Nat) : w.Later (allocate d capacity w).2 := by
  refine .of_careful (allocate_careful d capacity) ?_
  rintro _ _ ⟨-, -, rfl⟩
  exact later_allocated w d capacity

theorem Sound.later_dropOwner (hw : w.Sound) (i : Nat) : w.Later (dropOwner i w).2 := by
  refine .of_careful (dropOwner_careful hw i) ?_
  rintro _ _ ⟨⟨o, ho, -⟩, rfl⟩
  exact later_dropped ho

theorem Sound.later_releaseOwner (hw : w.Sound) (i : Nat) : w.Later (releaseOwner i w).2 := by
  refine .of_careful (releaseOwner_careful hw i) ?_
  rintro _ _ ⟨o, ho, -, -, rfl⟩
  exact later_released ho

theorem later_releaseShared (w : World) (i : Nat) : w.Later (releaseShared i w).2 := by
  refine .of_careful (releaseShared_careful i) ?_
  rintro _ _ ⟨o, ho, -, rfl⟩
  exact later_releasedShared ho

/-- A refused resize changes nothing, and an allowed one is of live memory. -/
theorem Sound.later_resize (hw : w.Sound) (i capacity : Nat) :
    w.Later (resize i capacity w).2 := by
  refine .of_careful (resize_careful hw i capacity) ?_
  rintro _ _ ⟨⟨o, ho, -, hl, -⟩, rfl⟩
  exact later_resized ho hl capacity

/-- The new owner is filled while its memory is live. -/
theorem Sound.later_allocateCopy (hw : w.Sound) (d : Nat) (bytes : List UInt8) :
    w.Later (allocateCopy d bytes w).2 := by
  refine .of_careful (allocateCopy_makes hw d bytes) ?_
  rintro _ _ ⟨-, hd, p', -, rfl⟩
  exact (later_allocated w d bytes.length).trans
    (.store_live (pane?_allocated_new hd.1 bytes.length) ⟨rfl, rfl⟩)

theorem Sound.later_copy (hw : w.Sound) (h : Handle) (offset length : Nat) :
    w.Later (copy h offset length w).2 := by
  refine .of_careful (copy_makes hw h offset length) ?_
  rintro _ _ ⟨-, r, o, p, -, -, -, -, -, hd, rfl⟩
  exact (later_allocated w _ _).trans
    (.store_live (pane?_allocated_new hd.1 length) ⟨rfl, rfl⟩)

theorem Sound.later_copyUnread (hw : w.Sound) (h : Handle) : w.Later (copyUnread h w).2 :=
  .look (paneOf_observes h) fun _ _ =>
    .look (through_observes hw fun _ _ hs => readable_observes hs) fun _ _ => hw.later_copy h _ _

/-! ## Views -/

/-- A derivation only adds a view. -/
theorem later_duplicate (w : World) (h : Handle) : w.Later (duplicate h w).2 :=
  .look (basis_observes h) fun v _ => .addView w v

theorem Sound.later_slice (hw : w.Sound) (h : Handle) (offset length : Nat) :
    w.Later (slice h offset length w).2 :=
  .look (slicing_observes hw h offset length) fun v _ => .addView w v

theorem Sound.later_sliceUnread (hw : w.Sound) (h : Handle) : w.Later (sliceUnread h w).2 :=
  .look (through_observes hw fun _ _ hs => readable_observes hs) fun _ _ =>
    .look (paneOf_observes h) fun _ _ => hw.later_slice h _ _

/-- A handle that is dropped takes nothing back of what was released. -/
theorem Sound.later_drop (hw : w.Sound) (h : Handle) : w.Later (drop h w).2 := by
  cases h with
  | owner i => exact hw.later_dropOwner i
  | view i =>
    exact .look (viewAt_observes i) fun v hv => .setDerived (h := .view i) hv nofun
  | record i =>
    refine .look (T := Trap.isMisuse) (m := Action.state) (R := fun s => s = w) ⟨rfl, rfl⟩ ?_
    rintro _ rfl
    exact .look (Action.Observes.expect Trap.isMisuse_misuse) fun v hv =>
      .setDerived (h := .record i) hv nofun

theorem Sound.later_release (hw : w.Sound) (h : Handle) : w.Later (release h w).2 := by
  cases h with
  | owner i => exact hw.later_releaseOwner i
  | view i =>
    refine .look (viewAt_observes i) fun v _ => ?_
    cases v.kind with
    | slice => exact .refl w
    | duplicate => exact later_releaseShared w v.root
  | record i => exact .refl w

/-- Closing is a release and the end of a handle, one after the other. -/
theorem Sound.later_close (hw : w.Sound) (h : Handle) : w.Later (close h w).2 := by
  cases h with
  | owner i =>
    refine .bind (hw.later_releaseOwner i) fun _ w' hrun => ?_
    obtain ⟨o, ho, hnone, -, rfl⟩ := (releaseOwner_careful hw i).of_done hrun
    have hs : (w.released i).Sound := hw.enact (d := .release i) ⟨o, ho, hnone⟩
    exact hs.later_dropOwner i
  | view i =>
    refine .look (viewAt_observes i) fun v _ => ?_
    cases v.kind with
    | slice => exact .bind (hw.later_drop (.view i)) fun _ w' _ => .refl w'
    | duplicate =>
      refine .bind (later_releaseShared w v.root) fun _ w' hrun => ?_
      obtain ⟨o, ho, -, rfl⟩ := (releaseShared_careful v.root).of_done hrun
      have hs : (w.releasedShared v.root).Sound := hw.enact (d := .releaseShared v.root) ⟨o, ho⟩
      exact hs.later_drop (.view i)
  | record i => exact .refl w

/-- An overlay is asked about live memory only. -/
theorem Sound.later_overlaid (hw : w.Sound) (h : Handle) (o : Overlay) :
    w.Later (overlaid h o w).2 := by
  refine .look (paneOf_observes h) fun p _ => ?_
  refine .look (T := Trap.isMisuse) Action.Observes.ofExcept fun length _ => ?_
  refine .look (slicing_observes hw h 0 length) fun v hv => ?_
  obtain ⟨⟨u, hu, rfl⟩, q, hq, hl, -⟩ := hv
  obtain ⟨u', hu', -, hq'⟩ := hw.basis hu
  obtain rfl : q = u.pane u' := Option.some.inj (hq.symm.trans hq')
  rw [Action.mapError_apply, acceptance_apply (v := u.cut 0 length) hu']
  exact .setBlock hu' hl.1 _

/-! ## Every operation -/

theorem later_check (w : World) (d : Nat) : w.Later ((Operation.check d).run w).2 := by
  rcases hd : w.detectors[d]? with _ | detector
  · rw [Operation.run_check_of_none hd]
    exact .refl w
  · rw [Operation.run_check_of_some hd]
    exact .of_tables (by rw [swept_of_some hd]) (by rw [swept_of_some hd])
      (by rw [swept_of_some hd])

/-- **Every operation leads to a later world.** -/
theorem Sound.later (hw : w.Sound) (op : Operation) : w.Later (op.run w).2 := by
  cases op with
  | allocate d capacity => exact .answer _ (later_allocate w d capacity)
  | allocateCopy d bytes => exact .answer _ (hw.later_allocateCopy d bytes)
  | resize i capacity => exact .answer _ (hw.later_resize i capacity)
  | release h => exact .answer _ (hw.later_release h)
  | close h => exact .answer _ (hw.later_close h)
  | drop h => exact .answer _ (hw.later_drop h)
  | duplicate h => exact .answer _ (later_duplicate w h)
  | slice h offset length => exact .answer _ (hw.later_slice h offset length)
  | sliceUnread h => exact .answer _ (hw.later_sliceUnread h)
  | rootOf h => exact .answer _ (.of_observes (rootOf_observes h))
  | copy h offset length => exact .answer _ (hw.later_copy h offset length)
  | copyUnread h => exact .answer _ (hw.later_copyUnread h)
  | lay h o => exact .answer _ (.bind (hw.later_overlaid h o) fun v w' _ => .addView w' v)
  | probe h o => exact .answer _ (.bind (hw.later_overlaid h o) fun _ w' _ => .refl w')
  | layRecord h =>
    exact .answer _ (.bind (hw.later_overlaid h _) fun v w' _ => .addRecord w' v)
  | call h request =>
    refine .answer _ (.through fun p hp hr => ?_)
    exact request.run_idle (hw.pane hp) fun hl => absurd (hl.1.symm.trans hr) (by decide)
  | recordCall i request =>
    refine .through fun p hp hr => ?_
    rw [request.run_of_not_live fun hl => absurd (hl.1.symm.trans hr) (by decide)]
    exact .refl p
  | writeRecord h header =>
    refine .answer _ (.through fun p hp hr => ?_)
    rw [header.write_of_not_live fun hl => absurd (hl.1.symm.trans hr) (by decide)]
    exact .refl p
  | checkComplete h header =>
    exact .answer _ (.of_observes
      (through_observes hw fun _ _ _ => CaptureInfo.checkComplete_observes header))
  | sight i header => exact .answer _ (.of_observes (sight_observes hw i header))
  | keep i header =>
    refine .answer _ (.look
      (through_observes hw fun _ _ _ => CaptureInfo.checkComplete_observes header) fun _ _ => ?_)
    exact hw.later_copyUnread (.owner i)
  | copyBytes source index target targetIndex length =>
    exact .answer _ (.of_careful (copyBytes_careful hw source index target targetIndex length)
      fun _ _ h => .works h)
  | transfer source target length =>
    exact .answer _ (.of_careful (transfer_careful hw source target length) fun _ _ h => .works h)
  | exportBytes h =>
    refine .answer _ (.look (through_observes hw fun _ _ hs => Pane.contents_observes hs)
      fun _ _ => ?_)
    exact .of_tables rfl rfl rfl
  | sameContents a b => exact .answer _ (.of_observes (sameContents_observes hw a b))
  | sameDetector a b => exact .answer _ (.of_observes (sameDetector_observes a b))
  | describe h => exact .answer _ (.of_observes (describe_observes h))
  | outstanding d => exact .answer _ (.of_observes (outstanding_observes d))
  | sweep d => exact .answer _ (.look (detectorAt_observes d) fun _ _ => .of_tables rfl rfl rfl)
  | check d => exact later_check w d
  | settings d => exact .answer _ (.of_observes (settings_observes d))
  | configure d value =>
    exact .answer _ (.look (detectorAt_observes d) fun _ _ => .of_tables rfl rfl rfl)

/-- **Every history leads to a later world.** -/
theorem Sound.later_after (hw : w.Sound) (history : List Operation) :
    w.Later (w.after history) := by
  induction history generalizing w with
  | nil => exact .refl w
  | cons op rest ih => exact (hw.later op).trans (ih (hw.run op).sound)

end World

end PacketMemory
