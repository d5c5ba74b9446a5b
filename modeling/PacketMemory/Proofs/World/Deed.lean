import PacketMemory.Proofs.World.Store

/-!
# Deeds: what happens to ownership

Most of what handles do concerns bytes and indices only. What concerns the ownership of memory,
and those who watch it, comes down to eight deeds.

* `Deed.enact` is the world after a deed, `Deed.Allowed` what the deed relies on. An allowed
  deed keeps the world sound (`Sound.enact`).
* `World.Alike` relates worlds that differ at most in bytes, indices, byte orders and views, and
  in what was measured of exports.
* `World.Enacts` relates a world to the one that a list of allowed deeds leads to, up to `Alike`.
  It is the contract that operations get with respect to ownership.
-/

namespace PacketMemory

/-- Something that happens to the ownership of memory or to a detector. Owners and detectors are
given by number. -/
inductive Deed where
  /-- a new owner -/
  | allocate (detector capacity : Nat)
  | resize (owner capacity : Nat)
  /-- the owner returns its memory -/
  | release (owner : Nat)
  /-- a duplicate releases on behalf of the owner -/
  | releaseShared (owner : Nat)
  /-- the owner goes away -/
  | drop (owner : Nat)
  | sweep (detector : Nat)
  /-- a sweep, after which nothing is pending -/
  | settle (detector : Nat)
  | configure (detector : Nat) (settings : LeakSettings)
  deriving DecidableEq, Repr

/-- An owner without what its handles can change: the bytes, the cursor and the byte order. -/
def Owner.title (o : Owner) : Owner :=
  { o with
    block := o.block.map fun b => Block.zeros b.length
    cursor := Cursor.empty
    order := default }

/-- The owner with another capacity. -/
def Owner.resized (o : Owner) (capacity : Nat) : Owner :=
  { o with
    block := o.block.map fun b => b.resize capacity
    capacity := capacity
    cursor := o.cursor.clampTo capacity }

/-- Another capacity cuts the cursor along with the block. -/
theorem Owner.Sound.resized {o : Owner} (ho : o.Sound) {capacity : Nat}
    (hc : capacity ≤ Block.largest) : (o.resized capacity).Sound := by
  refine ⟨ho.cursor.clampTo capacity, hc, ?_, ?_⟩
  · intro b hb
    obtain ⟨c, -, rfl⟩ := Option.map_eq_some_iff.1 hb
    exact Block.length_resize c capacity
  · intro hb
    exact ho.gone (Option.map_eq_none_iff.1 hb)

/-- The owner without its memory. -/
def Owner.returned (o : Owner) : Owner :=
  { o with released := true, block := none, tracker := none }

/-- The owner after it went away. -/
def Owner.gone (o : Owner) : Owner := { o with block := none, tracker := none, inUse := false }

namespace World

/-! ## Worlds after a deed -/

/-- The world after something happened to one detector, if it exists. -/
def onDetector (w : World) (d : Nat) (f : Detector → World) : World :=
  match w.detectors[d]? with
  | none => w
  | some detector => f detector

/-- The world with another record of an owner's allocation, if it is tracked. -/
def amended (w : World) (o : Owner) (f : Detector → Nat → Detector) : World :=
  match o.tracker with
  | none => w
  | some n => w.onDetector o.detector fun detector =>
      { w with detectors := w.detectors.set o.detector (f detector n) }

/-- The world with another owner. -/
def allocated (w : World) (d capacity : Nat) : World :=
  w.onDetector d fun detector =>
    let tracking := detector.track capacity
    { w with
      owners := w.owners ++ [⟨some (Block.zeros capacity), capacity, Cursor.empty, default, false,
        d, tracking.number, true⟩]
      detectors := w.detectors.set d tracking.detector
      telemetry := (w.telemetry.observeAllocation capacity).announce tracking.found }

/-- The world after something happened to one owner, if the owner is in use. -/
def onOwner (w : World) (i : Nat) (f : Owner → World) : World :=
  match w.owner? i with
  | none => w
  | some o => f o

/-- The world with another capacity of an owner. -/
def resized (w : World) (i capacity : Nat) : World :=
  w.onOwner i fun o =>
    let w := (w.amended o fun d n => d.resize n capacity).setOwner i (o.resized capacity)
    { w with telemetry := w.telemetry.publish (.reallocated o.capacity capacity) }

/-- The world after an owner returned its memory. -/
def released (w : World) (i : Nat) : World :=
  w.onOwner i fun o => (w.amended o Detector.forget).setOwner i o.returned

/-- The world after a release on behalf of an owner. -/
def releasedShared (w : World) (i : Nat) : World :=
  w.onOwner i fun o => w.setOwner i { o with released := true }

/-- The world without an owner. -/
def dropped (w : World) (i : Nat) : World :=
  w.onOwner i fun o =>
    (w.amended o (if o.released then Detector.forget else Detector.abandon)).setOwner i o.gone

/-- The world after a sweep, which leaves the detector as `after` says. -/
def swept (w : World) (d : Nat) (after : Detector → Detector) : World :=
  w.onDetector d fun detector =>
    { w with
      detectors := w.detectors.set d (after detector)
      telemetry := w.telemetry.announce detector.leaks }

/-- The world with other settings of a detector. -/
def configured (w : World) (d : Nat) (settings : LeakSettings) : World :=
  w.onDetector d fun detector =>
    { w with
      detectors := w.detectors.set d { detector with settings := settings }
      telemetry := w.telemetry.publish (.configured settings) }

end World

namespace Deed

/-- The world after the deed. -/
def enact (w : World) : Deed → World
  | allocate d capacity => w.allocated d capacity
  | resize i capacity => w.resized i capacity
  | release i => w.released i
  | releaseShared i => w.releasedShared i
  | drop i => w.dropped i
  | sweep d => w.swept d Detector.swept
  | settle d => w.swept d Detector.settled
  | configure d settings => w.configured d settings

/-- What the deed relies on: whoever it concerns has to exist, and an owner whose block moves or
goes away must not have views. -/
def Allowed (w : World) : Deed → Prop
  | allocate d capacity =>
    d < w.detectors.length ∧ capacity ≠ 0 ∧ capacity ≤ Block.largest
  | resize i capacity => ∃ o, w.owner? i = some o ∧ w.hasViews i = false ∧ o.pane.Live ∧
      capacity ≠ 0 ∧ capacity ≤ Block.largest
  | release i | drop i => ∃ o, w.owner? i = some o ∧ w.hasViews i = false
  | releaseShared i => ∃ o, w.owner? i = some o
  | sweep d | settle d | configure d _ => d < w.detectors.length

end Deed

namespace World

/-- The worlds differ at most in bytes, indices, byte orders and views, and in what was measured
of exports. -/
structure Alike (w w' : World) : Prop where
  owners : w'.owners.map Owner.title = w.owners.map Owner.title
  detectors : w'.detectors = w.detectors
  events : w'.telemetry.events = w.telemetry.events
  allocated : w'.telemetry.allocated = w.telemetry.allocated
  leaked : w'.telemetry.leaked = w.telemetry.leaked

/-- `w'` is `w` after work on live handles, each of them within its window. -/
inductive Works : World → World → Prop
  | refl (w : World) : Works w w
  | store {w w' : World} {h : Handle} {p p' : Pane} :
    w.pane? h = some p → p.Live → p.Evolves p' → Works (w.store h p') w' → Works w w'

/-- `w'` is `w` after allowed deeds, one after the other, up to what handles do. -/
inductive Enacts : World → List Deed → World → Prop
  | alike {w w' : World} : w.Alike w' → Enacts w [] w'
  | deed {w w' : World} {rest : List Deed} (d : Deed) :
    d.Allowed w → Enacts (d.enact w) rest w' → Enacts w (d :: rest) w'

variable {w w' w'' : World} {h : Handle} {i : Nat} {o o' : Owner} {p p' : Pane} {v : View}
variable {deeds : List Deed}

/-! ## What handles do -/

theorem Alike.refl (w : World) : w.Alike w := ⟨rfl, rfl, rfl, rfl, rfl⟩

theorem Alike.trans (h : w.Alike w') (h' : w'.Alike w'') : w.Alike w'' :=
  ⟨h'.owners.trans h.owners, h'.detectors.trans h.detectors, h'.events.trans h.events,
    h'.allocated.trans h.allocated, h'.leaked.trans h.leaked⟩

/-- To replace an owner by one of the same title is nothing that ownership is about. -/
theorem Alike.setOwner (ho : w.owner? i = some o) (ht : o'.title = o.title) :
    w.Alike (w.setOwner i o') := by
  refine ⟨?_, rfl, rfl, rfl, rfl⟩
  obtain ⟨hlt, rfl⟩ := List.getElem?_eq_some_iff.1 (owner?_eq_some_iff.1 ho).1
  show (w.owners.set i o').map Owner.title = _
  rw [List.map_set, ht, ← List.map_set, List.set_getElem_self]

/-- The title of an owner depends on the size of the block and not on its bytes. -/
theorem title_block {b : Option Block} (hb : b.map List.length = o.block.map List.length) :
    b.map (fun b => Block.zeros b.length) = o.block.map fun b => Block.zeros b.length := by
  have h := congrArg (Option.map Block.zeros) hb
  rw [Option.map_map, Option.map_map] at h
  exact h

theorem Alike.setBlock (ho : w.owner? i = some o) {b : Option Block}
    (hb : b.map List.length = o.block.map List.length) : w.Alike (w.setBlock i b) := by
  rw [setBlock_of_owner ho]
  refine Alike.setOwner ho ?_
  simp only [Owner.title, title_block hb]

/-- Views are nothing that ownership is about. -/
theorem Alike.setDerived (u : Option View) : w.Alike (w.setDerived h u) := by
  cases h <;> exact ⟨rfl, rfl, rfl, rfl, rfl⟩

/-- Work within a window concerns nobody's ownership. -/
theorem Alike.store (hp : w.pane? h = some p) (he : p.Evolves p') : w.Alike (w.store h p') := by
  rcases pane?_eq_some_iff.1 hp with ⟨i, o, rfl, ho, rfl⟩ | ⟨v, o, hv, ho, rfl⟩
  · rw [store_owner ho]
    refine Alike.setOwner ho ?_
    simp only [Owner.title, Owner.absorb, title_block (o := o) he.size]
  · rw [store_derived hv]
    exact (Alike.setBlock ho he.size).trans (Alike.setDerived _)

/-- Work that does no deed can follow any deeds. -/
theorem Enacts.trans_alike (h : Enacts w deeds w') (ha : w'.Alike w'') : Enacts w deeds w'' := by
  induction h with
  | alike h => exact .alike (h.trans ha)
  | deed d hd _ ih => exact .deed d hd (ih ha)

/-- A deed on its own, if it is allowed. -/
theorem Enacts.single {d : Deed} (hd : d.Allowed w) : Enacts w [d] (d.enact w) :=
  .deed d hd (.alike (Alike.refl _))

/-! ## Deeds keep a world sound -/

theorem onDetector_of_some {d : Nat} {detector : Detector} (hd : w.detectors[d]? = some detector)
    (f : Detector → World) : w.onDetector d f = f detector := by
  rw [onDetector, hd]

/-- What is done to a detector that does not exist is nothing. -/
theorem onDetector_cases (w : World) (d : Nat) (f : Detector → World) :
    w.onDetector d f = w ∨ ∃ detector, w.onDetector d f = f detector := by
  unfold onDetector
  split
  · exact .inl rfl
  · exact .inr ⟨_, rfl⟩

/-- What happens to a detector leaves everything alone that it does not concern. -/
theorem onDetector_kept {ρ : Type} (g : World → ρ) {d : Nat} {f : Detector → World}
    (hf : ∀ detector, g (f detector) = g w) : g (w.onDetector d f) = g w := by
  rcases onDetector_cases w d f with h | ⟨detector, h⟩ <;> rw [h]
  exact hf detector

/-- What happens to an owner leaves everything alone that it does not concern. -/
theorem onOwner_kept {ρ : Type} (g : World → ρ) {f : Owner → World} (hf : ∀ o, g (f o) = g w) :
    g (w.onOwner i f) = g w := by
  unfold onOwner
  cases w.owner? i with
  | none => rfl
  | some o => exact hf o

/-- Amending a record changes one detector, if anything. -/
theorem amended_cases (w : World) (o : Owner) (f : Detector → Nat → Detector) :
    w.amended o f = w ∨
      ∃ detector, w.amended o f = { w with detectors := w.detectors.set o.detector detector } := by
  unfold amended
  split
  · exact .inl rfl
  · rcases onDetector_cases w o.detector _ with h | ⟨detector, h⟩
    · exact .inl h
    · exact .inr ⟨_, h⟩

/-- Amending a record is not announced. -/
theorem telemetry_amended (o : Owner) (f : Detector → Nat → Detector) :
    (w.amended o f).telemetry = w.telemetry := by
  rcases amended_cases w o f with h | ⟨detector, h⟩ <;> rw [h]

/-- Owners do not depend on their records. -/
theorem owner?_amended (o : Owner) (f : Detector → Nat → Detector) :
    (w.amended o f).owner? i = w.owner? i := by
  rcases amended_cases w o f with h | ⟨detector, h⟩ <;> rw [h]
  rfl

theorem hasViews_amended (o : Owner) (f : Detector → Nat → Detector) :
    (w.amended o f).hasViews i = w.hasViews i := by
  rcases amended_cases w o f with h | ⟨detector, h⟩ <;> rw [h]
  rfl

theorem onOwner_of_some (ho : w.owner? i = some o) (f : Owner → World) :
    w.onOwner i f = f o := by
  rw [onOwner, ho]

/-- The records of detectors have no part in soundness. -/
theorem Sound.amended (hw : w.Sound) (o : Owner) (f : Detector → Nat → Detector) :
    (w.amended o f).Sound := by
  rcases amended_cases w o f with h | ⟨detector, h⟩ <;> rw [h]
  · exact hw
  · exact hw.of_tables rfl rfl rfl (List.length_set ..)

/-- While nothing is derived from an owner, it can be replaced along with its record. -/
theorem Sound.amended_setOwner (hw : w.Sound) (ho : w.owner? i = some o)
    (hnone : w.hasViews i = false) (f : Detector → Nat → Detector)
    (hs : o'.inUse = true → o'.Sound ∧ o'.detector = o.detector) :
    ((w.amended o f).setOwner i o').Sound :=
  (hw.amended o f).setOwner ((owner?_amended o f).trans ho) hs
    (.inr ((hasViews_amended o f).trans hnone))

theorem Sound.onDetector (hw : w.Sound) {d : Nat} {f : Detector → World}
    (hf : ∀ detector, (f detector).Sound) : (w.onDetector d f).Sound := by
  rcases onDetector_cases w d f with h | ⟨detector, h⟩ <;> rw [h]
  · exact hw
  · exact hf detector

/-- **A deed keeps the world sound**, if it is allowed. -/
theorem Sound.enact (hw : w.Sound) {d : Deed} (hd : d.Allowed w) : (d.enact w).Sound := by
  cases d with
  | allocate d capacity =>
    obtain ⟨hlt, -, hcap⟩ := hd
    show (w.allocated d capacity).Sound
    rw [World.allocated, onDetector_of_some (List.getElem?_eq_getElem hlt)]
    have hs : Owner.Sound ⟨some (Block.zeros capacity), capacity, Cursor.empty, default, false, d,
        (w.detectors[d].track capacity).number, true⟩ := by
      refine ⟨Cursor.inBounds_empty capacity, hcap, ?_, nofun⟩
      rintro b ⟨⟩
      exact Block.length_zeros capacity
    exact (hw.addOwner hs hlt).of_tables rfl rfl rfl (List.length_set ..)
  | resize i capacity =>
    obtain ⟨o, ho, hnone, -, -, hcap⟩ := hd
    show (w.resized i capacity).Sound
    rw [World.resized, onOwner_of_some ho]
    have hset := hw.amended_setOwner ho hnone (fun d n => d.resize n capacity)
      fun _ => ⟨(hw.owner i o ho).resized hcap, rfl⟩
    exact hset.of_tables rfl rfl rfl rfl
  | release i =>
    obtain ⟨o, ho, hnone⟩ := hd
    have hos := hw.owner i o ho
    show (w.released i).Sound
    rw [World.released, onOwner_of_some ho]
    exact hw.amended_setOwner ho hnone Detector.forget
      fun _ => ⟨⟨hos.cursor, hos.small, nofun, fun _ => rfl⟩, rfl⟩
  | releaseShared i =>
    obtain ⟨o, ho⟩ := hd
    have hos := hw.owner i o ho
    show (w.releasedShared i).Sound
    rw [World.releasedShared, onOwner_of_some ho]
    exact hw.setOwner ho (fun _ => ⟨⟨hos.cursor, hos.small, hos.size, fun _ => rfl⟩, rfl⟩)
      (.inl ⟨(owner?_eq_some_iff.1 ho).2, rfl⟩)
  | drop i =>
    obtain ⟨o, ho, hnone⟩ := hd
    show (w.dropped i).Sound
    rw [World.dropped, onOwner_of_some ho]
    exact hw.amended_setOwner ho hnone _ nofun
  | sweep d | settle d | configure d settings =>
    exact hw.onDetector fun _ => hw.of_tables rfl rfl rfl (List.length_set ..)

/-- `w'` is sound, and as far as ownership is concerned it is `w` after these deeds. -/
structure Becomes (w : World) (deeds : List Deed) (w' : World) : Prop where
  sound : w'.Sound
  enacts : w.Enacts deeds w'

theorem Sound.becomes_refl (hw : w.Sound) : w.Becomes [] w := ⟨hw, .alike (Alike.refl w)⟩

theorem Sound.becomes_alike (hw : w'.Sound) (h : w.Alike w') : w.Becomes [] w' := ⟨hw, .alike h⟩

/-- An allowed deed, and nothing else. -/
theorem Sound.becomes_enact (hw : w.Sound) {d : Deed} (hd : d.Allowed w) :
    w.Becomes [d] (d.enact w) := ⟨hw.enact hd, .single hd⟩

/-- Further work that does no deed. -/
theorem Becomes.trans (h : w.Becomes deeds w') (h' : w'.Becomes [] w'') :
    w.Becomes deeds w'' := by
  obtain ⟨hs, ⟨ha⟩⟩ := h'
  exact ⟨hs, h.enacts.trans_alike ha⟩

/-- Work within a window is no deed. -/
theorem Sound.becomes_store (hw : w.Sound) (hp : w.pane? h = some p) (he : p.Evolves p') :
    w.Becomes [] (w.store h p') :=
  (hw.store hp he).becomes_alike (Alike.store hp he)

theorem Sound.becomes_works (hw : w.Sound) (h : w.Works w') : w.Becomes [] w' := by
  induction h with
  | refl w => exact hw.becomes_refl
  | store hp hl he _ ih => exact (hw.becomes_store hp he).trans (ih (hw.store hp he))

end World

end PacketMemory
