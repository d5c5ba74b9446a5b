import PacketMemory.Proofs.Pane.Window
import PacketMemory.Proofs.World.Calls

/-!
# Views with windows apart

Calls through two views of one owner are put in any order between the two. If the windows have no byte
in common, no call through the one changes anything that the other one sees, and no answer tells more
than the bytes of a window and the cursor there (`Call.local_run`). So each view goes its own way, on
the bytes of its window alone.

* `World.Beside` describes the worlds on the way, by the bytes in the two windows; it is kept by a call
  through either view (`Beside.call_left`, `Beside.symm`), and leaves nothing open (`Beside.unique`).
* `World.Apart.run` — what a history of calls through both comes to.
* `World.interleavings_agree` — the order between the two views makes no difference, neither to any
  answer nor to the world that comes out.
-/

namespace PacketMemory

/-- Blocks of the same size have the same window if they have the same bytes there. -/
theorem Block.map_window_eq {b b' : Option Block} {offset capacity : Nat}
    (hsize : b'.map List.length = b.map List.length)
    (hbytes : ∀ d d', b = some d → b' = some d' →
      ∀ i, offset ≤ i → i < offset + capacity → d'[i]? = d[i]?) :
    b'.map (fun c => (c.drop offset).take capacity) =
      b.map fun c => (c.drop offset).take capacity := by
  cases b with
  | none => rw [Option.map_eq_none_iff.1 hsize]
  | some c =>
    obtain ⟨c', rfl, -⟩ := Option.map_eq_some_iff.1 hsize
    rw [Option.map_some, Option.map_some, Block.window_eq_iff.2 (hbytes c c' rfl rfl)]

namespace World

/-- Two views of the owner `o`, with windows that have no byte in common. -/
structure Apart (w : World) (s t : Handle) (v u : View) (o : Owner) : Prop where
  left : w.derived? s = some v
  right : w.derived? t = some u
  owner : w.owner? v.root = some o
  shared : u.root = v.root
  other : s ≠ t
  disjoint : ∀ i, v.offset ≤ i ∧ i < v.offset + v.capacity →
    ¬(u.offset ≤ i ∧ i < u.offset + u.capacity)

/-- The world with another block, and with the cursors and byte orders of two panes for two views. -/
def rejoined (w : World) (s t : Handle) (v u : View) (b : Option Block) (p q : Pane) : World :=
  ((w.setBlock v.root b).setDerived s (some (v.absorb p))).setDerived t (some (u.absorb q))

/-- The world `w'` is what became of `w` when the bytes of the two windows, with the cursors there,
became `p` and `q`. -/
structure Beside (w : World) (s t : Handle) (v u : View) (o : Owner) (p q : Pane)
    (b : Option Block) (w' : World) : Prop where
  sound : w'.Sound
  world : w' = w.rejoined s t v u b p q
  left : ((v.absorb p).pane { o with block := b }).extract = p
  right : ((u.absorb q).pane { o with block := b }).extract = q
  size : b.map List.length = o.block.map List.length
  outside : ∀ d d', o.block = some d → b = some d' →
    ∀ i, (i < v.offset ∨ v.offset + v.capacity ≤ i) →
      (i < u.offset ∨ u.offset + u.capacity ≤ i) → d'[i]? = d[i]?

variable {w w' w'' : World} {s t : Handle} {v u : View} {o : Owner} {p q : Pane}
variable {b b' : Option Block} {steps : List (Handle × Call)}

/-! ## The worlds on the way -/

theorem Apart.symm (ha : w.Apart s t v u o) : w.Apart t s u v o :=
  ⟨ha.right, ha.left, ha.shared ▸ ha.owner, ha.shared.symm, ha.other.symm,
    fun i hi hi' => ha.disjoint i hi' hi⟩

theorem Beside.symm (ha : w.Apart s t v u o) (h : w.Beside s t v u o p q b w') :
    w.Beside t s u v o q p b w' := by
  refine ⟨h.sound, ?_, h.right, h.left, h.size, fun c c' hc hc' i hi hi' =>
    h.outside c c' hc hc' i hi' hi⟩
  rw [h.world, rejoined, rejoined, setDerived_comm ha.other.symm, ha.shared]

/-- To begin with, each view sees the bytes in its window. -/
theorem Apart.beside (ha : w.Apart s t v u o) (hw : w.Sound) :
    w.Beside s t v u o (v.pane o).extract (u.pane o).extract o.block w := by
  refine ⟨hw, ?_, rfl, rfl, rfl, fun c c' hc hc' i _ _ => ?_⟩
  · have hleft : w.setDerived s (some (v.absorb (v.pane o).extract)) = w := setDerived_self ha.left
    have hright : w.setDerived t (some (u.absorb (u.pane o).extract)) = w :=
      setDerived_self ha.right
    rw [rejoined, setBlock_self ha.owner, hleft, hright]
  · obtain rfl : c = c' := Option.some.inj (hc.symm.trans hc')
    rfl

theorem Beside.derived_left (ha : w.Apart s t v u o) (h : w.Beside s t v u o p q b w') :
    w'.derived? s = some (v.absorb p) := by
  rw [h.world, rejoined, derived?_setDerived_ne ha.other]
  exact derived?_setDerived_self ((derived?_setBlock _).trans ha.left) _

theorem Beside.pane_left (ha : w.Apart s t v u o) (h : w.Beside s t v u o p q b w') :
    w'.pane? s = some ((v.absorb p).pane { o with block := b }) := by
  refine pane?_derived (h.derived_left ha) ?_
  rw [h.world, rejoined, owner?_setDerived, owner?_setDerived]
  exact owner?_setBlock_self ha.owner b

/-- Work on the left window leaves the right one alone. -/
theorem Beside.store_left (ha : w.Apart s t v u o) (h : w.Beside s t v u o p q b w') {p' : Pane}
    (he : ((v.absorb p).pane { o with block := b }).Evolves p') :
    w.Beside s t v u o p'.extract q p'.block (w'.store s p') := by
  refine ⟨h.sound.store (h.pane_left ha) he, ?_, ?_, ?_, he.size.trans h.size, ?_⟩
  -- block and view are replaced once more
  · rw [store_derived (h.derived_left ha), h.world]
    simp only [rejoined, setBlock_setDerived]
    rw [show (v.absorb p).root = v.root from rfl, setBlock_setBlock ha.owner,
      setDerived_comm ha.other, setDerived_setDerived]
    rfl
  · obtain ⟨block, released, offset, capacity, cursor, order⟩ := p'
    obtain rfl : released = o.released := he.released
    obtain rfl : offset = v.offset := he.offset
    obtain rfl : capacity = v.capacity := he.capacity
    rfl
  · have hwindow : p'.block.map (fun c => (c.drop u.offset).take u.capacity) =
        b.map fun c => (c.drop u.offset).take u.capacity := by
      refine Block.map_window_eq he.size fun c c' hc hc' i hle hlt => ?_
      refine he.outside c c' hc hc' i ?_
      have hi : ¬(v.offset ≤ i ∧ i < v.offset + v.capacity) := fun hi =>
        ha.disjoint i hi ⟨hle, hlt⟩
      show i < v.offset ∨ v.offset + v.capacity ≤ i
      omega
    rw [← h.right]
    exact congrArg (fun c => { (u.absorb q).pane o with block := c, offset := 0 }) hwindow
  · intro c c' hc hc' i hi hi'
    obtain ⟨d, hd, -⟩ := Option.map_eq_some_iff.1 (he.size.symm.trans (congrArg _ hc'))
    exact (he.outside d c' hd hc' i hi).trans (h.outside c d hc hd i hi hi')

/-- **A call through the left view** comes to what it comes to on the bytes of its window. -/
theorem Beside.call_left (ha : w.Apart s t v u o) (h : w.Beside s t v u o p q b w') (call : Call) :
    ∃ w'', (Operation.call s call).run w' = ((call.run p).1.map Reply.answer, w'') ∧
      ∃ b', w.Beside s t v u o (call.run p).2 q b' w'' := by
  have hpane := h.pane_left ha
  have hsound := h.sound.pane hpane
  have hrun := run_call hpane call
  obtain ⟨hlocal, -⟩ := call.local_run _ hsound.window
  rw [h.left] at hlocal
  rw [hlocal]
  exact ⟨_, hrun, _, h.store_left ha (call.run_evolves hsound)⟩

theorem Beside.call_right (ha : w.Apart s t v u o) (h : w.Beside s t v u o p q b w')
    (call : Call) :
    ∃ w'', (Operation.call t call).run w' = ((call.run q).1.map Reply.answer, w'') ∧
      ∃ b', w.Beside s t v u o p (call.run q).2 b' w'' := by
  obtain ⟨w'', hrun, b', h'⟩ := (h.symm ha).call_left ha.symm call
  exact ⟨w'', hrun, b', h'.symm ha.symm⟩

/-- The world is known from the two panes. -/
theorem Beside.unique (h : w.Beside s t v u o p q b w') (h' : w.Beside s t v u o p q b' w'') :
    w' = w'' := by
  have hb : b = b' := by
    have hsize : b.map List.length = b'.map List.length := h.size.trans h'.size.symm
    rcases b with _ | c
    · exact (Option.map_eq_none_iff.1 hsize.symm).symm
    obtain ⟨c', rfl, -⟩ := Option.map_eq_some_iff.1 hsize.symm
    obtain ⟨d, hd, -⟩ := Option.map_eq_some_iff.1 h.size.symm
    have hleft : (c.drop v.offset).take v.capacity = (c'.drop v.offset).take v.capacity :=
      Option.some.inj (congrArg Pane.block (h.left.trans h'.left.symm))
    have hright : (c.drop u.offset).take u.capacity = (c'.drop u.offset).take u.capacity :=
      Option.some.inj (congrArg Pane.block (h.right.trans h'.right.symm))
    refine congrArg some (List.ext_getElem? fun i => ?_)
    by_cases hv : v.offset ≤ i ∧ i < v.offset + v.capacity
    · exact Block.window_eq_iff.1 hleft i hv.1 hv.2
    by_cases hu : u.offset ≤ i ∧ i < u.offset + u.capacity
    · exact Block.window_eq_iff.1 hright i hu.1 hu.2
    · exact (h.outside d c hd rfl i (by omega) (by omega)).trans
        (h'.outside d c' hd rfl i (by omega) (by omega)).symm
  rw [h.world, h'.world, hb]

/-! ## Histories of calls -/

/-- **Each view gets the answers that its calls give on the bytes of its window**, in any order between
the two. -/
theorem Apart.run (ha : w.Apart s t v u o) (hw : w.Sound)
    (honly : ∀ step ∈ steps, step.1 = s ∨ step.1 = t) :
    (∃ b, w.Beside s t v u o (Call.runAll (callsTo s steps) (v.pane o).extract).2
      (Call.runAll (callsTo t steps) (u.pane o).extract).2 b (w.after (calling steps))) ∧
      w.answersTo s steps = (Call.runAll (callsTo s steps) (v.pane o).extract).1.map
        (Outcome.map Reply.answer) ∧
      w.answersTo t steps = (Call.runAll (callsTo t steps) (u.pane o).extract).1.map
        (Outcome.map Reply.answer) := by
  refine run_both (R := fun w' p q => ∃ b, w.Beside s t v u o p q b w') ha.other ?_ ?_
    ⟨_, ha.beside hw⟩ honly
  · exact fun _ _ _ call ⟨_, h⟩ => h.call_left ha call
  · exact fun _ _ _ call ⟨_, h⟩ => h.call_right ha call

/-- Calls through one view, and then calls through the other. -/
def oneByOne (s t : Handle) (calls rest : List Call) : List (Handle × Call) :=
  calls.map (Prod.mk s) ++ rest.map (Prod.mk t)

theorem mem_oneByOne {calls rest : List Call} :
    ∀ step ∈ oneByOne s t calls rest, step.1 = s ∨ step.1 = t := by
  simp only [oneByOne, List.mem_append, List.mem_map]
  rintro _ (⟨_, -, rfl⟩ | ⟨_, -, rfl⟩)
  · exact .inl rfl
  · exact .inr rfl

theorem callsTo_oneByOne (hst : s ≠ t) (calls rest : List Call) :
    callsTo s (oneByOne s t calls rest) = calls ∧ callsTo t (oneByOne s t calls rest) = rest := by
  simp only [oneByOne, callsTo_append]
  rw [callsTo_map_self, callsTo_map_ne hst.symm, callsTo_map_ne hst, callsTo_map_self,
    List.append_nil, List.nil_append]
  exact ⟨rfl, rfl⟩

/-- A view has the indices, marks and byte order that its own calls make of them. -/
theorem Apart.derived_run (ha : w.Apart s t v u o) (hw : w.Sound)
    (honly : ∀ step ∈ steps, step.1 = s ∨ step.1 = t) :
    (w.after (calling steps)).derived? s =
        some (v.absorb (Call.runAll (callsTo s steps) (v.pane o).extract).2) ∧
      (w.after (calling steps)).derived? t =
        some (u.absorb (Call.runAll (callsTo t steps) (u.pane o).extract).2) := by
  obtain ⟨⟨b, hend⟩, -⟩ := ha.run hw honly
  exact ⟨hend.derived_left ha, (hend.symm ha).derived_left ha.symm⟩

/-- **Views with windows apart do not interfere.** Calls through two views of one owner are put in any
order between the two. Each call answers what it answers if all calls through the one view come first,
and the world is the same in the end. On the way, too, the indices, marks and byte order of a view are
what its own calls make of them. This holds whether or not the memory was released. -/
theorem interleavings_agree (hw : w.Reachable) (hv : w.derived? s = some v)
    (hu : w.derived? t = some u) (hshared : v.root = u.root) (hst : s ≠ t)
    (hapart : ∀ i, v.offset ≤ i ∧ i < v.offset + v.capacity →
      ¬(u.offset ≤ i ∧ i < u.offset + u.capacity))
    (honly : ∀ step ∈ steps, step.1 = s ∨ step.1 = t) :
    let ordered := oneByOne s t (callsTo s steps) (callsTo t steps)
    w.answersTo s steps = w.answersTo s ordered ∧ w.answersTo t steps = w.answersTo t ordered ∧
      w.after (calling steps) = w.after (calling ordered) ∧
      (w.after (calling steps)).derived? s =
        (w.after (calling (oneByOne s t (callsTo s steps) []))).derived? s ∧
      (w.after (calling steps)).derived? t =
        (w.after (calling (oneByOne s t [] (callsTo t steps)))).derived? t := by
  intro ordered
  have hsound := hw.sound
  obtain ⟨o, ho, -⟩ := hsound.derived s v hv
  have ha : w.Apart s t v u o := ⟨hv, hu, ho, hshared.symm, hst, hapart⟩
  obtain ⟨⟨b, hend⟩, hs, ht⟩ := ha.run hsound honly
  have hordered : ∀ step ∈ ordered, step.1 = s ∨ step.1 = t := mem_oneByOne
  obtain ⟨⟨b', hend'⟩, hs', ht'⟩ := ha.run hsound hordered
  obtain ⟨hleft, hright⟩ := ha.derived_run hsound honly
  obtain ⟨hcalls, hrest⟩ := callsTo_oneByOne hst (callsTo s steps) (callsTo t steps)
  rw [hcalls, hrest] at hend'
  rw [hcalls] at hs'
  rw [hrest] at ht'
  refine ⟨hs.trans hs'.symm, ht.trans ht'.symm, hend.unique hend', ?_, ?_⟩
  · rw [hleft, (ha.derived_run hsound mem_oneByOne).1, (callsTo_oneByOne hst _ _).1]
  · rw [hright, (ha.derived_run hsound mem_oneByOne).2, (callsTo_oneByOne hst _ _).2]

/-- A slice of the first half of eight bytes, and a slice of a slice of the second half. The first one
refuses to skip more than it has, and finds no byte of the other. -/
theorem interleavings_agree_halves :
    let w := (start [⟨true, false, .log⟩]).after
      [.allocate 0 8, .call (.owner 0) (.appendBytes [1, 2, 3, 4, 5, 6, 7, 8]),
        .slice (.owner 0) 0 4, .slice (.owner 0) 2 6, .slice (.view 1) 2 4]
    let steps : List (Handle × Call) := [(.view 2, .readBytes 2), (.view 0, .pokeBytes 3 [9]),
      (.view 2, .compact), (.view 0, .find 0 4 5), (.view 0, .skip 5), (.view 2, .readBytes 3)]
    let ordered := oneByOne (.view 0) (.view 2) (callsTo (.view 0) steps) (callsTo (.view 2) steps)
    w.answersTo (.view 0) steps = w.answersTo (.view 0) ordered ∧
      w.answersTo (.view 2) steps = w.answersTo (.view 2) ordered ∧
      w.after (calling steps) = w.after (calling ordered) ∧
      ((w.after (calling steps)).pane? (.owner 0)).bind Pane.block =
        some [1, 2, 3, 9, 7, 8, 7, 8] := by
  intro w steps ordered
  have hw : w.Reachable := ⟨_, _, rfl⟩
  have hv : w.derived? (.view 0) = some ⟨0, 0, 4, Cursor.holding 4, default, .slice⟩ := by decide
  have hu : w.derived? (.view 2) = some ⟨0, 4, 4, Cursor.holding 4, default, .slice⟩ := by decide
  have hapart : ∀ i, 0 ≤ i ∧ i < 0 + 4 → ¬(4 ≤ i ∧ i < 4 + 4) := by omega
  obtain ⟨hleft, hright, hend, -⟩ := interleavings_agree hw hv hu rfl (by decide) hapart
    (show ∀ step ∈ steps, step.1 = .view 0 ∨ step.1 = .view 2 by simp [steps])
  exact ⟨hleft, hright, hend, by decide⟩

end World

end PacketMemory
