import PacketMemory.Proofs.Bounds
import PacketMemory.Proofs.World.Tracking

/-!
# Changes of capacity in a row

After any number of changes of its capacity, an owner is what it is after two of them: one to the
smallest capacity on the way, and one to the last (`Owner.Sound.foldl_resized`). What was cut off does
not come back, and what was added is zero.

* `World.Completes` says that all operations of a history succeed.
* `World.Sound.after_resizes` follows the owner through changes of capacity that succeed.

Main statement: `World.Reachable.resizes_compose`, which also says when a change of capacity succeeds.
-/

namespace PacketMemory

/-- The smallest capacity is not larger than the last one. -/
theorem foldl_min_le_getLastD (capacities : List Nat) {kept last : Nat} (h : kept ≤ last) :
    capacities.foldl min kept ≤ capacities.getLastD last := by
  induction capacities generalizing kept last with
  | nil => exact h
  | cons capacity rest ih =>
    rw [List.foldl_cons, List.getLastD_cons]
    exact ih (Nat.min_le_right kept capacity)

namespace Owner

theorem Sound.resized_self {o : Owner} (ho : o.Sound) : o.resized o.capacity = o := by
  have hblock : (o.block.map fun b => b.resize o.capacity) = o.block := by
    cases hb : o.block with
    | none => rfl
    | some b => rw [Option.map_some, ← ho.size b hb, b.resize_length]
  rw [Owner.resized, hblock, ho.cursor.clampTo_self]

/-- Of three capacities, all that counts is the smaller one of the cuts and the last one. -/
theorem resized_resized_resized (o : Owner) {kept capacity : Nat} (h : kept ≤ capacity)
    (other : Nat) :
    ((o.resized kept).resized capacity).resized other =
      (o.resized (min kept other)).resized other := by
  have hcursor : ((o.cursor.clampTo kept).clampTo capacity).clampTo other =
      (o.cursor.clampTo (min kept other)).clampTo other := by
    simp only [Cursor.clampTo_clampTo]
    congr 1
    omega
  simp only [resized, Option.map_map, Function.comp_def, Block.resize_resize_resize _ h, hcursor]

/-- **Changes of capacity in a row come to two**: to the smallest capacity, and to the last. -/
theorem foldl_resized_resized (o : Owner) {kept capacity : Nat} (h : kept ≤ capacity)
    (capacities : List Nat) :
    capacities.foldl resized ((o.resized kept).resized capacity) =
      (o.resized (capacities.foldl min kept)).resized (capacities.getLastD capacity) := by
  -- each step keeps the form: an owner that was cut, and then given some capacity
  induction capacities generalizing kept capacity with
  | nil => rfl
  | cons other rest ih =>
    rw [List.foldl_cons, o.resized_resized_resized h, ih (Nat.min_le_right kept other),
      List.foldl_cons, List.getLastD_cons]

theorem Sound.foldl_resized {o : Owner} (ho : o.Sound) (capacities : List Nat) :
    capacities.foldl Owner.resized o =
      (o.resized (capacities.foldl min o.capacity)).resized (capacities.getLastD o.capacity) := by
  have hself : (o.resized o.capacity).resized o.capacity = o := by
    rw [ho.resized_self, ho.resized_self]
  have hrow := o.foldl_resized_resized (Nat.le_refl o.capacity) capacities
  rwa [hself] at hrow

theorem bytesAt_pane {o : Owner} {b : Block} (hb : o.block = some b) (index length : Nat) :
    o.pane.bytesAt index length = (b.drop index).take length := by
  simp only [Pane.bytesAt, pane, hb, Option.getD_some, Nat.zero_add]

/-- What is readable behind a cut is the beginning of what was readable. -/
theorem unread_prefix {o o' : Owner} {b b' : Block} {kept : Nat} (hb : o.block = some b)
    (hb' : o'.block = some b') (hcommon : ∀ k < kept, b'[k]? = b[k]?)
    (hcursor : o'.cursor = o.cursor.clampTo kept) :
    o'.pane.bytesAt o'.cursor.reader (o'.cursor.writer - o'.cursor.reader) <+:
      o.pane.bytesAt o.cursor.reader (o.cursor.writer - o.cursor.reader) := by
  rw [bytesAt_pane hb, bytesAt_pane hb', hcursor]
  exact Block.window_prefix hcommon o.cursor.reader o.cursor.writer

end Owner

namespace World

variable {w : World} {i capacity : Nat} {o : Owner}

/-- All operations of the history succeed, one after the other. -/
def Completes (w : World) : List Operation → Prop
  | [] => True
  | op :: rest => (∃ reply w', op.run w = (.done reply, w')) ∧ Completes (op.run w).2 rest

/-! ## One change of capacity -/

theorem Sound.run_resize_ends (hw : w.Sound) (ho : w.owner? i = some o)
    (hnone : w.hasViews i = false) (capacity : Nat) :
    Action.Ends (Operation.resize i capacity).run w (o.objection capacity) :=
  (resize_ends hw ho hnone capacity).answer _

theorem run_resize (hw : w.Sound) (hd : (Deed.resize i capacity).Allowed w) :
    (Operation.resize i capacity).run w = (.done .unit, w.resized i capacity) :=
  Action.bind_done (resize_apply hw hd)

theorem owner?_resized (ho : w.owner? i = some o) (capacity : Nat) :
    (w.resized i capacity).owner? i = some (o.resized capacity) := by
  rw [resized, onOwner_of_some ho]
  exact owner?_setOwner_self ((owner?_amended ..).trans ho) (owner?_eq_some_iff.1 ho).2

theorem hasViews_resized (ho : w.owner? i = some o) (capacity : Nat) :
    (w.resized i capacity).hasViews i = w.hasViews i := by
  rw [resized, onOwner_of_some ho]
  exact hasViews_amended (w := w) ..

/-! ## Any number of them -/

/-- **What successful changes of capacity make of an owner.** -/
theorem Sound.after_resizes (hw : w.Sound) (ho : w.owner? i = some o)
    (hnone : w.hasViews i = false) {capacities : List Nat}
    (h : w.Completes (capacities.map (Operation.resize i))) :
    (w.after (capacities.map (Operation.resize i))).owner? i =
      some (capacities.foldl Owner.resized o) := by
  induction capacities generalizing w o with
  | nil => exact ho
  | cons capacity rest ih =>
    obtain ⟨hdone, hrest⟩ := h
    have hfree := (hw.run_resize_ends ho hnone capacity).succeeds_iff.1 hdone
    have hd := allowed_resize (hw.owner i o ho) ho hnone hfree
    have hrun := run_resize hw hd
    rw [hrun] at hrest
    rw [List.map_cons, after_cons, hrun]
    exact ih (hw.enact hd) (owner?_resized ho capacity) ((hasViews_resized ho capacity).trans hnone)
      hrest

/-- **Changes of capacity compose.** An owner without views takes a capacity iff the capacity is not
zero, the memory was not released, and the capacity is not too large; these are checked in this
order. After any number of changes that succeed, the owner has the last of the capacities. The bytes,
the indices and the marks are those of before, cut to the smallest capacity there was, with zeros
behind the bytes; so what is readable is the beginning of what was readable. The record of a tracked
owner tells the last capacity. -/
theorem Reachable.resizes_compose (hw : w.Reachable) (ho : w.owner? i = some o)
    (hnone : w.hasViews i = false) :
    (∀ capacity, Action.Ends (Operation.resize i capacity).run w (o.objection capacity) ∧
      ((∃ reply w', (Operation.resize i capacity).run w = (.done reply, w')) ↔
        capacity ≠ 0 ∧ o.released = false ∧ capacity ≤ Block.largest)) ∧
    ∀ capacities : List Nat, o.released = false →
      w.Completes (capacities.map (Operation.resize i)) →
      let w' := w.after (capacities.map (Operation.resize i))
      let kept := capacities.foldl min o.capacity
      let last := capacities.getLastD o.capacity
      ∃ o' b b', w'.owner? i = some o' ∧ o.block = some b ∧ o'.block = some b' ∧
        o'.capacity = last ∧ b'.length = last ∧
        (∀ k < last, b'[k]? = if k < kept then b[k]? else some 0) ∧
        o'.cursor = ⟨min o.cursor.reader kept, min o.cursor.writer kept,
          min o.cursor.markedReader kept, min o.cursor.markedWriter kept⟩ ∧
        (∃ unread unread',
          (Operation.call (.owner i) .contents).run w = (.done (.answer (.bytes unread)), w) ∧
          (Operation.call (.owner i) .contents).run w' = (.done (.answer (.bytes unread')), w') ∧
          unread' <+: unread) ∧
        ∀ n, o.tracker = some n → ∃ detector, w'.detectors[o.detector]? = some detector ∧
          detector.Records n last := by
  have hs := hw.sound
  have hos := hs.owner i o ho
  refine ⟨fun capacity => ?_, fun capacities hr hcompletes => ?_⟩
  · have hends := hs.run_resize_ends ho hnone capacity
    exact ⟨hends, hends.succeeds_iff.trans Owner.objection_eq_none_iff⟩
  intro w' kept last
  have hw' : w'.Reachable := hw.after _
  obtain ⟨b, hb⟩ := Option.isSome_iff_exists.1 (hos.live hr).2
  have hb : o.block = some b := hb
  have hlen := hos.size b hb
  have hkept : kept ≤ o.capacity := by
    simp only [kept, List.foldl_min]
    exact Nat.min_le_left ..
  have hlast : kept ≤ last := foldl_min_le_getLastD capacities (Nat.le_refl _)
  have ho' : w'.owner? i = some ((o.resized kept).resized last) :=
    (hs.after_resizes ho hnone hcompletes).trans (congrArg some (hos.foldl_resized capacities))
  have hbytes : ∀ k < last, ((b.resize kept).resize last)[k]? = if k < kept then b[k]? else some 0 :=
    fun k hk => Block.getElem?_resize_resize (hlen ▸ hkept) hk
  have hcursor : (o.cursor.clampTo kept).clampTo last = o.cursor.clampTo kept := by
    rw [Cursor.clampTo_clampTo, Nat.min_eq_left hlast]
  have hb' : ((o.resized kept).resized last).block = some ((b.resize kept).resize last) := by
    simp only [Owner.resized, hb, Option.map_some]
  have hcommon : ∀ k < kept, ((b.resize kept).resize last)[k]? = b[k]? := fun k hk =>
    (hbytes k (Nat.lt_of_lt_of_le hk hlast)).trans (if_pos hk)
  have hpane := pane?_owner ho
  have hpane' := pane?_owner ho'
  have hos' := hw'.sound.owner i _ ho'
  exact ⟨_, b, _, ho', hb, hb', rfl, Block.length_resize .., hbytes, hcursor,
    ⟨_, _, run_contents hpane hos.pane (hos.live hr), run_contents hpane' hos'.pane (hos'.live hr),
      Owner.unread_prefix hb hb' hcommon hcursor⟩,
    fun n hn => hw'.tracks.record i _ n ho' hn⟩

/-- An owner of eight bytes, six of them written and two read, is cut to three bytes and grows to six.
One byte stays readable, and the bytes that were cut off are zero. -/
theorem resizes_compose_regrown :
    let w := (start [⟨true, false, .log⟩]).after [.allocate 0 8,
      .call (.owner 0) (.appendBytes [1, 2, 3, 4, 5, 6]), .call (.owner 0) (.skip 2)]
    let w' := w.after [.resize 0 3, .resize 0 6]
    (Operation.resize 0 0).run w = (.failed (.illegalArgument .zeroCapacity), w) ∧
      ∃ o' b', w'.owner? 0 = some o' ∧ o'.block = some b' ∧ b'[2]? = some 3 ∧ b'[3]? = some 0 ∧
        o'.cursor = ⟨2, 3, 0, 0⟩ ∧
        ∃ detector, w'.detectors[0]? = some detector ∧ detector.Records 0 6 := by
  intro w w'
  have hw : w.Reachable := ⟨_, _, rfl⟩
  have ho : w.owner? 0 = some
      ⟨some [1, 2, 3, 4, 5, 6, 0, 0], 8, ⟨2, 6, 0, 0⟩, default, false, 0, some 0, true⟩ := by rfl
  obtain ⟨hends, hrow⟩ := hw.resizes_compose ho (by rfl)
  refine ⟨(hends 0).1, ?_⟩
  have hcompletes : w.Completes [.resize 0 3, .resize 0 6] :=
    ⟨⟨.unit, _, by rfl⟩, ⟨.unit, _, by rfl⟩, trivial⟩
  obtain ⟨o', b, b', ho', hb, hb', -, -, hbytes, hcursor, -, hrecord⟩ :=
    hrow [3, 6] rfl hcompletes
  cases hb
  exact ⟨o', b', ho', hb', hbytes 2 (by decide), hbytes 3 (by decide), hcursor, hrecord 0 rfl⟩

end World

end PacketMemory
