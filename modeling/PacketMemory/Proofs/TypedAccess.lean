import Mathlib.Data.List.Basic
import PacketMemory.Proofs.Pane.Released
import PacketMemory.Proofs.World.Calls

/-!
# Numbers through several handles

A number that is written through one handle is an overlay of its bytes over those of the memory, and
a number that is read through another handle of this memory is made of whatever bytes lie there
(`World.Sound.run_pokeScalar`). Both handles have a window and a byte order of their own, and
each access may go by the order of its handle or by the opposite one. The latter is what the former is
through a handle of the opposite order (`Pane.FlipsTo`).

Main statement: `World.Reachable.scalars_overlay`.
-/

namespace PacketMemory

/-! ## The opposite order -/

namespace ByteOrder

theorem eq_of_ne_opposite {order other : ByteOrder} (h : other ≠ order.opposite) :
    other = order := by
  cases other <;> cases order <;> first | rfl | exact absurd rfl h

theorem eq_opposite_of_ne {order other : ByteOrder} (h : other ≠ order) :
    other = order.opposite := by
  cases other <;> cases order <;> first | rfl | exact absurd rfl h

end ByteOrder

namespace Scalar

theorem bytes_opposite (order : ByteOrder) (v : Scalar) :
    v.bytes order.opposite = (v.bytes order).reverse := by
  cases order with
  | big => exact (List.reverse_reverse _).symm
  | little => rfl

/-- Bytes that are read in the wrong order make up the number with the bytes reversed. -/
theorem bytes_ofBytes_opposite (order other : ByteOrder) (v : Scalar) :
    (ofBytes v.type order.opposite (v.bytes order)).bytes other = (v.bytes other).reverse := by
  have hread : (ofBytes v.type order.opposite (v.bytes order)).bytes order.opposite = v.bytes order :=
    bytes_ofBytes order.opposite (v.length_bytes order)
  by_cases h : other = order.opposite
  · rw [h, hread, bytes_opposite, List.reverse_reverse]
  · obtain rfl := ByteOrder.eq_of_ne_opposite h
    generalize ofBytes v.type other.opposite (v.bytes other) = u at hread ⊢
    rw [← hread, bytes_opposite, List.reverse_reverse]

/-- What the bytes of a number are read as: the number, or the one with these bytes reversed. -/
theorem ofBytes_cases (order order' : ByteOrder) (v : Scalar) :
    let u := ofBytes v.type order' (v.bytes order)
    (order' = order → u = v) ∧
      (order' ≠ order → u.type = v.type ∧ ∀ o, u.bytes o = (v.bytes o).reverse) := by
  refine ⟨fun he => ?_, fun hne => ⟨type_ofBytes .., fun o => ?_⟩⟩
  · rw [he, ofBytes_bytes]
  · rw [ByteOrder.eq_opposite_of_ne hne, bytes_ofBytes_opposite]

end Scalar

namespace Pane

variable {p q : Pane} {index other : Nat} {v : Scalar} {type : ScalarType}

/-- The pane with the opposite byte order. -/
def flipped (p : Pane) : Pane := { p with order := p.order.opposite }

theorem orderFor_flipped (p : Pane) (reversed : Bool) :
    p.flipped.orderFor reversed = p.orderFor !reversed := by
  cases reversed with
  | false => rfl
  | true => exact ByteOrder.opposite_opposite p.order

theorem Sound.evolves_flipped (hp : p.Sound) : p.Evolves p.flipped :=
  hp.evolves_order p.order.opposite

/-! ## One access -/

theorem peekScalar_refused (hp : p.Sound) (h : ¬(p.Live ∧ index + type.size ≤ p.capacity))
    (reversed : Bool) :
    peekScalar type index reversed p = (.failed (p.rangeRefusal index type.size), p) :=
  (Action.bind_done (effectiveOrder_apply reversed)).trans
    (Action.bind_failed (checkRange_refused hp h))

theorem pokeScalar_refused (hp : p.Sound) (h : ¬(p.Live ∧ index + v.type.size ≤ p.capacity))
    (reversed : Bool) :
    pokeScalar index v reversed p = (.failed (p.rangeRefusal index v.type.size), p) :=
  (Action.bind_done (effectiveOrder_apply reversed)).trans
    (Action.bind_failed (checkRange_refused hp h))

/-- On the pane with the opposite byte order, one task comes to what the other one comes to on the
pane. -/
def FlipsTo {α : Type} (p : Pane) (m m' : Task α) : Prop :=
  m p.flipped = ((m' p).1, { (m' p).2 with order := p.order.opposite })

/-- **Reading a number in the opposite order** is reading it through the pane of the opposite order. -/
theorem Sound.peekScalar_flips (hp : p.Sound) (type : ScalarType) (index : Nat) (reversed : Bool) :
    p.FlipsTo (peekScalar type index reversed) (peekScalar type index !reversed) := by
  have hq := hp.of_evolves hp.evolves_flipped
  unfold FlipsTo
  by_cases h : p.Live ∧ index + type.size ≤ p.capacity
  · rw [peekScalar_apply hq h.1 type h.2, peekScalar_apply hp h.1 type h.2, orderFor_flipped]
    rfl
  · rw [peekScalar_refused hq h, peekScalar_refused hp h]
    rfl

/-- **Writing a number in the opposite order** is writing it through the pane of the opposite order. -/
theorem Sound.pokeScalar_flips (hp : p.Sound) (index : Nat) (v : Scalar) (reversed : Bool) :
    p.FlipsTo (pokeScalar index v reversed) (pokeScalar index v !reversed) := by
  have hq := hp.of_evolves hp.evolves_flipped
  unfold FlipsTo
  by_cases h : p.Live ∧ index + v.type.size ≤ p.capacity
  · rw [pokeScalar_apply hq h.1 h.2, pokeScalar_apply hp h.1 h.2, orderFor_flipped]
    rfl
  · rw [pokeScalar_refused hq h, pokeScalar_refused hp h]
    rfl

theorem FlipsTo.answer {α β : Type} {m m' : Task α} (h : p.FlipsTo m m') (f : α → β) :
    p.FlipsTo (m >>= fun a => pure (f a)) (m' >>= fun a => pure (f a)) := by
  unfold FlipsTo at h ⊢
  rw [Action.bind_apply, Action.bind_apply, h]
  rcases m' p with ⟨a | e | t, p'⟩ <;> rfl

end Pane

namespace World

variable {w : World} {source target : Handle} {p q : Pane} {index other : Nat} {v : Scalar}
variable {type : ScalarType}

/-! ## One access after the other -/

/-- What every handle of the memory sees after a number was written through one of them. -/
theorem Sound.run_pokeScalar (hw : w.Sound) (hp : w.pane? source = some p) (hl : p.Live)
    (hfit : index + v.type.size ≤ p.capacity) (reversed : Bool) :
    let start := p.offset + index
    ∃ b b' w', p.block = some b ∧
      (Operation.call source (.pokeScalar index v reversed)).run w = (.done .unit, w') ∧ w'.Sound ∧
      (∀ place : Nat, b'[place]? = if start ≤ place ∧ place < start + v.type.size
        then (v.bytes (p.orderFor reversed))[place - start]? else b[place]?) ∧
      ∀ target q, w.pane? target = some q → w.root? target = w.root? source →
        w'.pane? target = some { q with block := some b' } := by
  intro start
  have hs := hw.pane hp
  obtain ⟨b, hb⟩ := Option.isSome_iff_exists.1 hl.2
  have hwindow := hs.window b hb
  have hlen := v.length_bytes (p.orderFor reversed)
  generalize hbytes : v.bytes (p.orderFor reversed) = bytes at hlen
  have he : p.Evolves (p.overwrite index bytes) := hs.evolves_overwrite (by rw [hlen]; exact hfit)
  have hblock : p.overwrite index bytes =
      { p with block := some (b.take start ++ (bytes ++ b.drop (start + bytes.length))) } := by
    rw [Pane.overwrite, hb, Option.map_some]
  have hrun : (Call.pokeScalar index v reversed).run p = (.done .unit, p.overwrite index bytes) := by
    rw [← hbytes]
    exact Action.bind_done (Pane.pokeScalar_apply hs hl hfit reversed)
  rw [hblock] at he hrun
  refine ⟨b, _, _, hb, by rw [run_call hp, hrun]; rfl, hw.store hp he, fun place => ?_,
    fun target q hq hroot => pane?_store_shared hp he hq hroot⟩
  rw [← hlen]
  exact Block.getElem?_overwrite (by omega) place

theorem run_peekScalar (hq : w.pane? target = some q) (hs : q.Sound) (hl : q.Live)
    (hfit : other + type.size ≤ q.capacity) (reversed : Bool) :
    (Operation.call target (.peekScalar type other reversed)).run w =
      (.done (.answer (.scalar
        (.ofBytes type (q.orderFor reversed) (q.bytesAt other type.size)))), w) :=
  call_query hq (Action.bind_done (Pane.peekScalar_apply hs hl type hfit reversed))

theorem run_setOrder (hq : w.pane? target = some q) (order : ByteOrder) :
    (Operation.call target (.setOrder order)).run w =
      (.done .unit, w.store target { q with order := order }) := by
  rw [run_call hq]
  rfl

/-- If a call comes to the same on the pane with the opposite byte order as another one on the pane, it
makes no difference whether the order is changed before the one or after the other. -/
theorem Sound.run_flipped (hw : w.Sound) (hq : w.pane? target = some q) {call call' : Call}
    (hcall : q.FlipsTo call.run call'.run) :
    let flip := Operation.call target (.setOrder q.order.opposite)
    (Operation.call target call).run (flip.run w).2 =
      (((Operation.call target call').run w).1,
        (flip.run ((Operation.call target call').run w).2).2) := by
  intro flip
  have hs := hw.pane hq
  have hseen := pane?_store_self hq (call'.run_evolves hs)
  have hrun := run_call (pane?_store_self hq hs.evolves_flipped) call
  rw [store_store hq, show call.run q.flipped = _ from hcall] at hrun
  rw [run_setOrder hq, run_call hq, run_setOrder hseen, store_store hq]
  exact hrun

/-- **Numbers through several handles of one memory.** Behind a number that was written through one of
them, a number that is read through another is made of the bytes that lie there: those of the number
that was written where these were put, and the old ones everywhere else. So the same number is read
back in the same place, with its bytes reversed if the orders of the two accesses differ, and what lies
apart from the number that was written is what it was. Reversed access is natural access through the
handle with the opposite byte order. -/
theorem Reachable.scalars_overlay (hw : w.Reachable) (hp : w.pane? source = some p)
    (hq : w.pane? target = some q) (hroot : w.root? target = w.root? source)
    (hr : p.released = false) :
    (∀ (v : Scalar) (type : ScalarType) (index other : Nat) (reversed reversed' : Bool),
      index + v.type.size ≤ p.capacity → other + type.size ≤ q.capacity →
      let order := p.orderFor reversed
      let order' := q.orderFor reversed'
      let start := p.offset + index
      let start' := q.offset + other
      let writing := Operation.call source (.pokeScalar index v reversed)
      let reading := Operation.call target (.peekScalar type other reversed')
      ∃ b w' bytes, p.block = some b ∧ writing.run w = (.done .unit, w') ∧
        bytes.length = type.size ∧
        (∀ k < type.size, bytes[k]? =
          if start ≤ start' + k ∧ start' + k < start + v.type.size
          then (v.bytes order)[start' + k - start]? else b[start' + k]?) ∧
        reading.run w' = (.done (.answer (.scalar (.ofBytes type order' bytes))), w') ∧
        (start' = start → type = v.type → ∃ u : Scalar,
          reading.run w' = (.done (.answer (.scalar u)), w') ∧ (order' = order → u = v) ∧
          (order' ≠ order → u.type = v.type ∧ ∀ o, u.bytes o = (v.bytes o).reverse)) ∧
        (start' + type.size ≤ start ∨ start + v.type.size ≤ start' →
          (reading.run w').1 = (reading.run w).1)) ∧
    let flip := Operation.call target (.setOrder q.order.opposite)
    ∀ access : Bool → Call,
      (∃ type index, access = .peekScalar type index) ∨ (∃ index v, access = .pokeScalar index v) →
      ∀ reversed, (Operation.call target (access reversed)).run (flip.run w).2 =
        (((Operation.call target (access !reversed)).run w).1,
          (flip.run ((Operation.call target (access !reversed)).run w).2).2) := by
  have hs := hw.sound
  have hl := hs.live_of_pane hp hr
  obtain ⟨hblock, hreleased⟩ := memory_of_root hp hq hroot
  have hql := hs.live_of_pane hq (hreleased.trans hr)
  refine ⟨?_, ?_⟩
  · intro v type index other reversed reversed' hfit hfit' order order' start start' writing reading
    obtain ⟨b, b', w', hb, hrun, hs', hbytes, hshared⟩ := hs.run_pokeScalar hp hl hfit reversed
    have hq' := hshared target q hq hroot
    have hl' := hs'.live_of_pane hq' (hreleased.trans hr)
    have hlen := Pane.length_bytesAt (hs'.pane hq') hl' hfit'
    have hread := run_peekScalar hq' (hs'.pane hq') hl' hfit' reversed'
    have hplaces : ∀ k < type.size, (Pane.bytesAt { q with block := some b' } other type.size)[k]? =
        if start ≤ start' + k ∧ start' + k < start + v.type.size
          then (v.bytes order)[start' + k - start]? else b[start' + k]? := fun k hk =>
      (Pane.getElem?_bytesAt rfl hk).trans (hbytes (start' + k))
    generalize Pane.bytesAt { q with block := some b' } other type.size = bytes at hlen hread hplaces
    refine ⟨b, w', bytes, hb, hrun, hlen, hplaces, hread, ?_, ?_⟩
    · -- all of the bytes that are read are those that were written
      rintro hstart rfl
      have hsame : bytes = v.bytes order := by
        have hsize := v.length_bytes order
        refine List.ext_getElem?' fun k hk => ?_
        rw [hplaces k (by omega), if_pos (by omega), hstart, Nat.add_sub_cancel_left]
      subst hsame
      exact ⟨_, hread, Scalar.ofBytes_cases order order' v⟩
    · -- none of them are
      intro hapart
      have hbefore := Pane.length_bytesAt (hs.pane hq) hql hfit'
      have hsame : bytes = q.bytesAt other type.size := by
        refine List.ext_getElem?' fun k hk => ?_
        have hk : k < type.size := by omega
        rw [hplaces k hk, if_neg (by omega), Pane.getElem?_bytesAt (hblock.trans hb) hk]
      rw [hread, run_peekScalar hq (hs.pane hq) hql hfit' reversed', hsame]
      rfl
  · intro flip access haccess reversed
    refine hs.run_flipped hq ?_
    rcases haccess with ⟨type, index, rfl⟩ | ⟨index, v, rfl⟩
    · exact ((hs.pane hq).peekScalar_flips type index reversed).answer _
    · exact ((hs.pane hq).pokeScalar_flips index v reversed).answer _

/-- A number of four bytes is written through an owner, and two bytes of it are read through a slice
with the opposite byte order that starts one byte later. The four bytes are read back reversed, and the
byte in front of them is what it was. -/
theorem scalars_overlay_partial :
    let w := (start [.standard]).after [.allocate 0 8, .slice (.owner 0) 1 7,
      .call (.view 0) (.setOrder .little)]
    let w' := w.after [.call (.owner 0) (.pokeScalar 2 ⟨.uint32, 0x01020304⟩ false)]
    (Operation.call (.view 0) (.peekScalar .uint16 2 false)).run w' =
        (.done (.answer (.scalar ⟨.uint16, 0x0302⟩)), w') ∧
      (∃ u : Scalar, (Operation.call (.view 0) (.peekScalar .uint32 1 false)).run w' =
        (.done (.answer (.scalar u)), w') ∧ ∀ o, u.bytes o =
          (Scalar.bytes o ⟨.uint32, 0x01020304⟩).reverse) ∧
      ((Operation.call (.view 0) (.peekScalar .uint8 0 false)).run w').1 =
        ((Operation.call (.view 0) (.peekScalar .uint8 0 false)).run w).1 := by
  intro w w'
  have hw : w.Reachable := ⟨_, _, rfl⟩
  have hp : w.pane? (.owner 0) =
      some ⟨some (Block.zeros 8), false, 0, 8, Cursor.empty, default⟩ := by rfl
  have hq : w.pane? (.view 0) =
      some ⟨some (Block.zeros 8), false, 1, 7, Cursor.holding 7, .little⟩ := by rfl
  obtain ⟨hoverlay, -⟩ := hw.scalars_overlay hp hq (by rfl) rfl
  have hoverlay := fun type other => hoverlay ⟨.uint32, 0x01020304⟩ type 2 other false false (by decide)
  obtain ⟨b, w₁, bytes, -, hwrite, hlen, hplaces, hread, -, -⟩ := hoverlay .uint16 2 (by decide)
  obtain ⟨_, w₂, _, -, hwrite₂, -, -, -, hsame, -⟩ := hoverlay .uint32 1 (by decide)
  obtain ⟨_, w₃, _, -, hwrite₃, -, -, -, -, hapart⟩ := hoverlay .uint8 0 (by decide)
  have hw₁ : w' = w₁ := congrArg Prod.snd hwrite
  have hw₂ : w' = w₂ := congrArg Prod.snd hwrite₂
  have hw₃ : w' = w₃ := congrArg Prod.snd hwrite₃
  rw [← hw₁] at hread
  rw [← hw₂] at hsame
  rw [← hw₃] at hapart
  refine ⟨?_, ?_, hapart (.inl (by decide))⟩
  · have hfirst : bytes[0]? = some 2 := (hplaces 0 (by decide)).trans rfl
    have hsecond : bytes[1]? = some 3 := (hplaces 1 (by decide)).trans rfl
    obtain ⟨x, y, rfl⟩ := List.length_eq_two.1 hlen
    cases hfirst
    cases hsecond
    exact hread
  · obtain ⟨u, hu, -, hreversed⟩ := hsame rfl rfl
    exact ⟨u, hu, (hreversed (by decide)).2⟩

end World

end PacketMemory
