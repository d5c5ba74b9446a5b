import PacketMemory.Proofs.Pane.Calls
import PacketMemory.Proofs.Pane.Demand
import PacketMemory.Proofs.Pane.Released
import PacketMemory.Proofs.World.View
import PacketMemory.World.Transfer

/-!
# Between handles: copies and transfers

A transfer checks both handles before it moves anything, and what it does to the one leaves the
check of the other in force, also if both are the same or share the block. What it comes to is a
reading and an appending (`World.transfer_succeeds`). Of two refusals, that of the source is reported.

A copy allocates behind its checks; the new owner has exactly the room that the copy needs, so
filling it cannot fail and nothing has to be cleaned up. What it leaves behind is `World.copied`.
-/

namespace PacketMemory

/-- What the owner of these bytes sees if all of them are readable and nothing was marked. -/
def Pane.holding (bytes : List UInt8) (order : ByteOrder) : Pane :=
  ⟨some bytes, false, 0, bytes.length, Cursor.holding bytes.length, order⟩

/-- A new owner can come to hold as many bytes as it has room for. -/
theorem Pane.evolves_holding {bytes : List UInt8} {length : Nat} (hlen : bytes.length = length)
    (order : ByteOrder) : (Pane.fresh length).Evolves (Pane.holding bytes order) := by
  subst hlen
  refine ⟨rfl, rfl, rfl, Cursor.inBounds_holding bytes.length, ?_, ?_⟩
  · simp [Pane.fresh, Pane.holding]
  · rintro b b' ⟨⟩ ⟨⟩ i hi
    simp only [Pane.fresh] at hi
    rw [List.getElem?_eq_none (by omega),
      List.getElem?_eq_none (by rw [Block.length_zeros]; omega)]

namespace World

/-- The allocation of a copy, which reports to the detector of its source. -/
def copyDeeds (w : World) (h : Handle) (length : Nat) : List Deed :=
  match (w.root? h).bind w.owner? with
  | none => []
  | some o => [.allocate o.detector length]

/-- The allocation of a copy of the readable bytes. -/
def copyUnreadDeeds (w : World) (h : Handle) : List Deed :=
  match w.pane? h with
  | none => []
  | some p => w.copyDeeds h (p.cursor.writer - p.cursor.reader)

variable {w : World} {h source target : Handle} {p q : Pane} {index targetIndex length : Nat}

/-! ## Bytes from one handle to another -/

/-- The bytes of the source fit where they are put. -/
theorem evolves_copied (hw : w.Sound) (hp : w.pane? source = some p) (hq : w.pane? target = some q)
    (hl : p.Live) (hpr : index + length ≤ p.capacity) (hqr : targetIndex + length ≤ q.capacity) :
    q.Evolves (q.overwrite targetIndex (p.bytesAt index length)) := by
  refine (hw.pane hq).evolves_overwrite ?_
  rw [Pane.length_bytesAt (hw.pane hp) hl hpr]
  exact hqr

theorem put_copied (hw : w.Sound) (hp : w.pane? source = some p) (hq : w.pane? target = some q)
    (hpl : p.Live) (hql : q.Live) (hpr : index + length ≤ p.capacity)
    (hqr : targetIndex + length ≤ q.capacity) :
    Action.Succeeds (through target (Pane.put targetIndex (p.bytesAt index length))) w
      fun _ w' => w' = w.store target (q.overwrite targetIndex (p.bytesAt index length)) := by
  have hlen : targetIndex + (p.bytesAt index length).length ≤ q.capacity := by
    rw [Pane.length_bytesAt (hw.pane hp) hpl hpr]
    exact hqr
  refine (through_succeeds hq (Pane.put_succeeds (hw.pane hq) hql hlen)).mono ?_
  rintro _ _ ⟨_, rfl, rfl⟩
  rfl

theorem copyBytes_succeeds (hw : w.Sound) (hp : w.pane? source = some p)
    (hq : w.pane? target = some q) (hpl : p.Live) (hql : q.Live)
    (hpr : index + length ≤ p.capacity) (hqr : targetIndex + length ≤ q.capacity) :
    Action.Succeeds (copyBytes source index target targetIndex length) w fun _ w' =>
      w' = w.store target (q.overwrite targetIndex (p.bytesAt index length)) := by
  have hsp := (hw.pane hp).small
  have hsq := (hw.pane hq).small
  refine Action.Succeeds.after
    (through_query hp (Pane.checkRange_of_le hpl (by omega) hpr)) ?_
  refine Action.Succeeds.after
    (through_query hq (Pane.checkRange_of_le hql (by omega) hqr)) ?_
  refine Action.Succeeds.after (through_query hp (Pane.fetch_apply (hw.pane hp) hpl hpr)) ?_
  exact put_copied hw hp hq hpl hql hpr hqr

/-- Bytes are copied between live handles only, and into the window of the target. -/
theorem copyBytes_stores (hw : w.Sound) (source : Handle) (index : Nat) (target : Handle)
    (targetIndex length : Nat) :
    Action.Careful Trap.isMisuse (copyBytes source index target targetIndex length) w
      fun _ w' => ∃ p q, w.pane? source = some p ∧ w.pane? target = some q ∧ p.Live ∧ q.Live ∧
        index + length ≤ p.capacity ∧ targetIndex + length ≤ q.capacity ∧
        w' = w.store target (q.overwrite targetIndex (p.bytesAt index length)) := by
  refine (through_observes hw fun p _ hs => Pane.checkRange_observes hs index length).bind ?_
  rintro _ ⟨p, hp, hpl, hpr⟩
  refine (through_observes hw fun q _ hs => Pane.checkRange_observes hs targetIndex length).bind ?_
  rintro _ ⟨q, hq, hql, hqr⟩
  refine Action.Careful.after (through_query hp (Pane.fetch_apply (hw.pane hp) hpl hpr)) ?_
  exact (put_copied hw hp hq hpl hql hpr hqr).careful.mono fun _ _ h =>
    ⟨p, q, hp, hq, hpl, hql, hpr, hqr, h⟩

theorem copyBytes_careful (hw : w.Sound) (source : Handle) (index : Nat) (target : Handle)
    (targetIndex length : Nat) :
    Action.Careful Trap.isMisuse (copyBytes source index target targetIndex length) w
      fun _ w' => w.Works w' := by
  refine (copyBytes_stores hw source index target targetIndex length).mono ?_
  rintro _ _ ⟨p, q, hp, hq, hpl, hql, hpr, hqr, rfl⟩
  exact .store hq hql (evolves_copied hw hp hq hpl hpr hqr) (.refl _)

/-- What was read is a matter of the cursor. -/
theorem store_consumed (hp : w.pane? h = some p) (length : Nat) :
    w.store h (p.consumed length) = w.setCursor h (p.consumed length).cursor :=
  store_cursor hp _

/-- Moving the reader over bytes that are readable. -/
theorem through_consume (hw : w.Sound) (hp : w.pane? h = some p)
    (hread : length ≤ p.cursor.writer - p.cursor.reader) :
    through h (Pane.onCursor (Cursor.consume length)) w =
      (.done (), w.setCursor h (p.consumed length).cursor) := by
  rw [through_apply hp, Pane.consume_apply (hw.pane hp) hread]
  exact Prod.ext rfl (store_consumed hp length)

/-- Moving the writer over room. -/
theorem through_produce (hw : w.Sound) (hp : w.pane? h = some p)
    (hwrite : length ≤ p.capacity - p.cursor.writer) :
    through h (Pane.onCursor (Cursor.produce length)) w =
      (.done (), w.setCursor h (p.produced length).cursor) := by
  obtain ⟨_, _, hrun, rfl⟩ := Pane.produce_succeeds (hw.pane hp) hwrite
  rw [through_apply hp, hrun]
  exact Prod.ext rfl (store_cursor hp _)

/-- The cursor of a handle after bytes were read through the source. -/
def cursorBehind (source target : Handle) (p q : Pane) (length : Nat) : Cursor :=
  if target = source then (p.consumed length).cursor else q.cursor

/-- Reading through one handle moves no writer. -/
theorem writer_cursorBehind (hp : w.pane? source = some p) (hq : w.pane? target = some q)
    (length : Nat) :
    (cursorBehind source target p q length).writer = q.cursor.writer := by
  unfold cursorBehind
  split
  · next h =>
    subst h
    obtain rfl := Option.some.inj (hp.symm.trans hq)
    rfl
  · rfl

theorem pane?_consumed (hps : p.Sound) (hp : w.pane? source = some p)
    (hq : w.pane? target = some q) (hread : length ≤ p.cursor.writer - p.cursor.reader) :
    (w.store source (p.consumed length)).pane? target =
      some { q with cursor := cursorBehind source target p q length } :=
  pane?_store_cursor hp (hps.evolves_consumed hread) hq

/-- Reading and then appending comes to new bytes and two new cursors. -/
theorem store_consumed_appended (hps : p.Sound) (hp : w.pane? source = some p)
    (hq : w.pane? target = some q) (hread : length ≤ p.cursor.writer - p.cursor.reader) {r : Nat}
    (hr : w.root? target = some r) (bytes : List UInt8) :
    let c := cursorBehind source target p q length
    (w.store source (p.consumed length)).store target (Pane.appended { q with cursor := c } bytes) =
      ((w.setBlock r (q.overwrite q.cursor.writer bytes).block).setCursor source
        (p.consumed length).cursor).setCursor target
        { c with writer := q.cursor.writer + bytes.length } := by
  intro c
  have hwriter : c.writer = q.cursor.writer := writer_cursorBehind hp hq length
  have hq' := pane?_consumed hps hp hq hread
  have hroot : (w.store source (p.consumed length)).root? target = some r :=
    (root?_store hp _).trans hr
  have happended : Pane.appended { q with cursor := c } bytes =
      { q with
        block := (q.overwrite q.cursor.writer bytes).block
        cursor := { c with writer := q.cursor.writer + bytes.length } } := by
    rw [← hwriter]
    rfl
  calc (w.store source (p.consumed length)).store target (Pane.appended { q with cursor := c } bytes)
      = ((w.store source (p.consumed length)).setBlock r
          (q.overwrite q.cursor.writer bytes).block).setCursor target
          { c with writer := q.cursor.writer + bytes.length } := by
        rw [happended]
        exact store_eq hq' hroot _ _
    _ = ((w.setCursor source (p.consumed length).cursor).setBlock r
          (q.overwrite q.cursor.writer bytes).block).setCursor target
          { c with writer := q.cursor.writer + bytes.length } := by
        rw [store_consumed hp]
    _ = _ := by rw [setCursor_setBlock hp]

/-- **A transfer reads and then appends.** What is there is moved where there is room for it, and this
leads to the same world as reading it first and appending it afterwards. -/
theorem transfer_succeeds (hw : w.Sound) (hp : w.pane? source = some p)
    (hq : w.pane? target = some q) (hpl : p.Live) (hql : q.Live)
    (hread : length ≤ p.cursor.writer - p.cursor.reader)
    (hwrite : length ≤ q.capacity - q.cursor.writer) :
    Action.Succeeds (transfer source target length) w fun _ w' =>
      w' = (w.store source (p.consumed length)).store target
        (Pane.appended { q with cursor := cursorBehind source target p q length }
          (p.bytesAt p.cursor.reader length)) := by
  have hps := hw.pane hp
  have hpr := Demand.range_of_readable hps hread
  have hqr := Demand.range_of_writable (hw.pane hq) hwrite
  obtain ⟨r, -, hr, -⟩ := root_of_pane hq
  rw [store_consumed_appended hps hp hq hread hr, Pane.length_bytesAt hps hpl hpr]
  have he := evolves_copied hw hp hq hpl hpr hqr
  have hwriter := writer_cursorBehind hp hq length
  refine Action.Succeeds.after (through_query hp (Pane.readingAt_of_le hps hpl hread)) ?_
  refine Action.Succeeds.after (through_query hq (Pane.writingAt_of_le (hw.pane hq) hql hwrite)) ?_
  refine (copyBytes_succeeds hw hp hq hpl hql hpr hqr).bind ?_
  rintro _ w₁ hw₁
  obtain ⟨b, hb⟩ : ∃ b, q.overwrite q.cursor.writer (p.bytesAt p.cursor.reader length) =
      { q with block := b } := ⟨_, rfl⟩
  rw [hb] at hw₁ he ⊢
  have hs₁ : w₁.Sound := hw₁ ▸ hw.store hq he
  have hq₁ : w₁.pane? target = some { q with block := b } := hw₁ ▸ pane?_store_self hq he
  obtain ⟨b', hp₁⟩ : ∃ b', w₁.pane? source = some { p with block := b' } :=
    hw₁ ▸ pane?_store_block hq he hp
  -- the bytes are there; neither what is readable nor the room has changed
  refine Action.Succeeds.after (through_consume hs₁ hp₁ hread) ?_
  have hs₂ := hs₁.store hp₁ ((hs₁.pane hp₁).evolves_consumed hread)
  have hq₂ := pane?_consumed (hs₁.pane hp₁) hp₁ hq₁ hread
  rw [store_consumed hp₁] at hs₂ hq₂
  refine ⟨(), _, through_produce hs₂ hq₂ (hwriter ▸ hwrite), ?_⟩
  rw [← store_block hq hr, ← hw₁, ← hwriter]
  rfl

/-- What is moved can be read from the source and fits into the target, neither of them released. -/
theorem transfer_stores (hw : w.Sound) (source target : Handle) (length : Nat) :
    Action.Careful Trap.isMisuse (transfer source target length) w fun _ w' =>
      ∃ p q, w.pane? source = some p ∧ w.pane? target = some q ∧ p.Live ∧ q.Live ∧
        length ≤ p.cursor.writer - p.cursor.reader ∧ length ≤ q.capacity - q.cursor.writer ∧
        w' = (w.store source (p.consumed length)).store target
          (Pane.appended { q with cursor := cursorBehind source target p q length }
            (p.bytesAt p.cursor.reader length)) := by
  by_cases hready : ∃ p q, w.pane? source = some p ∧ w.pane? target = some q ∧ p.Live ∧ q.Live ∧
      length ≤ p.cursor.writer - p.cursor.reader ∧ length ≤ q.capacity - q.cursor.writer
  · obtain ⟨p, q, hp, hq, hpl, hql, hread, hwrite⟩ := hready
    exact (transfer_succeeds hw hp hq hpl hql hread hwrite).careful.mono fun _ _ h =>
      ⟨p, q, hp, hq, hpl, hql, hread, hwrite, h⟩
  · -- one of the two checks stops it
    refine (through_observes hw fun p _ hs => Pane.readingAt_observes hs length).bind ?_
    rintro _ ⟨p, hp, hpl, hread, -⟩
    refine (through_observes hw fun q _ hs => Pane.writingAt_observes hs length).bind ?_
    rintro _ ⟨q, hq, hql, hwrite, -⟩
    exact absurd ⟨p, q, hp, hq, hpl, hql, hread, hwrite⟩ hready

/-- Behind the reading, what is appended stays in the window of the target. -/
theorem evolves_transferred (hw : w.Sound) (hp : w.pane? source = some p)
    (hq : w.pane? target = some q) (hpl : p.Live)
    (hread : length ≤ p.cursor.writer - p.cursor.reader)
    (hwrite : length ≤ q.capacity - q.cursor.writer) :
    let q' : Pane := { q with cursor := cursorBehind source target p q length }
    q'.Evolves (q'.appended (p.bytesAt p.cursor.reader length)) := by
  intro q'
  have hps := hw.pane hp
  have hq' := pane?_consumed hps hp hq hread
  have hroom : (p.bytesAt p.cursor.reader length).length ≤
      q.capacity - (cursorBehind source target p q length).writer := by
    rw [Pane.length_bytesAt hps hpl (Demand.range_of_readable hps hread),
      writer_cursorBehind hp hq length]
    exact hwrite
  exact ((hw.store hp (hps.evolves_consumed hread)).pane hq').evolves_appended hroom

theorem transfer_careful (hw : w.Sound) (source target : Handle) (length : Nat) :
    Action.Careful Trap.isMisuse (transfer source target length) w fun _ w' => w.Works w' := by
  refine (transfer_stores hw source target length).mono ?_
  rintro _ _ ⟨p, q, hp, hq, hpl, hql, hread, hwrite, rfl⟩
  have hps := hw.pane hp
  exact .store hp hpl (hps.evolves_consumed hread) (.store (pane?_consumed hps hp hq hread) hql
    (evolves_transferred hw hp hq hpl hread hwrite) (.refl _))

/-! ## What is refused between handles -/

theorem copyBytes_source_refused (hp : w.pane? source = some p) (hs : p.Sound)
    (h : ¬(p.Live ∧ index + length ≤ p.capacity)) (target : Handle) (targetIndex : Nat) :
    copyBytes source index target targetIndex length w =
      (.failed (p.rangeRefusal index length), w) :=
  Action.bind_failed (through_refused hp (Pane.checkRange_refused hs h))

/-- The target is looked at only if the source has the bytes. -/
theorem copyBytes_target_refused (hw : w.Sound) (hp : w.pane? source = some p) (hl : p.Live)
    (hfit : index + length ≤ p.capacity) (hq : w.pane? target = some q)
    (h : ¬(q.Live ∧ targetIndex + length ≤ q.capacity)) :
    copyBytes source index target targetIndex length w =
      (.failed (q.rangeRefusal targetIndex length), w) := by
  have hchecked := Demand.check_of_met (d := .range index length) (hw.pane hp) hl hfit
  refine (Action.bind_done (through_query hp hchecked)).trans ?_
  exact Action.bind_failed (through_refused hq (Pane.checkRange_refused (hw.pane hq) h))

theorem transfer_source_refused (hp : w.pane? source = some p) (hs : p.Sound)
    (h : ¬(p.Live ∧ length ≤ p.cursor.writer - p.cursor.reader)) (target : Handle) :
    transfer source target length w = (.failed (p.readingRefusal length), w) :=
  Action.bind_failed (through_refused hp (Pane.readingAt_refused hs h))

/-- The target is looked at only if the source has the bytes. -/
theorem transfer_target_refused (hw : w.Sound) (hp : w.pane? source = some p) (hl : p.Live)
    (hread : length ≤ p.cursor.writer - p.cursor.reader) (hq : w.pane? target = some q)
    (h : ¬(q.Live ∧ length ≤ q.capacity - q.cursor.writer)) :
    transfer source target length w = (.failed (q.writingRefusal length), w) := by
  have hchecked := Pane.readingAt_of_le (hw.pane hp) hl hread
  refine (Action.bind_done (through_query hp hchecked)).trans ?_
  exact Action.bind_failed (through_refused hq (Pane.writingAt_refused (hw.pane hq) h))

/-! ## Copies -/

theorem copyDeeds_of_owner {r : Nat} {o : Owner} (hr : w.root? h = some r)
    (ho : w.owner? r = some o) (length : Nat) :
    w.copyDeeds h length = [.allocate o.detector length] := by
  unfold copyDeeds
  rw [hr, Option.bind_some, ho]

/-- Each step of filling a new owner of the right size succeeds. -/
theorem fill_steps (hw : w.Sound) {new : Nat} (order : ByteOrder) (hroot : w.root? h ≠ some new)
    (hp : w.pane? h = some p) (hpl : p.Live) (hpr : index + length ≤ p.capacity)
    (hnew : w.pane? (.owner new) = some (Pane.fresh length)) :
    ∃ w₁ w₂, through (.owner new) (Pane.setOrder order) w = (.done (), w₁) ∧
      copyBytes h index (.owner new) 0 length w₁ = (.done (), w₂) ∧
      through (.owner new) (Pane.seekWriter length) w₂ =
        (.done (), w.store (.owner new) (Pane.holding (p.bytesAt index length) order)) := by
  have hfresh := hw.pane hnew
  have he := hfresh.evolves_order order
  have hb := hw.becomes_store hnew he
  obtain ⟨o, ho, -⟩ := Option.map_eq_some_iff.1 hnew
  -- the new owner has the byte order, and the source sees what it saw
  have hnew₁ := pane?_store_self hnew he
  have hne : h ≠ .owner new := by
    rintro rfl
    exact hroot (root?_owner ho)
  have hp₁ := pane?_store_of_ne hnew { Pane.fresh length with order := order } hne hp
  rw [root?_owner ho, if_neg hroot] at hp₁
  have hqr : 0 + length ≤ ({ Pane.fresh length with order := order } : Pane).capacity := by
    show 0 + length ≤ length
    omega
  obtain ⟨⟨⟩, _, hcopy, rfl⟩ := copyBytes_succeeds hb.sound hp₁ hnew₁ hpl ⟨rfl, rfl⟩ hpr hqr
  refine ⟨_, _, through_apply hnew, hcopy, ?_⟩
  -- the new owner has the bytes, and nothing was read or written there yet
  have he₂ := evolves_copied hb.sound hp₁ hnew₁ hpl hpr hqr
  have hnew₂ := pane?_store_self hnew₁ he₂
  have hwriter : 0 ≤ length ∧ length ≤ length := ⟨Nat.zero_le _, Nat.le_refl _⟩
  have hseek : Pane.seekWriter length (Pane.overwrite { Pane.fresh length with order := order } 0
      (p.bytesAt index length)) = (.done (), _) := Pane.seekWriter_apply ⟨rfl, rfl⟩ hwriter
  refine (through_apply hnew₂).trans ?_
  rw [hseek]
  have hlen := Pane.length_bytesAt (hw.pane hp) hpl hpr
  rw [store_store_owner ho, store_store_owner ho]
  congr 2
  simp [Pane.holding, Pane.overwrite, Pane.fresh, Cursor.holding, Cursor.empty, hlen, Block.zeros]

/-- Filling a new owner of the right size succeeds. -/
theorem fill_succeeds (hw : w.Sound) {new : Nat} (order : ByteOrder) (hroot : w.root? h ≠ some new)
    (hp : w.pane? h = some p) (hpl : p.Live) (hpr : index + length ≤ p.capacity)
    (hnew : w.pane? (.owner new) = some (Pane.fresh length)) :
    Action.Succeeds
      (do
        through (.owner new) (Pane.setOrder order)
        copyBytes h index (.owner new) 0 length
        through (.owner new) (Pane.seekWriter length)) w fun _ w' =>
      w' = w.store (.owner new) (Pane.holding (p.bytesAt index length) order) := by
  obtain ⟨w₁, w₂, horder, hcopy, hseek⟩ := fill_steps hw order hroot hp hpl hpr hnew
  exact Action.Succeeds.after horder (Action.Succeeds.after hcopy ⟨(), _, hseek, rfl⟩)

/-- The world with a copy of what a handle sees. -/
def copied (w : World) (o : Owner) (p : Pane) (offset length : Nat) : World :=
  (w.allocated o.detector length).store (.owner w.owners.length)
    (Pane.holding (p.bytesAt offset length) p.order)

/-- A copy of bytes that are there succeeds: a new owner holds them, all of them readable. -/
theorem copy_succeeds (hw : w.Sound) {r offset : Nat} {o : Owner} (hr : w.root? h = some r)
    (ho : w.owner? r = some o) (hp : w.pane? h = some p) (hpl : p.Live)
    (hpr : offset + length ≤ p.capacity) (hd : (Deed.allocate o.detector length).Allowed w) :
    Action.Succeeds (copy h offset length) w fun i w' =>
      i = w.owners.length ∧ w' = w.copied o p offset length := by
  have hsmall := (hw.pane hp).small
  have hzero : (Action.require (length ≠ 0) (.illegalArgument .emptyCopy) : Task Unit) w =
      (.done (), w) := by
    rw [Action.require_true hd.2.1, Action.pure_apply]
  refine Action.Succeeds.after (through_query hp (Pane.checkLive_of_live hpl)) ?_
  refine Action.Succeeds.after hzero ?_
  refine Action.Succeeds.after (through_query hp (Pane.checkRange_of_le hpl (by omega) hpr)) ?_
  refine Action.Succeeds.after (paneOf_of_some hp) ?_
  refine Action.Succeeds.after (rootOf_of_some hr) (Action.Succeeds.after (ownerAt_of_some ho) ?_)
  refine Action.Succeeds.after (allocate_apply hd) ?_
  have hfill := fill_succeeds (hw.enact hd) p.order (root?_allocated_ne hr ho o.detector length)
    (pane?_allocated hp o.detector length) hpl hpr (pane?_allocated_new hd.1 length)
  refine (Action.Succeeds.onFailure hfill).bind ?_
  rintro _ _ rfl
  exact Action.Succeeds.pure ⟨rfl, rfl⟩

/-- A copy fits wherever its source does. -/
theorem Sound.allowed_copy (hw : w.Sound) {r offset : Nat} {o : Owner} (hr : w.root? h = some r)
    (ho : w.owner? r = some o) (hp : w.pane? h = some p) (hlen : length ≠ 0)
    (hpr : offset + length ≤ p.capacity) : (Deed.allocate o.detector length).Allowed w := by
  refine ⟨hw.watched r o ho, hlen, Nat.le_trans ?_ (hw.owner r o ho).small⟩
  rcases pane?_eq_some_iff.1 hp with ⟨i, u, rfl, hu, rfl⟩ | ⟨v, u, hv, hu, rfl⟩
  · obtain rfl : i = r := Option.some.inj ((root?_owner hu).symm.trans hr)
    obtain rfl := Option.some.inj (ho.symm.trans hu)
    exact Nat.le_trans (Nat.le_add_left ..) hpr
  · obtain rfl : v.root = r := Option.some.inj ((root?_derived hv).symm.trans hr)
    obtain rfl := Option.some.inj (ho.symm.trans hu)
    obtain ⟨u, hu, hfit⟩ := hw.derived h v hv
    obtain rfl := Option.some.inj (ho.symm.trans hu)
    have hwin := hfit.window
    have hpr : offset + length ≤ v.capacity := hpr
    omega

/-- What a copy relies on has been checked when it allocates. -/
theorem copy_makes (hw : w.Sound) (h : Handle) (offset length : Nat) :
    Action.Careful Trap.isMisuse (copy h offset length) w fun i w' =>
      i = w.owners.length ∧ ∃ r o p, w.root? h = some r ∧ w.owner? r = some o ∧
        w.pane? h = some p ∧ p.Live ∧ offset + length ≤ p.capacity ∧
        (Deed.allocate o.detector length).Allowed w ∧ w' = w.copied o p offset length := by
  by_cases hfit : ∃ p, w.pane? h = some p ∧ p.Live ∧ offset + length ≤ p.capacity ∧ length ≠ 0
  · obtain ⟨p, hp, hpl, hpr, hlen⟩ := hfit
    obtain ⟨r, o, hr, ho, -⟩ := root_of_pane hp
    have hd := hw.allowed_copy hr ho hp hlen hpr
    refine (copy_succeeds hw hr ho hp hpl hpr hd).careful.mono ?_
    rintro _ _ ⟨rfl, rfl⟩
    exact ⟨rfl, r, o, p, hr, ho, hp, hpl, hpr, hd, rfl⟩
  · -- one of the checks stops it
    refine (through_observes hw fun _ _ _ => Pane.checkLive_observes).bind fun _ _ => ?_
    refine Action.Observes.require.bind fun _ hlen => ?_
    refine (through_observes hw fun p _ hs => Pane.checkRange_observes hs offset length).bind ?_
    rintro _ ⟨p, hp, hpl, hpr⟩
    exact absurd ⟨p, hp, hpl, hpr, hlen⟩ hfit

theorem Sound.becomes_copied (hw : w.Sound) {o : Owner} {offset : Nat} (hp : w.pane? h = some p)
    (hpl : p.Live) (hpr : offset + length ≤ p.capacity)
    (hd : (Deed.allocate o.detector length).Allowed w) :
    w.Becomes [.allocate o.detector length] (w.copied o p offset length) := by
  have hb := hw.becomes_enact hd
  have hlen := Pane.length_bytesAt (hw.pane hp) hpl hpr
  exact hb.trans (hb.sound.becomes_store (pane?_allocated_new hd.1 length)
    (Pane.evolves_holding hlen p.order))

theorem copy_careful (hw : w.Sound) (h : Handle) (offset length : Nat) :
    Action.Careful Trap.isMisuse (copy h offset length) w fun _ w' =>
      w.Becomes (w.copyDeeds h length) w' := by
  refine (copy_makes hw h offset length).mono ?_
  rintro _ _ ⟨-, r, o, p, hr, ho, hp, hpl, hpr, hd, rfl⟩
  rw [copyDeeds_of_owner hr ho]
  exact hw.becomes_copied hp hpl hpr hd

theorem copyUnread_careful (hw : w.Sound) (h : Handle) :
    Action.Careful Trap.isMisuse (copyUnread h) w fun _ w' =>
      w.Becomes (w.copyUnreadDeeds h) w' := by
  unfold copyUnread copyUnreadDeeds
  refine (paneOf_observes h).bind ?_
  intro p hp
  refine (through_observes hw fun _ _ hs => readable_observes hs).bind ?_
  rintro _ ⟨p', hp', rfl⟩
  obtain rfl : p = p' := Option.some.inj (hp.symm.trans hp')
  rw [hp]
  exact copy_careful hw h _ _

/-! ## Bytes that leave packet memory -/

theorem exportBytes_careful (hw : w.Sound) (h : Handle) :
    Action.Careful Trap.isMisuse (exportBytes h) w fun _ w' => w.Becomes [] w' := by
  refine (through_observes hw fun _ _ hs => Pane.contents_observes hs).bind ?_
  intro _ _
  refine Action.Succeeds.careful (Action.Succeeds.after (Action.update_apply _ _) ?_)
  refine Action.Succeeds.pure (Sound.becomes_alike ?_ ⟨rfl, rfl, rfl, rfl, rfl⟩)
  exact hw.of_tables rfl rfl rfl rfl

theorem sameContents_observes (hw : w.Sound) (a b : Handle) :
    Action.Observes Trap.isMisuse (sameContents a b) w fun _ => True := by
  refine (through_observes hw fun _ _ hs => readable_observes hs).bind ?_
  intro length _
  refine (through_observes hw fun _ _ hs => readable_observes hs).bind ?_
  intro other _
  split
  · exact Action.Observes.pure trivial
  refine (paneOf_observes a).bind fun p hp => (paneOf_observes b).bind ?_
  intro q hq
  refine (through_observes hw fun _ _ hs => Pane.checkRange_observes hs _ _).attempt.bind
    fun left hleft => ?_
  refine (through_observes hw fun _ _ hs => Pane.checkRange_observes hs _ _).attempt.bind
    fun right hright => ?_
  rcases left with _ | ⟨⟩
  · exact Action.Observes.pure trivial
  rcases right with _ | ⟨⟩
  · exact Action.Observes.pure trivial
  -- both ranges were accepted, so the bytes are there
  obtain ⟨p', hp', hpl, hpr⟩ := hleft () rfl
  obtain ⟨q', hq', hql, hqr⟩ := hright () rfl
  obtain rfl : p = p' := Option.some.inj (hp.symm.trans hp')
  obtain rfl : q = q' := Option.some.inj (hq.symm.trans hq')
  refine Action.Careful.after (through_query hp (Pane.fetch_apply (hw.pane hp) hpl hpr)) ?_
  refine Action.Careful.after (through_query hq (Pane.fetch_apply (hw.pane hq) hql hqr)) ?_
  exact Action.Observes.pure trivial

end World

end PacketMemory
