import PacketMemory.Proofs.World.Frame

/-!
# The frame of every operation

What an operation may change is known before it runs. `Operation.moves` says which parts of which
handles, `Operation.Writes` which bytes of which owner, and `Operation.handles` through which handles it
goes; owners behind none of them stay as they are.

`World.Reachable.frame` — whatever an operation comes to, nothing else changed. So of several
handles that see the same bytes, each keeps its own indices, marks and byte order, and a write
through one of them stays within the range that was named, at the place where the window of the
handle lies in the memory of its owner.
-/

namespace PacketMemory

namespace Operation

/-- The handles that an operation goes through. -/
def handles : Operation → List Handle
  | resize i _ | sight i _ | keep i _ => [.owner i]
  | release h | close h | drop h | duplicate h | slice h _ _ | sliceUnread h | rootOf h
  | copy h _ _ | copyUnread h | lay h _ | probe h _ | layRecord h | call h _ | writeRecord h _
  | checkComplete h _ | exportBytes h | describe h => [h]
  | recordCall i _ => [.record i]
  | copyBytes source _ target _ _ | transfer source target _ => [source, target]
  | sameContents a b => [a, b]
  | sameDetector i j => [.owner i, .owner j]
  | allocate .. | allocateCopy .. | outstanding _ | sweep _ | check _ | settings _
  | configure .. => []

/-- The handles that an operation may put an end to. -/
def givesUp : Operation → List Handle
  | close h | drop h => [h]
  | _ => []

/-- The parts of a handle that an operation may change. -/
def moves : Operation → Handle → List Part
  | call h request, k => if k = h then request.moves else []
  | writeRecord h _, k => if k = h then [.writer] else []
  | transfer source target _, k =>
    (if k = source then [.reader] else []) ++ (if k = target then [.writer] else [])
  | resize i _, k => if k = .owner i then .capacity :: Cursor.all else []
  | _, _ => []

/-- The handle through which an operation writes. -/
def target : Operation → Option Handle
  | call h _ | writeRecord h _ | lay h _ | probe h _ => some h
  | recordCall i _ => some (.record i)
  | copyBytes _ _ target _ _ | transfer _ target _ => some target
  | _ => none

/-- The ranges that an operation writes in the window of its target. An overlay writes what its check
writes in the slice that it is handed. -/
def written (p : Pane) : Operation → Ranges
  | call _ request => request.written p
  | recordCall _ request => request.written
  | writeRecord .. => CaptureInfo.written p
  | copyBytes _ _ _ index length => [(index, length)]
  | transfer _ _ length => [(p.cursor.writer, length)]
  | lay _ o | probe _ o =>
    match o.length p.cursor.writer p.capacity with
    | .ok length => o.check.written (p.cut 0 length)
    | .error _ => []
  | _ => []

/-- The places of an owner's block that an operation may write. Resizing cuts bytes off or adds
some. -/
def Writes (w : World) (op : Operation) (r i : Nat) : Prop :=
  match op with
  | resize j capacity => r = j ∧ ∃ o, w.owner? j = some o ∧
      min o.capacity capacity ≤ i ∧ i < max o.capacity capacity
  | op => ∃ h p, op.target = some h ∧ w.root? h = some r ∧ w.pane? h = some p ∧
      p.InRanges (op.written p) i

/-- Operations that change no byte that is there. A cast is one of them if the check of its overlay
only reads. -/
def Reads : Operation → Prop
  | call _ request => request.reads = true
  | lay _ o | probe _ o => o.check.Reads
  | recordCall _ (.setTimestamp _) | recordCall _ (.setCaptured _) | recordCall _ (.setWire _)
  | resize .. | writeRecord .. | copyBytes .. | transfer .. => False
  | _ => True

/-- What an operation may change. -/
def scope (w : World) (op : Operation) : Scope :=
  ⟨op.moves, op.givesUp, fun r => ∃ h ∈ op.handles, w.root? h = some r, op.Writes w⟩

end Operation

namespace World

variable {α : Type} {s : Scope} {w w' : World} {h : Handle} {i r : Nat} {o : Owner}

/-! ## Owners -/

/-- A new owner is in nobody's scope, so it can be in any. -/
theorem changesOnly_allocated (s : Scope) (w : World) (d capacity : Nat) :
    w.ChangesOnly s (w.allocated d capacity) := by
  rcases onDetector_cases w d _ with he | ⟨detector, he⟩ <;> rw [allocated, he]
  · exact .refl s w
  · exact (ChangesOnly.addOwner s w _).trans (.of_tables rfl rfl rfl)

theorem changesOnly_allocate (s : Scope) (w : World) (d capacity : Nat) :
    w.ChangesOnly s (allocate d capacity w).2 := by
  refine .of_careful (allocate_careful d capacity) ?_
  rintro _ _ ⟨-, -, rfl⟩
  exact changesOnly_allocated s w d capacity

/-- The bytes that a new owner is filled with are written where nothing was before. -/
theorem Sound.changesOnly_allocateCopy (hw : w.Sound) (s : Scope) (d : Nat) (bytes : List UInt8) :
    w.ChangesOnly s (allocateCopy d bytes w).2 := by
  refine .of_careful (allocateCopy_makes hw d bytes) ?_
  rintro _ _ ⟨-, -, p', -, rfl⟩
  exact (changesOnly_allocated s w d bytes.length).store_new (Nat.le_refl _) p'

theorem Sound.changesOnly_copy (hw : w.Sound) (s : Scope) (h : Handle) (offset length : Nat) :
    w.ChangesOnly s (copy h offset length w).2 := by
  refine .of_careful (copy_makes hw h offset length) ?_
  rintro _ _ ⟨-, r, o, p, -, -, -, -, -, -, rfl⟩
  exact (changesOnly_allocated s w _ _).store_new (Nat.le_refl _) _

theorem Sound.changesOnly_copyUnread (hw : w.Sound) (s : Scope) (h : Handle) :
    w.ChangesOnly s (copyUnread h w).2 :=
  .look (paneOf_observes h) fun _ _ =>
    .look (through_observes hw fun _ _ hs => readable_observes hs) fun _ _ =>
      hw.changesOnly_copy s h _ _

/-- An owner that goes away has to be given up. -/
theorem changesOnly_dropped (ho : w.owner? i = some o) (hnone : w.hasViews i = false)
    (hreach : s.reaches i) (hgone : .owner i ∈ s.givesUp) : w.ChangesOnly s (w.dropped i) := by
  rw [dropped, onOwner_of_some ho]
  exact .amended_setOwner ho _ hreach (Block.changesOnly_none _ _) (.inr ⟨hgone, hnone⟩)

/-- A release reaches its owner. -/
theorem changesOnly_released (ho : w.owner? i = some o) (hreach : s.reaches i) :
    w.ChangesOnly s (w.released i) := by
  rw [released, onOwner_of_some ho]
  exact .amended_setOwner ho _ hreach (Block.changesOnly_none _ _)
    (.inl ⟨(owner?_eq_some_iff.1 ho).2, Part.others_block o.pane none⟩)

theorem changesOnly_releaseShared (hreach : s.reaches i) :
    w.ChangesOnly s (releaseShared i w).2 := by
  refine .of_careful (releaseShared_careful i) ?_
  rintro _ _ ⟨o, ho, -, rfl⟩
  rw [releasedShared, onOwner_of_some ho]
  exact .setOwner ho hreach (.refl _) (.inl ⟨(owner?_eq_some_iff.1 ho).2, rfl⟩)

/-- A block and a resized one have the same bytes up to the smaller capacity. -/
theorem Sound.changesOnly_resize (hw : w.Sound) (i capacity : Nat) :
    w.ChangesOnly ((Operation.resize i capacity).scope w) (resize i capacity w).2 := by
  refine .of_careful (resize_careful hw i capacity) ?_
  rintro _ _ ⟨⟨o, ho, hnone, hl, -⟩, rfl⟩
  have hin := (owner?_eq_some_iff.1 ho).2
  have hreach : ((Operation.resize i capacity).scope w).reaches i :=
    ⟨_, List.mem_singleton_self _, root?_owner ho⟩
  rw [resized, onOwner_of_some ho]
  have hset : w.ChangesOnly ((Operation.resize i capacity).scope w)
      ((w.amended o fun d n => d.resize n capacity).setOwner i (o.resized capacity)) := by
    refine .amended_setOwner ho _ hreach ?_ (.inl ⟨hin, ?_⟩)
    · intro b' hb'
      obtain ⟨b, hb, rfl⟩ := Option.map_eq_some_iff.1 hb'
      have hsize := (hw.owner i o ho).size b hb
      refine ⟨b, hb, fun j hj => ⟨rfl, o, ho, ?_⟩⟩
      refine Classical.byContradiction fun hout => hj (Block.resize_outside ?_)
      omega
    · have hmoves : ((Operation.resize i capacity).scope w).moves (.owner i) =
          .capacity :: Cursor.all := if_pos rfl
      refine Part.others_eq_iff.2 fun part hpart => ?_
      rw [hmoves] at hpart
      cases part <;> first | rfl | exact absurd (by decide) hpart
  exact hset.trans (.of_tables rfl rfl rfl)

/-! ## Views -/

/-- What is derived changes nothing of what it is derived from. -/
theorem changesOnly_duplicate (s : Scope) (w : World) (h : Handle) :
    w.ChangesOnly s (duplicate h w).2 :=
  .look (basis_observes h) fun v _ => .addView s w v

theorem Sound.changesOnly_slice (hw : w.Sound) (s : Scope) (h : Handle) (offset length : Nat) :
    w.ChangesOnly s (slice h offset length w).2 :=
  .look (slicing_observes hw h offset length) fun v _ => .addView s w v

theorem Sound.changesOnly_sliceUnread (hw : w.Sound) (s : Scope) (h : Handle) :
    w.ChangesOnly s (sliceUnread h w).2 :=
  .look (through_observes hw fun _ _ hs => readable_observes hs) fun _ _ =>
    .look (paneOf_observes h) fun _ _ => hw.changesOnly_slice s h _ _

/-- A release concerns the owner behind the handle. -/
theorem Sound.changesOnly_release (hw : w.Sound) (hreach : ∀ r, w.root? h = some r → s.reaches r) :
    w.ChangesOnly s (release h w).2 := by
  cases h with
  | owner i =>
    refine .of_careful (releaseOwner_careful hw i) ?_
    rintro _ _ ⟨o, ho, -, -, rfl⟩
    exact changesOnly_released ho (hreach i (root?_owner ho))
  | view i =>
    refine .look (viewAt_observes i) fun v hv => ?_
    cases v.kind with
    | slice => exact .refl s w
    | duplicate => exact changesOnly_releaseShared (hreach _ (root?_derived (h := .view i) hv))
  | record i => exact .refl s w

theorem changesOnly_dropView (w : World) (hgone : .view i ∈ s.givesUp) :
    w.ChangesOnly s (drop (.view i) w).2 :=
  .look (viewAt_observes i) fun _ hv => .setDerived (h := .view i) hv (.inl hgone)

theorem Sound.changesOnly_drop (hw : w.Sound) (hreach : ∀ r, w.root? h = some r → s.reaches r)
    (hgone : h ∈ s.givesUp) : w.ChangesOnly s (drop h w).2 := by
  cases h with
  | owner i =>
    refine .of_careful (dropOwner_careful hw i) ?_
    rintro _ _ ⟨⟨o, ho, hnone⟩, rfl⟩
    exact changesOnly_dropped ho hnone (hreach i (root?_owner ho)) hgone
  | view i => exact changesOnly_dropView w hgone
  | record i =>
    refine .look (T := Trap.isMisuse) (m := Action.state) (R := fun u => u = w) ⟨rfl, rfl⟩ ?_
    rintro _ rfl
    exact .look (Action.Observes.expect Trap.isMisuse_misuse) fun v hv =>
      .setDerived (h := .record i) hv (.inl hgone)

/-- To close a handle is to release what it leads to, and to give it up. -/
theorem Sound.changesOnly_close (hw : w.Sound) (hreach : ∀ r, w.root? h = some r → s.reaches r)
    (hgone : h ∈ s.givesUp) : w.ChangesOnly s (close h w).2 := by
  cases h with
  | owner i =>
    refine .bind (hw.changesOnly_release hreach (h := .owner i)) fun _ w' hrun => ?_
    obtain ⟨o, ho, hnone, -, rfl⟩ := (releaseOwner_careful hw i).of_done hrun
    have hs : (w.released i).Sound := hw.enact (d := .release i) ⟨o, ho, hnone⟩
    refine .of_careful (dropOwner_careful hs i) ?_
    rintro _ _ ⟨⟨o', ho', hnone'⟩, rfl⟩
    exact changesOnly_dropped ho' hnone' (hreach i (root?_owner ho)) hgone
  | view i =>
    refine .look (viewAt_observes i) fun v hv => ?_
    cases v.kind with
    | slice => exact .bind (changesOnly_dropView w hgone) fun _ w' _ => .refl s w'
    | duplicate =>
      have hroot := hreach _ (root?_derived (h := .view i) hv)
      exact .bind (changesOnly_releaseShared hroot) fun _ w' _ => changesOnly_dropView w' hgone
  | record i => exact .refl s w

/-! ## Overlays -/

/-- The check of an overlay is handed the start of what the handle sees. -/
theorem Sound.changesOnly_overlaid (hw : w.Sound) (h : Handle) (o : Overlay)
    (hreach : ∀ r, w.root? h = some r → s.reaches r)
    (hwrites : ∀ r p length i, w.root? h = some r → w.pane? h = some p →
      o.length p.cursor.writer p.capacity = .ok length →
      p.InRanges (o.check.written (p.cut 0 length)) i → s.writes r i) :
    w.ChangesOnly s (overlaid h o w).2 := by
  refine .look (paneOf_observes h) fun p hp => ?_
  refine .look (T := Trap.isMisuse) Action.Observes.ofExcept fun length hlength => ?_
  refine .look (slicing_observes hw h 0 length) fun v hv => ?_
  obtain ⟨⟨u, hu, rfl⟩, q, hq, -, hfit⟩ := hv
  obtain rfl : p = q := Option.some.inj (hp.symm.trans hq)
  obtain ⟨u', hu', -, hp'⟩ := hw.basis hu
  obtain rfl : p = u.pane u' := Option.some.inj (hp.symm.trans hp')
  have hroot := root_of_basis hu
  rw [Action.mapError_apply, acceptance_apply (v := u.cut 0 length) hu']
  refine .setBlock (i := u.root) hu' (hreach _ hroot) ?_
  have hcheck := o.check.run_writes ((hw.pane hp).cut hfit)
  refine hcheck.changesOnly fun i hi => hwrites _ _ length i hroot hp hlength ?_
  -- the slice is a part of the window
  obtain ⟨hend, range, hmem, hrange⟩ := hi
  simp only [Pane.cut] at hend hrange
  exact ⟨by omega, range, hmem, by omega⟩

/-! ## Between handles -/

/-- Of the two handles of a copy, only the target is written. -/
theorem Sound.changesOnly_copyBytes (hw : w.Sound) (source : Handle) (index : Nat)
    (target : Handle) (targetIndex length : Nat)
    (hreach : ∀ r, w.root? target = some r → s.reaches r)
    (hwrites : ∀ r q i, w.root? target = some r → w.pane? target = some q →
      q.InRanges [(targetIndex, length)] i → s.writes r i) :
    w.ChangesOnly s (copyBytes source index target targetIndex length w).2 := by
  refine .of_careful (copyBytes_stores hw source index target targetIndex length) ?_
  rintro _ _ ⟨p, q, hp, hq, hpl, hql, hpr, hqr, rfl⟩
  have hlen := Pane.length_bytesAt (hw.pane hp) hpl hpr
  refine .store hq hreach (Part.others_block q _) fun r hr => ?_
  exact (Pane.Writes.of_overwrite (evolves_copied hw hp hq hpl hpr hqr) (Nat.le_of_eq hlen)
    rfl).changesOnly fun i hi => hwrites r q i hr hq hi

/-- A transfer writes at the writer of its target, and moves one index of each handle. -/
theorem Sound.changesOnly_transfer (hw : w.Sound) (source target : Handle) (length : Nat) :
    w.ChangesOnly ((Operation.transfer source target length).scope w)
      (transfer source target length w).2 := by
  refine .look (through_observes hw fun p _ hs => Pane.readingAt_observes hs length) ?_
  rintro _ ⟨p, hp, -, -, rfl⟩
  refine .look (through_observes hw fun q _ hs => Pane.writingAt_observes hs length) ?_
  rintro _ ⟨q, hq, -, -, rfl⟩
  have hsource : ∀ r, w.root? source = some r →
      ((Operation.transfer source target length).scope w).reaches r := fun r hr =>
    ⟨source, List.mem_cons_self, hr⟩
  have htarget : ∀ r, w.root? target = some r →
      ((Operation.transfer source target length).scope w).reaches r := fun r hr =>
    ⟨target, List.mem_cons_of_mem _ (List.mem_singleton_self _), hr⟩
  have hcopy := hw.changesOnly_copyBytes source p.cursor.reader target q.cursor.writer length
    htarget fun r q' i hr hq' hi => by
      obtain rfl : q = q' := Option.some.inj (hq.symm.trans hq')
      exact ⟨target, q, rfl, hr, hq, hi⟩
  -- neither step makes a handle lead elsewhere
  refine .bind hcopy fun _ w₁ hrun₁ => ?_
  rw [hrun₁] at hcopy
  obtain ⟨_, -, hroot₁, -⟩ := hcopy.handle source p hp List.not_mem_nil
  have hreader : Part.reader ∈ (Operation.transfer source target length).moves source :=
    List.mem_append_left _ (by rw [if_pos rfl]; exact List.mem_singleton_self _)
  have hconsume := ChangesOnly.cursor (m := Cursor.consume length)
    (fun r hr => hsource r (hroot₁.symm.trans hr))
    (Pane.keeps_onCursor fun p => Cursor.keeps_consume (Part.others_reader hreader p))
  refine .bind hconsume fun _ w₂ hrun₂ => ?_
  rw [hrun₂] at hconsume
  obtain ⟨_, -, hroot₂, -⟩ := (hcopy.trans hconsume).handle target q hq List.not_mem_nil
  have hwriter : Part.writer ∈ (Operation.transfer source target length).moves target :=
    List.mem_append_right _ (by rw [if_pos rfl]; exact List.mem_singleton_self _)
  exact .cursor (fun r hr => htarget r (hroot₂.symm.trans hr))
    (Pane.keeps_onCursor fun p => Cursor.keeps_produce (Part.others_writer hwriter p))

/-! ## Every operation -/

/-- **Every operation changes only what is in its scope.** -/
theorem Sound.changesOnly (hw : w.Sound) (op : Operation) :
    w.ChangesOnly (op.scope w) (op.run w).2 := by
  have single : ∀ {h : Handle} {op : Operation}, op.handles = [h] →
      ∀ r, w.root? h = some r → (op.scope w).reaches r := fun hop r hr =>
    ⟨_, hop ▸ List.mem_singleton_self _, hr⟩
  -- what the check of an overlay writes
  have asked : ∀ {h : Handle} {o : Overlay} (r : Nat) (p : Pane) (length i : Nat),
      w.root? h = some r → w.pane? h = some p →
      o.length p.cursor.writer p.capacity = .ok length →
      p.InRanges (o.check.written (p.cut 0 length)) i →
      ∃ k q, some h = some k ∧ w.root? k = some r ∧ w.pane? k = some q ∧
        q.InRanges ((Operation.lay h o).written q) i := by
    intro h o r p length i hr hp hlength hi
    refine ⟨h, p, rfl, hr, hp, ?_⟩
    rw [Operation.written, hlength]
    exact hi
  cases op with
  | allocate d capacity => exact .answer _ (changesOnly_allocate _ w d capacity)
  | allocateCopy d bytes => exact .answer _ (hw.changesOnly_allocateCopy _ d bytes)
  | resize i capacity => exact .answer _ (hw.changesOnly_resize i capacity)
  | release h => exact .answer _ (hw.changesOnly_release (single rfl))
  | close h => exact .answer _ (hw.changesOnly_close (single rfl) (List.mem_singleton_self h))
  | drop h => exact .answer _ (hw.changesOnly_drop (single rfl) (List.mem_singleton_self h))
  | duplicate h => exact .answer _ (changesOnly_duplicate _ w h)
  | slice h offset length => exact .answer _ (hw.changesOnly_slice _ h offset length)
  | sliceUnread h => exact .answer _ (hw.changesOnly_sliceUnread _ h)
  | rootOf h => exact .answer _ (.of_observes (rootOf_observes h))
  | copy h offset length => exact .answer _ (hw.changesOnly_copy _ h offset length)
  | copyUnread h => exact .answer _ (hw.changesOnly_copyUnread _ h)
  | lay h o =>
    exact .answer _ (.bind (hw.changesOnly_overlaid h o (single rfl) asked) fun v w' _ =>
      .addView _ w' v)
  | probe h o =>
    exact .answer _ (.bind (hw.changesOnly_overlaid h o (single rfl) asked) fun _ w' _ =>
      .refl _ w')
  | layRecord h =>
    refine .answer _ (.bind (hw.changesOnly_overlaid h _ (single rfl) ?_) fun v w' _ =>
      .addRecord _ w' v)
    intro r p length i _ _ _ hi
    rw [Check.written_of_reads captureOverlay_reads] at hi
    obtain ⟨-, _, hmem, -⟩ := hi
    cases hmem
  | call h request =>
    have hmoves : (Operation.call h request).moves h = request.moves := if_pos rfl
    refine .answer _ (.through (single rfl) ?_ fun r p hr hp => ?_)
    · show Action.Keeps (Part.others ((Operation.call h request).moves h)) request.run
      rw [hmoves]
      exact request.keeps
    · exact (request.run_writes (hw.pane hp)).changesOnly fun i hi => ⟨h, p, rfl, hr, hp, hi⟩
  | recordCall i request =>
    refine .through (single rfl) request.keeps fun r p hr hp => ?_
    exact (request.run_writes (hw.pane hp)).changesOnly fun i hi => ⟨_, p, rfl, hr, hp, hi⟩
  | writeRecord h header =>
    have hmoves : (Operation.writeRecord h header).moves h = [.writer] := if_pos rfl
    refine .answer _ (.through (single rfl) ?_ fun r p hr hp => ?_)
    · show Action.Keeps (Part.others ((Operation.writeRecord h header).moves h)) header.write
      rw [hmoves]
      exact header.keeps_write
    · exact (header.write_writes (hw.pane hp)).changesOnly fun i hi => ⟨h, p, rfl, hr, hp, hi⟩
  | checkComplete h header =>
    exact .answer _ (.of_observes
      (through_observes hw fun _ _ _ => CaptureInfo.checkComplete_observes header))
  | sight i header => exact .answer _ (.of_observes (sight_observes hw i header))
  | keep i header =>
    exact .answer _ (.look
      (through_observes hw fun _ _ _ => CaptureInfo.checkComplete_observes header) fun _ _ =>
        hw.changesOnly_copyUnread _ (.owner i))
  | copyBytes source index target targetIndex length =>
    refine .answer _ (hw.changesOnly_copyBytes source index target targetIndex length ?_ ?_)
    · exact fun r hr => ⟨target, List.mem_cons_of_mem _ (List.mem_singleton_self _), hr⟩
    · exact fun r q i hr hq hi => ⟨target, q, rfl, hr, hq, hi⟩
  | transfer source target length => exact .answer _ (hw.changesOnly_transfer source target length)
  | exportBytes h =>
    exact .answer _ (.look (through_observes hw fun _ _ hs => Pane.contents_observes hs)
      fun _ _ => .of_tables rfl rfl rfl)
  | sameContents a b => exact .answer _ (.of_observes (sameContents_observes hw a b))
  | sameDetector a b => exact .answer _ (.of_observes (sameDetector_observes a b))
  | describe h => exact .answer _ (.of_observes (describe_observes h))
  | outstanding d => exact .answer _ (.of_observes (outstanding_observes d))
  | sweep d => exact .answer _ (.look (detectorAt_observes d) fun _ _ => .of_tables rfl rfl rfl)
  | check d =>
    refine .answer _ (.look (detectorAt_observes d) fun detector _ => ?_)
    cases detector.complaint <;> exact .of_tables rfl rfl rfl
  | settings d => exact .answer _ (.of_observes (settings_observes d))
  | configure d value =>
    exact .answer _ (.look (detectorAt_observes d) fun _ _ => .of_tables rfl rfl rfl)

/-- An operation that only reads has no bytes in its scope. -/
theorem not_writes_of_reads {op : Operation} (hop : op.Reads) : ¬op.Writes w r i := by
  have nothing : ∀ {h : Option Handle} {ranges : Pane → Ranges}, (∀ p, ranges p = []) →
      ¬∃ k p, h = some k ∧ w.root? k = some r ∧ w.pane? k = some p ∧ p.InRanges (ranges p) i := by
    rintro h ranges hnil ⟨k, p, -, -, -, -, _, hmem, -⟩
    rw [hnil p] at hmem
    cases hmem
  have asked : ∀ {o : Overlay} (p : Pane), o.check.Reads →
      (match o.length p.cursor.writer p.capacity with
        | .ok length => o.check.written (p.cut 0 length)
        | .error _ => []) = [] := by
    intro o p hreads
    split
    · exact Check.written_of_reads hreads _
    · rfl
  cases op with
  | call h request => exact nothing fun _ => Call.written_of_reads hop
  | recordCall j request => cases request <;> first | exact nothing fun _ => rfl | exact hop.elim
  | lay h o | probe h o => exact nothing fun p => asked p hop
  | resize j capacity => exact hop.elim
  | writeRecord h header => exact hop.elim
  | copyBytes source index target targetIndex length => exact hop.elim
  | transfer source target length => exact hop.elim
  | _ =>
    rintro ⟨k, p, hk, -⟩
    cases hk

/-- **The frame of every operation.** The bytes that change lie in the written range of the written
handle, at the place of its window in the block of the owner behind it, and an operation that only
reads changes none. All other owners are as they were. The handles that are there before are there
afterwards, and of each of them, nothing but the parts that the operation moves has changed. -/
theorem Reachable.frame (hw : w.Reachable) (op : Operation) :
    let w' := (op.run w).2
    (∀ (r : Nat) (o : Owner), w.owners[r]? = some o → ∃ o', w'.owners[r]? = some o' ∧
      ((∀ h ∈ op.handles, w.root? h ≠ some r) → o' = o) ∧
      ∀ b', o'.block = some b' → ∃ b, o.block = some b ∧
        ∀ i, b'[i]? ≠ b[i]? → op.Writes w r i) ∧
    (op.Reads → ∀ r i, ¬op.Writes w r i) ∧
    ∀ k p, w.pane? k = some p → k ∉ op.givesUp → ∃ p', w'.pane? k = some p' ∧
      w'.root? k = w.root? k ∧ ∀ part ∉ op.moves k, Part.of p' part = Part.of p part := by
  intro w'
  have hchanges := hw.sound.changesOnly op
  refine ⟨fun r o ho => ?_, fun hop _ _ => not_writes_of_reads hop, fun k p hp hk => ?_⟩
  · obtain ⟨o', ho', hsame, hbytes⟩ := hchanges.owner r o ho
    refine ⟨o', ho', fun hapart => hsame ?_, hbytes⟩
    rintro ⟨h, hh, hroot⟩
    exact hapart h hh hroot
  · obtain ⟨p', hp', hroot, hparts⟩ := hchanges.handle k p hp hk
    exact ⟨p', hp', hroot, Part.others_eq_iff.1 hparts⟩

/-- Three bytes are moved between two slices that overlap. Their owner sees them, but reads and writes
where it did before. -/
theorem frame_overlapping :
    let w := (start [⟨true, false, .log⟩]).after
      [.allocate 0 8, .call (.owner 0) (.appendBytes [1, 2, 3, 4, 5, 6, 7, 8]),
        .slice (.owner 0) 0 4, .slice (.owner 0) 2 6, .call (.view 1) (.seekWriter 1)]
    let w' := ((Operation.transfer (.view 0) (.view 1) 3).run w).2
    (w'.pane? (.owner 0)).bind Pane.block = some [1, 2, 3, 1, 2, 3, 7, 8] ∧
      ∃ p, w'.pane? (.owner 0) = some p ∧ p.cursor.reader = 0 ∧ p.cursor.writer = 8 := by
  intro w w'
  obtain ⟨-, -, hhandles⟩ := Reachable.frame (w := w) ⟨_, _, rfl⟩ (.transfer (.view 0) (.view 1) 3)
  obtain ⟨p, hp, -, hparts⟩ := hhandles (.owner 0)
    ⟨some [1, 2, 3, 4, 5, 6, 7, 8], false, 0, 8, Cursor.holding 8, default⟩ (by decide) nofun
  exact ⟨by decide, p, hp, hparts .reader (by decide), hparts .writer (by decide)⟩

end World

end PacketMemory
