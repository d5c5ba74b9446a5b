import PacketMemory.Proofs.World.Later

/-!
# Use after release

Once the memory of an owner was released, by whomever, nothing can reach it any more.

* `World.Refuses` lists the operations that need the memory, with what each of them fails with then:
  what concerns the arguments alone, or another handle that is looked at first, is refused as ever,
  and everything else for the memory. `World.Sound.run_of_refuses` says that they do fail, and that
  nothing changes.
* A released handle compares equal to nothing (`World.Sound.sameContents_of_released`).
* `World.refused_after_release` adds that nothing that happens later changes an index, a mark, a
  capacity or a byte of released memory.
-/

namespace PacketMemory

/-- What a cast fails with on released memory. How much is written is looked at before that. -/
def Overlay.refusal (o : Overlay) (p : Pane) : Failure :=
  match o.length p.cursor.writer p.capacity with
  | .ok _ => .memoryAccess
  | .error failure => failure

namespace World

/-- The operation needs the memory of the owner `i`, and fails like this after its release. -/
inductive Refuses (w : World) (i : Nat) : Operation → Failure → Prop
  | call {h : Handle} {request : Call} :
    w.root? h = some i → request.idle = false → Refuses w i (.call h request) request.refusal
  | recordCall {j : Nat} {request : RecordCall} :
    w.root? (.record j) = some i → Refuses w i (.recordCall j request) request.refusal
  | writeRecord {h : Handle} {header : CaptureInfo} :
    w.root? h = some i → Refuses w i (.writeRecord h header) header.timestamp.refusal
  | exportBytes {h : Handle} : w.root? h = some i → Refuses w i (.exportBytes h) .memoryAccess
  | copy {h : Handle} {offset length : Nat} :
    w.root? h = some i → Refuses w i (.copy h offset length) .memoryAccess
  | copyUnread {h : Handle} : w.root? h = some i → Refuses w i (.copyUnread h) .memoryAccess
  | slice {h : Handle} {offset length : Nat} :
    w.root? h = some i → h.isRecord = false → Refuses w i (.slice h offset length) .memoryAccess
  | sliceUnread {h : Handle} :
    w.root? h = some i → h.isRecord = false → Refuses w i (.sliceUnread h) .memoryAccess
  | lay {h : Handle} {overlay : Overlay} {p : Pane} :
    w.root? h = some i → h.isRecord = false → w.pane? h = some p →
    Refuses w i (.lay h overlay) (overlay.refusal p)
  | probe {h : Handle} {overlay : Overlay} {p : Pane} :
    w.root? h = some i → h.isRecord = false → w.pane? h = some p →
    Refuses w i (.probe h overlay) (overlay.refusal p)
  | layRecord {h : Handle} {p : Pane} :
    w.root? h = some i → h.isRecord = false → w.pane? h = some p →
    Refuses w i (.layRecord h) (CaptureRecord.overlay.refusal p)
  | keep {header : CaptureInfo} {p : Pane} :
    w.pane? (.owner i) = some p → header.captured.toNat = p.cursor.writer →
    Refuses w i (.keep i header) .memoryAccess
  | resize {capacity : Nat} :
    w.hasViews i = false → Refuses w i (.resize i capacity)
      (if capacity = 0 then .illegalArgument .zeroCapacity else .memoryAccess)
  | copyFrom {source target : Handle} {index targetIndex length : Nat} :
    w.root? source = some i →
    Refuses w i (.copyBytes source index target targetIndex length) .memoryAccess
  | copyTo {source target : Handle} {index targetIndex length : Nat} {q : Pane} :
    w.root? target = some i → w.pane? source = some q →
    Refuses w i (.copyBytes source index target targetIndex length) (q.rangeRefusal index length)
  | transferFrom {source target : Handle} {length : Nat} :
    w.root? source = some i → Refuses w i (.transfer source target length) .memoryAccess
  | transferTo {source target : Handle} {length : Nat} {q : Pane} :
    w.root? target = some i → w.pane? source = some q →
    Refuses w i (.transfer source target length) (q.readingRefusal length)

variable {α : Type} {w : World} {h source target : Handle} {i : Nat} {o : Owner} {p q : Pane}
variable {f : Failure}

/-! ## What handles of released memory see -/

/-- No handle of released memory sees it live. -/
theorem Sound.pane_of_released (hw : w.Sound) (ho : w.owner? i = some o) (hr : o.released = true)
    (hroot : w.root? h = some i) : ∃ p, w.pane? h = some p ∧ p.Sound ∧ ¬p.Live := by
  obtain ⟨u, p, hu, hp, hpr⟩ := hw.pane_of_root hroot
  obtain rfl := Option.some.inj (ho.symm.trans hu)
  refine ⟨p, hp, hw.pane hp, fun hl => ?_⟩
  have hlive : o.released = false := hpr.symm.trans hl.1
  exact absurd (hr.symm.trans hlive) (by decide)

/-! ## Operations on one handle -/

theorem overlaid_refused (hh : h.isRecord = false) (hp : w.pane? h = some p)
    (hn : ¬p.Live) (overlay : Overlay) :
    overlaid h overlay w = (.failed (overlay.refusal p), w) := by
  by_cases hpopulated : overlay.Populated p
  · rw [Overlay.refusal, Overlay.length_of_populated hpopulated]
    exact castWith_of_not_live hh hp hpopulated hn (acceptance overlay)
  · rw [Overlay.refusal, Overlay.length_of_not_populated hpopulated]
    exact castWith_of_not_populated hp hpopulated (acceptance overlay)

theorem copy_refused (hp : w.pane? h = some p) (hn : ¬p.Live) (offset length : Nat) :
    copy h offset length w = (.failed .memoryAccess, w) :=
  Action.bind_failed (through_refused hp (Pane.checkLive_of_not_live hn))

theorem readable_seen (hp : w.pane? h = some p) (hs : p.Sound) :
    through h Pane.readable w = (.done (p.cursor.writer - p.cursor.reader), w) :=
  through_query hp (Pane.onCursor_query (Cursor.readable_apply hs.cursor.reader_le))

theorem copyUnread_refused (hp : w.pane? h = some p) (hs : p.Sound) (hn : ¬p.Live) :
    copyUnread h w = (.failed .memoryAccess, w) := by
  refine (Action.bind_done (paneOf_of_some hp)).trans ?_
  refine (Action.bind_done (readable_seen hp hs)).trans ?_
  exact copy_refused hp hn _ _

theorem sliceUnread_refused (hh : h.isRecord = false) (hp : w.pane? h = some p) (hs : p.Sound)
    (hn : ¬p.Live) :
    sliceUnread h w = (.failed .memoryAccess, w) := by
  refine (Action.bind_done (readable_seen hp hs)).trans ?_
  refine (Action.bind_done (paneOf_of_some hp)).trans ?_
  exact Action.bind_failed (slicing_refused hh hp (Pane.checkRange_of_not_live hn _ _))

/-- A capacity of zero is refused before anything else. -/
theorem Sound.resize_refused (hw : w.Sound) (ho : w.owner? i = some o) (hr : o.released = true)
    (hnone : w.hasViews i = false) (capacity : Nat) :
    resize i capacity w =
      (.failed (if capacity = 0 then .illegalArgument .zeroCapacity else .memoryAccess), w) := by
  have hobjection : o.objection capacity =
      some (if capacity = 0 then .illegalArgument .zeroCapacity else .memoryAccess) := by
    rw [Owner.objection, if_pos hr, apply_ite some]
  have hends := resize_ends hw ho hnone capacity
  rw [hobjection] at hends
  exact hends

/-! ## Operations on two handles -/

/-- Bytes do not come from released memory, whatever the target is. -/
theorem copyBytes_from_refused (hp : w.pane? source = some p) (hn : ¬p.Live)
    (index targetIndex length : Nat) :
    copyBytes source index target targetIndex length w = (.failed .memoryAccess, w) :=
  Action.bind_failed (through_refused hp (Pane.checkRange_of_not_live hn index length))

/-- Nor do they go there, but the source is looked at first. -/
theorem Sound.copyBytes_to_refused (hw : w.Sound) (hq : w.pane? source = some q)
    (hp : w.pane? target = some p) (hn : ¬p.Live) (index targetIndex length : Nat) :
    copyBytes source index target targetIndex length w =
      (.failed (q.rangeRefusal index length), w) := by
  by_cases h : q.Live ∧ index + length ≤ q.capacity
  · rw [copyBytes_target_refused hw hq h.1 h.2 hp fun hfit => hn hfit.1,
      Pane.rangeRefusal_of_not_live hn, Pane.rangeRefusal_of_le h.2]
  · exact copyBytes_source_refused hq (hw.pane hq) h target targetIndex

theorem transfer_from_refused (hp : w.pane? source = some p) (hn : ¬p.Live) (length : Nat) :
    transfer source target length w = (.failed .memoryAccess, w) :=
  Action.bind_failed (through_refused hp (Pane.readingAt_of_not_live hn length))

theorem Sound.transfer_to_refused (hw : w.Sound) (hq : w.pane? source = some q)
    (hp : w.pane? target = some p) (hn : ¬p.Live) (length : Nat) :
    transfer source target length w = (.failed (q.readingRefusal length), w) := by
  by_cases h : q.Live ∧ length ≤ q.cursor.writer - q.cursor.reader
  · rw [transfer_target_refused hw hq h.1 h.2 hp fun hfit => hn hfit.1,
      Pane.writingRefusal_of_not_live hn, Pane.readingRefusal_of_le h.2]
  · exact transfer_source_refused hq (hw.pane hq) h target

/-! ## Every operation -/

/-- **What needs released memory fails**, and nothing changes. -/
theorem Sound.run_of_refuses (hw : w.Sound) (ho : w.owner? i = some o) (hr : o.released = true)
    {op : Operation} (hop : w.Refuses i op f) : op.run w = (.failed f, w) := by
  have seen : ∀ {h : Handle}, w.root? h = some i → ∃ p, w.pane? h = some p ∧ p.Sound ∧ ¬p.Live :=
    hw.pane_of_released ho hr
  cases hop with
  | @call h request hroot hcall =>
    obtain ⟨p, hp, hs, hn⟩ := seen hroot
    exact Action.bind_failed (through_refused hp (request.run_of_not_live hs hn hcall))
  | @recordCall j request hroot =>
    obtain ⟨p, hp, -, hn⟩ := seen hroot
    exact through_refused hp (request.run_of_not_live hn)
  | @writeRecord h header hroot =>
    obtain ⟨p, hp, -, hn⟩ := seen hroot
    exact Action.bind_failed (through_refused hp (header.write_of_not_live hn))
  | exportBytes hroot =>
    obtain ⟨p, hp, hs, hn⟩ := seen hroot
    exact Action.bind_failed
      (Action.bind_failed (through_refused hp (Pane.contents_of_not_live hs hn)))
  | copy hroot =>
    obtain ⟨p, hp, -, hn⟩ := seen hroot
    exact Action.bind_failed (copy_refused hp hn _ _)
  | copyUnread hroot =>
    obtain ⟨p, hp, hs, hn⟩ := seen hroot
    exact Action.bind_failed (copyUnread_refused hp hs hn)
  | slice hroot hh =>
    obtain ⟨p, hp, -, hn⟩ := seen hroot
    exact Action.bind_failed (Action.bind_failed
      (slicing_refused hh hp (Pane.checkRange_of_not_live hn _ _)))
  | sliceUnread hroot hh =>
    obtain ⟨p, hp, hs, hn⟩ := seen hroot
    exact Action.bind_failed (sliceUnread_refused hh hp hs hn)
  | @lay h overlay q hroot hh hq | @probe h overlay q hroot hh hq =>
    obtain ⟨p, hp, -, hn⟩ := seen hroot
    obtain rfl := Option.some.inj (hp.symm.trans hq)
    exact Action.bind_failed (Action.bind_failed (overlaid_refused hh hp hn overlay))
  | @layRecord h q hroot hh hq =>
    obtain ⟨p, hp, -, hn⟩ := seen hroot
    obtain rfl := Option.some.inj (hp.symm.trans hq)
    exact Action.bind_failed (Action.bind_failed (overlaid_refused hh hp hn _))
  | @keep header q hq hcomplete =>
    obtain ⟨p, hp, hs, hn⟩ := seen (root?_owner ho)
    obtain rfl := Option.some.inj (hp.symm.trans hq)
    have hchecked : header.checkComplete p = (.done (), p) := by
      rw [CaptureInfo.checkComplete, Action.state_bind_apply, Action.require_true hcomplete,
        Action.pure_apply]
    exact Action.bind_failed
      ((Action.bind_done (through_query hp hchecked)).trans (copyUnread_refused hp hs hn))
  | resize hnone => exact Action.bind_failed (hw.resize_refused ho hr hnone _)
  | copyFrom hroot =>
    obtain ⟨p, hp, -, hn⟩ := seen hroot
    exact Action.bind_failed (copyBytes_from_refused hp hn _ _ _)
  | copyTo hroot hq =>
    obtain ⟨p, hp, -, hn⟩ := seen hroot
    exact Action.bind_failed (hw.copyBytes_to_refused hq hp hn _ _ _)
  | transferFrom hroot =>
    obtain ⟨p, hp, -, hn⟩ := seen hroot
    exact Action.bind_failed (transfer_from_refused hp hn _)
  | transferTo hroot hq =>
    obtain ⟨p, hp, -, hn⟩ := seen hroot
    exact Action.bind_failed (hw.transfer_to_refused hq hp hn _)

/-! ## Equality -/

/-- A range is looked at without stopping. -/
theorem attempt_checkRange (hp : w.pane? h = some p) (hs : p.Sound) (index length : Nat) :
    ∃ r : Except Failure Unit, (¬p.Live → ∀ u, r ≠ .ok u) ∧
      (Action.attempt (through h (Pane.checkRange index length)) : Task (Except Failure Unit)) w =
        (.done r, w) := by
  rcases Pane.checkRange_cases hs index length with ⟨hl, -, hrun⟩ | hrun
  · exact ⟨.ok (), fun hn => absurd hl hn, by rw [Action.attempt, through_query hp hrun]⟩
  · exact ⟨.error _, fun _ => by rintro _ ⟨⟩, by rw [Action.attempt, through_refused hp hrun]⟩

/-- **A handle of released memory is equal to nothing.** -/
theorem sameContents_of_not_live (hp : w.pane? source = some p) (hps : p.Sound)
    (hq : w.pane? target = some q) (hqs : q.Sound) (hn : ¬p.Live ∨ ¬q.Live) :
    sameContents source target w = (.done false, w) := by
  refine (Action.bind_done (readable_seen hp hps)).trans ?_
  refine (Action.bind_done (readable_seen hq hqs)).trans ?_
  split
  · rfl
  refine (Action.bind_done (paneOf_of_some hp)).trans ?_
  refine (Action.bind_done (paneOf_of_some hq)).trans ?_
  obtain ⟨left, hleft, hrunLeft⟩ := attempt_checkRange hp hps p.cursor.reader
    (p.cursor.writer - p.cursor.reader)
  obtain ⟨right, hright, hrunRight⟩ := attempt_checkRange hq hqs q.cursor.reader
    (p.cursor.writer - p.cursor.reader)
  refine (Action.bind_done hrunLeft).trans ((Action.bind_done hrunRight).trans ?_)
  rcases left with _ | ⟨⟩
  · rfl
  rcases right with _ | ⟨⟩
  · rfl
  -- one of the two ranges is refused
  rcases hn with hn | hn
  · exact absurd rfl (hleft hn ())
  · exact absurd rfl (hright hn ())

theorem Sound.sameContents_of_released (hw : w.Sound) (ho : w.owner? i = some o)
    (hr : o.released = true) (hp : w.pane? source = some p) (hq : w.pane? target = some q)
    (hroot : w.root? source = some i ∨ w.root? target = some i) :
    (Operation.sameContents source target).run w = (.done (.answer (.flag false)), w) := by
  refine Action.bind_done (sameContents_of_not_live hp (hw.pane hp) hq (hw.pane hq) ?_)
  rcases hroot with hroot | hroot
  · obtain ⟨p', hp', -, hn⟩ := hw.pane_of_released ho hr hroot
    obtain rfl := Option.some.inj (hp.symm.trans hp')
    exact .inl hn
  · obtain ⟨q', hq', -, hn⟩ := hw.pane_of_released ho hr hroot
    obtain rfl := Option.some.inj (hq.symm.trans hq')
    exact .inr hn

/-- **After its release, memory is out of reach for good.** As long as the owner is in use, each
operation that needs the memory fails, with the failure that `Refuses` gives, and changes nothing;
its handles are equal to nothing. And whatever happens later, the owner stays released, and neither
its capacity nor its indices and marks nor its bytes change, until they are returned; nor do the
window, the indices and the marks of anything derived from it. -/
theorem refused_after_release (hw : w.Reachable) (ho : w.owner? i = some o)
    (hr : o.released = true) :
    (∀ op f, w.Refuses i op f → op.run w = (.failed f, w)) ∧
    (∀ a b p q, w.pane? a = some p → w.pane? b = some q →
      w.root? a = some i ∨ w.root? b = some i →
      (Operation.sameContents a b).run w = (.done (.answer (.flag false)), w)) ∧
    ∀ history, let w' := w.after history
      (∃ o', w'.owners[i]? = some o' ∧ o'.released = true ∧ o'.capacity = o.capacity ∧
        o'.cursor = o.cursor ∧ (o'.block = o.block ∨ o'.block = none)) ∧
      ∀ h v v', w.derived? h = some v → v.root = i → w'.derived? h = some v' →
        v'.root = i ∧ v'.offset = v.offset ∧ v'.capacity = v.capacity ∧ v'.cursor = v.cursor := by
  have hs := hw.sound
  refine ⟨fun op f hop => hs.run_of_refuses ho hr hop, ?_, fun history => ⟨?_, ?_⟩⟩
  · intro a b p q hp hq hroot
    exact hs.sameContents_of_released ho hr hp hq hroot
  · obtain ⟨o', ho', hages⟩ := (hs.later_after history).owner i o (owner?_eq_some_iff.1 ho).1
    exact ⟨o', ho', hages hr⟩
  · rintro h v v' hv rfl hv'
    have hages := (hs.later_after history).derived hv hv'
    have hfreed : w.Freed v.root := ⟨o, (owner?_eq_some_iff.1 ho).1, hr⟩
    exact ⟨hages.root, hages.offset, hages.capacity, hages.cursor hfreed⟩

/-- A duplicate released the memory of the first owner. A read behind its end fails for the release
and not for the bounds; a copy from the second owner fails for the bounds of that one. -/
theorem refused_after_release_shared :
    let history : List Operation := [.allocate 0 8, .allocate 0 4,
      .call (.owner 0) (.appendBytes [1, 2, 3]), .duplicate (.owner 0), .release (.view 0)]
    let w := (start [⟨true, false, .log⟩]).after history
    (Operation.call (.owner 0) (.peekBytes 100 0)).run w = (.failed .memoryAccess, w) ∧
      (Operation.copyBytes (.owner 1) 3 (.view 0) 0 9).run w =
        (.failed (.outOfBounds (.range 3 9 4)), w) ∧
      ((w.after [.drop (.view 0), .release (.owner 0)]).owners[0]?.map Owner.cursor) =
        some ⟨0, 3, 0, 0⟩ := by
  intro history w
  obtain ⟨hrefused, -, hlater⟩ :=
    refused_after_release (w := w) (i := 0) ⟨_, history, rfl⟩ (by rfl) (by rfl)
  refine ⟨hrefused _ _ (.call (by rfl) rfl), ?_, ?_⟩
  · have hsource : w.pane? (.owner 1) = some (Pane.fresh 4) := by rfl
    exact hrefused (.copyBytes (.owner 1) 3 (.view 0) 0 9) _ (.copyTo (by rfl) hsource)
  · obtain ⟨o', ho', -, -, hcursor, -⟩ := (hlater [.drop (.view 0), .release (.owner 0)]).1
    rw [ho', Option.map_some, hcursor]
    rfl

end World

end PacketMemory
