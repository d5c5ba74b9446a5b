import PacketMemory.Proofs.Pane.Window
import PacketMemory.Proofs.World.Calls

/-!
# A slice behaves like a copy

A slice and a copy of the same bytes are put the same calls, with the calls to the one and to the
other interleaved in any way. Neither reaches what the other one sees, so each of them gets the
answers that the calls give on its own pane (`World.Forked.run`). And no call can tell a window from
the bytes in it (`Call.runAll_extract`), so these answers are the same, and what the slice leaves in
its window is what the copy holds in the end (`World.slice_behaves_like_copy`).
-/

namespace PacketMemory

/-- A copy starts with the bytes of the slice. -/
theorem Pane.extract_cut {p : Pane} (hp : p.Sound) (hl : p.Live) {offset length : Nat}
    (hfit : offset + length ≤ p.capacity) :
    (p.cut offset length).extract = Pane.holding (p.bytesAt offset length) p.order := by
  obtain ⟨b, hb⟩ := Option.isSome_iff_exists.1 hl.2
  have hlen := Pane.length_bytesAt hp hl hfit
  rw [Pane.holding, hlen]
  simp only [Pane.extract, Pane.cut, Pane.bytesAt, hb, Option.map_some, Option.getD_some, hl.1]

namespace World

/-- The handles `s` and `h` see the memory of one owner, and `c` sees that of another one. -/
structure Forked (w : World) (h s c : Handle) (u p q : Pane) : Prop where
  sound : w.Sound
  source : w.pane? h = some { u with block := p.block }
  slice : w.pane? s = some p
  copy : w.pane? c = some q
  shared : w.root? h = w.root? s
  apart : w.root? c ≠ w.root? s
  other : h ≠ s

variable {w : World} {h s c k : Handle} {u p q : Pane} {call : Call} {offset length : Nat}
variable {steps : List (Handle × Call)}

/-! ## Calls through a slice and a copy -/

theorem Forked.copy_ne_slice (hf : w.Forked h s c u p q) : c ≠ s := by
  rintro rfl
  exact hf.apart rfl

theorem Forked.source_ne_copy (hf : w.Forked h s c u p q) : h ≠ c := by
  rintro rfl
  exact hf.apart hf.shared

/-- The source sees the bytes that the slice changes, and the copy does not. -/
theorem Forked.call_slice (hf : w.Forked h s c u p q) (call : Call) :
    (w.store s (call.run p).2).Forked h s c u (call.run p).2 q := by
  have he := call.run_evolves (hf.sound.pane hf.slice)
  have hroot : ∀ k, (w.store s (call.run p).2).root? k = w.root? k := fun _ =>
    root?_store hf.slice _
  refine ⟨hf.sound.store hf.slice he, ?_, pane?_store_self hf.slice he, ?_, ?_, ?_, hf.other⟩
  · rw [pane?_store_of_ne hf.slice _ hf.other hf.source, if_pos hf.shared]
  · rw [pane?_store_of_ne hf.slice _ hf.copy_ne_slice hf.copy, if_neg hf.apart]
  · rw [hroot, hroot, hf.shared]
  · rw [hroot, hroot]
    exact hf.apart

/-- The copy changes nothing that the slice or the source sees. -/
theorem Forked.call_copy (hf : w.Forked h s c u p q) (call : Call) :
    (w.store c (call.run q).2).Forked h s c u p (call.run q).2 := by
  have he := call.run_evolves (hf.sound.pane hf.copy)
  have hroot : ∀ k, (w.store c (call.run q).2).root? k = w.root? k := fun _ =>
    root?_store hf.copy _
  refine ⟨hf.sound.store hf.copy he, ?_, ?_, pane?_store_self hf.copy he, ?_, ?_, hf.other⟩
  · rw [pane?_store_of_ne hf.copy _ hf.source_ne_copy hf.source,
      if_neg fun e => hf.apart (e.symm.trans hf.shared)]
  · rw [pane?_store_of_ne hf.copy _ hf.copy_ne_slice.symm hf.slice, if_neg hf.apart.symm]
  · rw [hroot, hroot, hf.shared]
  · rw [hroot, hroot]
    exact hf.apart

/-- **Both get the answers that their calls give on their own panes**, in any interleaving. -/
theorem Forked.run (hf : w.Forked h s c u p q)
    (honly : ∀ step ∈ steps, step.1 = s ∨ step.1 = c) :
    (w.after (calling steps)).Forked h s c u (Call.runAll (callsTo s steps) p).2
        (Call.runAll (callsTo c steps) q).2 ∧
      w.answersTo s steps =
        (Call.runAll (callsTo s steps) p).1.map (Outcome.map Reply.answer) ∧
      w.answersTo c steps =
        (Call.runAll (callsTo c steps) q).1.map (Outcome.map Reply.answer) := by
  refine run_both (R := fun w p q => w.Forked h s c u p q) hf.copy_ne_slice.symm ?_ ?_ hf honly
  · exact fun w p q call hf => ⟨_, run_call hf.slice call, hf.call_slice call⟩
  · exact fun w p q call hf => ⟨_, run_call hf.copy call, hf.call_copy call⟩

/-! ## The same bytes, twice -/

/-- A copy is a new owner of the bytes. All other handles see what they saw, and lead elsewhere. -/
theorem Sound.run_copy (hw : w.Sound) (hp : w.pane? h = some p) (hl : p.Live) (hlen : length ≠ 0)
    (hfit : offset + length ≤ p.capacity) :
    ∃ k w', (Operation.copy h offset length).run w = (.done (.handle (.owner k)), w') ∧
      w'.Sound ∧ w'.pane? (.owner k) = some (p.cut offset length).extract ∧
      w'.root? (.owner k) = some k ∧ ∀ g q, w.pane? g = some q →
        w'.pane? g = some q ∧ w'.root? g = w.root? g ∧ w'.root? g ≠ some k := by
  obtain ⟨r, o, hr, ho, -⟩ := root_of_pane hp
  have hd := hw.allowed_copy hr ho hp hlen hfit
  obtain ⟨_, _, hrun, rfl, rfl⟩ := copy_succeeds hw hr ho hp hl hfit hd
  have hnew := pane?_allocated_new hd.1 length
  have he := Pane.evolves_holding (Pane.length_bytesAt (hw.pane hp) hl hfit) p.order
  obtain ⟨new, howner, -⟩ := Option.map_eq_some_iff.1 hnew
  have hroot := root?_owner howner
  refine ⟨_, _, Action.bind_done hrun, (hw.becomes_copied hp hl hfit hd).sound, ?_, ?_, ?_⟩
  · rw [copied, pane?_store_self hnew he, Pane.extract_cut (hw.pane hp) hl hfit]
  · rw [copied, root?_store hnew, hroot]
  · intro g q hq
    obtain ⟨i, u, hi, hu, -⟩ := root_of_pane hq
    have hg : (w.allocated o.detector length).root? g = some i := root?_allocated hi
    have hapart := root?_allocated_ne hi hu o.detector length
    have hne : g ≠ .owner w.owners.length := by
      rintro rfl
      exact hapart hroot
    refine ⟨?_, ?_, ?_⟩
    · rw [copied, pane?_store_of_ne hnew _ hne (pane?_allocated hq o.detector length), hroot,
        if_neg hapart]
    · rw [copied, root?_store hnew, hg, hi]
    · rw [copied, root?_store hnew]
      exact hapart

/-- A slice and a copy of the same bytes, beside their source. -/
theorem Sound.forks (hw : w.Sound) (hh : h.isRecord = false) (hp : w.pane? h = some p)
    (hl : p.Live) (hlen : length ≠ 0) (hfit : offset + length ≤ p.capacity) :
    ∃ j k w₁ w₂,
      (Operation.slice h offset length).run w = (.done (.handle (.view j)), w₁) ∧
      (Operation.copy h offset length).run w₁ = (.done (.handle (.owner k)), w₂) ∧
      w₂.Forked h (.view j) (.owner k) p (p.cut offset length) (p.cut offset length).extract := by
  obtain ⟨j, w₁, hslice, hw₁, hne, hp₁, hs₁, hroot₁⟩ := hw.slice_apply hh hp hl hfit
  obtain ⟨k, w₂, hcopy, hw₂, hc₂, hrootc, hkeep⟩ := hw₁.run_copy hp₁ hl hlen hfit
  obtain ⟨hp₂, hrooth, -⟩ := hkeep h p hp₁
  obtain ⟨hs₂, hroots, hapart⟩ := hkeep (.view j) _ hs₁
  refine ⟨j, k, w₁, w₂, Action.bind_done hslice, hcopy, hw₂, hp₂, hs₂, hc₂, ?_, ?_, hne⟩
  · rw [hrooth, hroots, hroot₁]
  · rw [hrootc]
    exact hapart.symm

/-- **A slice behaves like a copy**: with the same calls put to both, in any order between the two,
they answer the same. In the end they have the same indices, marks and byte order, the window of the
slice holds the bytes of the copy, and the memory of the source is as it was everywhere else. -/
theorem slice_behaves_like_copy (hw : w.Reachable) (hh : h.isRecord = false)
    (hp : w.pane? h = some p) (hr : p.released = false) (hlen : 0 < length)
    (hfit : offset + length ≤ p.capacity) :
    ∃ j k w₁ w₂,
      (Operation.slice h offset length).run w = (.done (.handle (.view j)), w₁) ∧
      (Operation.copy h offset length).run w₁ = (.done (.handle (.owner k)), w₂) ∧
      ∀ steps, (∀ step ∈ steps, step.1 = .view j ∨ step.1 = .owner k) →
        callsTo (.view j) steps = callsTo (.owner k) steps →
        w₂.answersTo (.view j) steps = w₂.answersTo (.owner k) steps ∧
        let w' := w₂.after (calling steps)
        ∃ s c b b', p.block = some b ∧ w'.pane? h = some { p with block := some b' } ∧
          w'.pane? (.view j) = some s ∧ w'.pane? (.owner k) = some c ∧
          s.cursor = c.cursor ∧ s.order = c.order ∧
          s.offset = p.offset + offset ∧ s.capacity = length ∧ c.capacity = length ∧
          c.block = some ((b'.drop s.offset).take length) ∧ b'.length = b.length ∧
          ∀ i, i < s.offset ∨ s.offset + length ≤ i → b'[i]? = b[i]? := by
  have hsound := hw.sound
  have hl := hsound.live_of_pane hp hr
  obtain ⟨j, k, w₁, w₂, hslice, hcopy, hf⟩ :=
    hsound.forks hh hp hl (Nat.ne_of_gt hlen) hfit
  refine ⟨j, k, w₁, w₂, hslice, hcopy, fun steps honly hsame => ?_⟩
  obtain ⟨hend, hs, hc⟩ := hf.run honly
  have hcut := hf.sound.pane hf.slice
  have hextract := Call.runAll_extract (callsTo (.view j) steps) hcut.window
  have he := Call.runAll_evolves hcut (callsTo (.view j) steps)
  rw [← hsame, hextract] at hend hc
  refine ⟨hs.trans hc.symm, ?_⟩
  obtain ⟨b, hb⟩ := Option.isSome_iff_exists.1 hl.2
  -- the slice still has its window
  generalize (Call.runAll (callsTo (.view j) steps) (p.cut offset length)).2 = s at hend he
  have hsize : s.block.map List.length = some b.length := he.size.trans (congrArg _ hb)
  obtain ⟨b', hb', hlen'⟩ := Option.map_eq_some_iff.1 hsize
  have hsource := hend.source
  rw [hb'] at hsource
  refine ⟨s, s.extract, b, b', hb, hsource, hend.slice, hend.copy, rfl, rfl, he.offset, he.capacity,
    he.capacity, ?_, hlen', ?_⟩
  · rw [Pane.block_extract hb', he.capacity]
    rfl
  · intro i hi
    rw [he.offset] at hi
    exact he.outside b b' hb hb' i hi

/-- A byte is changed through the middle of eight bytes and through a copy of the middle, and behind
that both refuse to skip more than they have. -/
theorem slice_behaves_like_copy_middle :
    let w := (start [⟨true, false, .log⟩]).after
      [.allocate 0 8, .call (.owner 0) (.appendBytes [1, 2, 3, 4, 5, 6, 7, 8])]
    let w₂ := w.after [.slice (.owner 0) 2 4, .copy (.owner 0) 2 4]
    let steps : List (Handle × Call) := [(.view 0, .pokeBytes 1 [9]), (.owner 1, .pokeBytes 1 [9]),
      (.owner 1, .skip 5), (.view 0, .skip 5)]
    w₂.answersTo (.view 0) steps = w₂.answersTo (.owner 1) steps ∧
      ((w₂.after (calling steps)).pane? (.owner 0)).bind Pane.block =
        some [1, 2, 3, 9, 5, 6, 7, 8] := by
  intro w w₂ steps
  have hfit : 2 + 4 ≤ Pane.capacity ⟨some [1, 2, 3, 4, 5, 6, 7, 8], false, 0, 8,
      Cursor.holding 8, default⟩ := by decide
  obtain ⟨j, k, w₁, w₂', hslice, hcopy, hagree⟩ := slice_behaves_like_copy (w := w) (h := .owner 0)
    ⟨_, _, rfl⟩ rfl (by rfl) rfl (by decide) hfit
  have hview : (Operation.slice (.owner 0) 2 4).run w =
      (.done (.handle (.view 0)), w.after [.slice (.owner 0) 2 4]) := by
    refine Prod.ext ?_ ?_
    · decide
    · simp only [after_cons, after_nil]
  have howner : (Operation.copy (.owner 0) 2 4).run (w.after [.slice (.owner 0) 2 4]) =
      (.done (.handle (.owner 1)), w₂) := by
    refine Prod.ext ?_ ?_
    · decide
    · simp only [w₂, after_cons, after_nil]
  -- the slice is the first view, and the copy is the second owner
  rw [hview] at hslice
  obtain ⟨hj, hw₁⟩ := Prod.mk.inj hslice
  rw [← hw₁, howner] at hcopy
  obtain ⟨hk, hw₂⟩ := Prod.mk.inj hcopy
  obtain rfl : 0 = j := by simpa using hj
  obtain rfl : 1 = k := by simpa using hk
  rw [← hw₂] at hagree
  exact ⟨(hagree steps (by simp [steps]) rfl).1, by decide⟩

end World

end PacketMemory
