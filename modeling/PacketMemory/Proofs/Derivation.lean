import PacketMemory.Proofs.Frame
import PacketMemory.Proofs.World.Calls
import PacketMemory.Proofs.World.Later

/-!
# Chains of derivations

However many derivations lie between an owner and a view, the view is a window of the owner: it leads
to the owner, and its offset is the sum of the offsets of all slices on the way. Each derivation is
checked against its source only; that the window lies in the owner follows by induction along the chain.

* `World.Chain` is a chain of derivations. In between anything may happen, to the handles of the chain
  and to others, as long as the last handle exists.
* `World.Descends` is what a chain says about its last handle. A cut (`World.Descends.cut`), a duplicate
  and any operation (`World.Descends.meanwhile`) keep it; the latter because owners that have views keep
  their capacity (`World.Sound.owner_kept`).
* What single derivations come to: `World.run_duplicate`, `World.Sound.run_slice`,
  `World.Sound.run_sliceUnread`.

Main statement: `World.Chain.collapses`.
-/

namespace PacketMemory

/-- No call changes the size of a window. -/
theorem Call.capacity_not_mem_moves (call : Call) : Part.capacity ∉ call.moves := by
  cases call <;> simp [moves, Cursor.all]

/-- Only resizing changes a capacity. -/
theorem Operation.eq_resize_of_moves {op : Operation} {h : Handle} (hop : Part.capacity ∈ op.moves h) :
    ∃ i capacity, op = .resize i capacity ∧ h = .owner i := by
  cases op with
  | resize i capacity =>
    by_cases hh : h = .owner i
    · exact ⟨i, capacity, rfl, hh⟩
    · simp [moves, hh] at hop
  | call k request =>
    by_cases hh : h = k
    · simp [moves, hh, request.capacity_not_mem_moves] at hop
    · simp [moves, hh] at hop
  | writeRecord k header =>
    by_cases hh : h = k <;> simp [moves, hh] at hop
  | transfer source target length =>
    by_cases hs : h = source <;> by_cases ht : h = target <;> simp [moves, hs, ht] at hop
  | _ => simp [moves] at hop

namespace World

/-- A chain of derivations from an owner: `h` is its last handle, and `cuts` tells the offset and the
length of every slice on the way. A slice of the readable bytes is one with the offset and the length
that the cursor gives at that moment. -/
inductive Chain (i : Nat) : World → Handle → List (Nat × Nat) → Prop
  | owner {w : World} {o : Owner} : w.Reachable → w.owner? i = some o → Chain i w (.owner i) []
  | slice {w w' : World} {h : Handle} {cuts : List (Nat × Nat)} {j : Nat} (offset length : Nat) :
    Chain i w h cuts →
    (Operation.slice h offset length).run w = (.done (.handle (.view j)), w') →
    Chain i w' (.view j) (cuts ++ [(offset, length)])
  | sliceUnread {w w' : World} {h : Handle} {cuts : List (Nat × Nat)} {j : Nat} {p : Pane} :
    Chain i w h cuts → w.pane? h = some p →
    (Operation.sliceUnread h).run w = (.done (.handle (.view j)), w') →
    Chain i w' (.view j) (cuts ++ [(p.cursor.reader, p.cursor.writer - p.cursor.reader)])
  | duplicate {w w' : World} {h : Handle} {cuts : List (Nat × Nat)} {j : Nat} :
    Chain i w h cuts → (Operation.duplicate h).run w = (.done (.handle (.view j)), w') →
    Chain i w' (.view j) cuts
  /-- anything else that leaves the handle in existence -/
  | meanwhile {w : World} {h : Handle} {cuts : List (Nat × Nat)} (op : Operation) :
    Chain i w h cuts → (∃ p, (op.run w).2.pane? h = some p) → Chain i (op.run w).2 h cuts

/-- Where slices of slices lead: the sum of their offsets. -/
def totalOffset (cuts : List (Nat × Nat)) : Nat := cuts.foldl (fun total cut => total + cut.1) 0

/-- Views derived through `h` derive from `v`, which `cuts` leads to from the owner `o`. -/
structure Descends (i : Nat) (w : World) (h : Handle) (cuts : List (Nat × Nat)) (v : View)
    (o : Owner) : Prop where
  basis : w.basis? h = some v
  owner : w.owner? i = some o
  root : v.root = i
  offset : v.offset = totalOffset cuts
  kind : v.kind = .duplicate ↔ cuts = []
  whole : cuts = [] → v.capacity = o.capacity

variable {w w' : World} {h : Handle} {i j offset length : Nat} {cuts : List (Nat × Nat)}
variable {v : View} {o : Owner} {p : Pane}

/-! ## Owners that have views -/

theorem hasViews_of_derived (hv : w.derived? h = some v) : w.hasViews v.root = true :=
  eq_true_of_ne_false fun hnone => root_ne_of_hasViews hnone hv rfl

/-- An owner that has views stays in use and keeps its capacity, whatever happens. -/
theorem Sound.owner_kept (hw : w.Sound) (hv : w.derived? h = some v)
    (ho : w.owner? v.root = some o) (op : Operation) :
    ∃ o', (op.run w).2.owner? v.root = some o' ∧ o'.capacity = o.capacity := by
  have hgate := withoutViews_of_some (hasViews_of_derived hv)
  have hstopped : op.run w = (.trapped .misuse, w) →
      ∃ o', (op.run w).2.owner? v.root = some o' ∧ o'.capacity = o.capacity := by
    intro hrun
    rw [hrun]
    exact ⟨o, ho, rfl⟩
  -- what could change the capacity or put an end to the owner asks for views first
  by_cases hresize : ∃ capacity, op = .resize v.root capacity
  · obtain ⟨capacity, rfl⟩ := hresize
    exact hstopped (Action.bind_trapped (Action.bind_trapped hgate))
  by_cases hclose : op = .close (.owner v.root)
  · subst hclose
    exact hstopped (Action.bind_trapped (Action.bind_trapped (Action.bind_trapped hgate)))
  by_cases hdrop : op = .drop (.owner v.root)
  · subst hdrop
    exact hstopped (Action.bind_trapped (Action.bind_trapped hgate))
  have hgivesUp : .owner v.root ∉ op.givesUp := by
    intro hmem
    cases op with
    | close k => exact hclose (by rw [List.mem_singleton.1 hmem])
    | drop k => exact hdrop (by rw [List.mem_singleton.1 hmem])
    | _ => cases hmem
  have hmoves : Part.capacity ∉ op.moves (.owner v.root) := by
    intro hmem
    obtain ⟨j, capacity, rfl, hj⟩ := Operation.eq_resize_of_moves hmem
    cases hj
    exact hresize ⟨capacity, rfl⟩
  obtain ⟨p', hp', -, hparts⟩ := (hw.changesOnly op).handle _ _ (pane?_owner ho) hgivesUp
  obtain ⟨o', ho', rfl⟩ := Option.map_eq_some_iff.1 hp'
  exact ⟨o', ho', Part.others_eq_iff.1 hparts .capacity hmoves⟩

/-! ## Single derivations -/

/-- A duplicate is what its source is. -/
theorem run_duplicate (hv : w.basis? h = some v) :
    (Operation.duplicate h).run w =
      (.done (.handle (.view w.views.length)), { w with views := w.views ++ [some v] }) := by
  have hbasis := basis_apply w h
  rw [hv] at hbasis
  exact Action.bind_done ((Action.bind_done hbasis).trans (addView_apply w v))

theorem Sound.run_slice (hw : w.Sound) (hv : w.basis? h = some v) (hp : w.pane? h = some p)
    (hl : p.Live) (hfit : offset + length ≤ p.capacity) :
    (Operation.slice h offset length).run w = (.done (.handle (.view w.views.length)),
      { w with views := w.views ++ [some (v.cut offset length)] }) :=
  Action.bind_done (hw.slice_of_basis hv hp hl hfit)

theorem run_slice_refused (hv : w.basis? h = some v) (hp : w.pane? h = some p) (hl : p.Live)
    (hlt : p.capacity < offset + length) :
    (Operation.slice h offset length).run w =
      (.failed (.outOfBounds (.range offset length p.capacity)), w) := by
  have hh : h.isRecord = false := by
    cases h with
    | owner j | view j => rfl
    | record j => cases hv
  exact Action.bind_failed
    (Action.bind_failed (slicing_refused hh hp (Pane.checkRange_of_lt hl hlt)))

/-- The readable bytes lie in the window, so a slice of them always succeeds. -/
theorem Sound.run_sliceUnread (hw : w.Sound) (hv : w.basis? h = some v) (hp : w.pane? h = some p)
    (hl : p.Live) :
    (Operation.sliceUnread h).run w = (.done (.handle (.view w.views.length)),
      { w with views := w.views ++
        [some (v.cut p.cursor.reader (p.cursor.writer - p.cursor.reader))] }) := by
  have hreader := (hw.pane hp).cursor.reader_le
  have hwriter := (hw.pane hp).cursor.writer_le
  have hlook := Pane.onCursor_query (Cursor.readable_apply (ε := Failure) hreader)
  have hfit : p.cursor.reader + (p.cursor.writer - p.cursor.reader) ≤ p.capacity := by omega
  refine Action.bind_done ((Action.bind_done (through_query hp hlook)).trans ?_)
  exact (Action.bind_done (paneOf_of_some hp)).trans (hw.slice_of_basis hv hp hl hfit)

theorem run_rootOf (hr : w.root? h = some i) :
    (Operation.rootOf h).run w = (.done (.handle (.owner i)), w) :=
  Action.bind_done (rootOf_of_some hr)

/-! ## What every step keeps -/

namespace Descends

theorem of_owner (ho : w.owner? i = some o) :
    Descends i w (.owner i) [] ⟨i, 0, o.capacity, o.cursor, o.order, .duplicate⟩ o where
  basis := Option.map_eq_some_iff.2 ⟨o, ho, rfl⟩
  owner := ho
  root := rfl
  offset := rfl
  kind := ⟨fun _ => rfl, fun _ => rfl⟩
  whole _ := rfl

/-- A slice adds its offset. -/
theorem cut (hd : Descends i w h cuts v o) (offset length : Nat) :
    Descends i { w with views := w.views ++ [some (v.cut offset length)] }
      (.view w.views.length) (cuts ++ [(offset, length)]) (v.cut offset length) o where
  basis := view?_append w _
  owner := hd.owner
  root := hd.root
  offset := by
    rw [totalOffset, List.foldl_append, ← totalOffset, ← hd.offset]
    rfl
  kind := ⟨nofun, fun hnil => absurd hnil (by simp)⟩
  whole hnil := absurd hnil (by simp)

theorem duplicate (hd : Descends i w h cuts v o) :
    Descends i { w with views := w.views ++ [some v] } (.view w.views.length) cuts v o :=
  { hd with
    basis := view?_append w v
    owner := hd.owner }

/-- The view stays what it is as long as it exists, and so does the owner behind it. -/
theorem meanwhile (hd : Descends i w h cuts v o) (hw : w.Sound) (op : Operation)
    (hp : (op.run w).2.pane? h = some p) :
    ∃ v' o', Descends i (op.run w).2 h cuts v' o' := by
  cases h with
  | owner j =>
    obtain ⟨o₀, -, rfl⟩ := Option.map_eq_some_iff.1 hd.basis
    obtain rfl : j = i := hd.root
    obtain ⟨o', ho', -⟩ := Option.map_eq_some_iff.1 hp
    obtain rfl : cuts = [] := hd.kind.1 rfl
    exact ⟨_, o', of_owner ho'⟩
  | view j =>
    have hv : w.derived? (.view j) = some v := hd.basis
    have howner : w.owner? v.root = some o := by rw [hd.root, hd.owner]
    obtain ⟨v', hv', -⟩ := Option.bind_eq_some_iff.1 hp
    have hages := (hw.later op).derived hv hv'
    obtain ⟨o', ho', hcapacity⟩ := hw.owner_kept hv howner op
    refine ⟨v', o', hv', hd.root ▸ ho', hages.root.trans hd.root, hages.offset.trans hd.offset, ?_,
      fun hnil => ?_⟩
    · rw [hages.kind]
      exact hd.kind
    · rw [hages.capacity, hd.whole hnil, hcapacity]
  | record j => cases hd.basis

end Descends

namespace Chain

theorem reachable (hc : Chain i w h cuts) : w.Reachable := by
  have step : ∀ {w w' : World} {op : Operation} {r : Outcome Failure Reply}, w.Reachable →
      op.run w = (r, w') → w'.Reachable := by
    intro w w' op r hw hrun
    have hafter := hw.after [op]
    rwa [after_cons, hrun] at hafter
  induction hc with
  | owner hw => exact hw
  | slice _ _ _ hrun ih | sliceUnread _ _ hrun ih | duplicate _ hrun ih => exact step ih hrun
  | meanwhile op _ _ ih => exact step ih rfl

/-- **Every step of a chain keeps** where its last handle lies in the owner. -/
theorem descends (hc : Chain i w h cuts) : ∃ v o, Descends i w h cuts v o := by
  induction hc with
  | owner _ ho => exact ⟨_, _, .of_owner ho⟩
  | slice offset length hc hrun ih =>
    obtain ⟨v, o, hd⟩ := ih
    obtain ⟨_, ⟨⟨u, hu, rfl⟩, -⟩, rfl, rfl⟩ :=
      made_of_run (slice_makes hc.reachable.sound _ offset length) hrun
    obtain rfl := Option.some.inj (hd.basis.symm.trans hu)
    exact ⟨_, o, hd.cut offset length⟩
  | sliceUnread hc hp hrun ih =>
    obtain ⟨v, o, hd⟩ := ih
    obtain ⟨p, _, hp', ⟨⟨u, hu, rfl⟩, -⟩, rfl, rfl⟩ :=
      made_of_run (sliceUnread_makes hc.reachable.sound _) hrun
    obtain rfl := Option.some.inj (hd.basis.symm.trans hu)
    obtain rfl := Option.some.inj (hp.symm.trans hp')
    exact ⟨_, o, hd.cut _ _⟩
  | duplicate hc hrun ih =>
    obtain ⟨v, o, hd⟩ := ih
    obtain ⟨u, hu, rfl, rfl⟩ := made_of_run (duplicate_makes _) hrun
    obtain rfl := Option.some.inj (hd.basis.symm.trans hu)
    exact ⟨v, o, hd.duplicate⟩
  | meanwhile op hc hp ih =>
    obtain ⟨v, o, hd⟩ := ih
    obtain ⟨p, hp⟩ := hp
    exact hd.meanwhile hc.reachable.sound op hp

/-- **Chains of derivations collapse.** The last handle of a chain leads to the owner, and sees the
window of it whose offset is the sum of the offsets of all slices; the window lies in the owner. The
view has a part in the ownership iff there was no slice, and then it sees everything. The next step
can always be a duplicate, which is the same view again. On memory that was not released, it can be a
slice iff the range fits the window, and a slice of the readable bytes; a slice starts with all of its
bytes readable and no marks, in the byte order of its source at that moment. Then, too, a single slice of
the owner is the same window, and every byte of the window is the byte of the owner that the offset
leads to. -/
theorem collapses (hc : Chain i w h cuts) :
    ∃ v o, w.basis? h = some v ∧ w.pane? h = some (v.pane o) ∧ w.owner? i = some o ∧
      (Operation.rootOf h).run w = (.done (.handle (.owner i)), w) ∧
      v.root = i ∧ v.offset = totalOffset cuts ∧ v.offset + v.capacity ≤ o.capacity ∧
      (v.kind = .duplicate ↔ cuts = []) ∧ (cuts = [] → v.offset = 0 ∧ v.capacity = o.capacity) ∧
      (∃ j w', (Operation.duplicate h).run w = (.done (.handle (.view j)), w') ∧
        w'.view? j = some v) ∧
      (o.released = false →
        (∀ offset length,
          ((∃ reply w', (Operation.slice h offset length).run w = (.done reply, w')) ↔
            offset + length ≤ v.capacity) ∧
          (v.capacity < offset + length → (Operation.slice h offset length).run w =
            (.failed (.outOfBounds (.range offset length v.capacity)), w)) ∧
          (offset + length ≤ v.capacity → ∃ j w',
            (Operation.slice h offset length).run w = (.done (.handle (.view j)), w') ∧
            w'.view? j =
              some ⟨i, v.offset + offset, length, ⟨0, length, 0, 0⟩, v.order, .slice⟩)) ∧
        (∃ j w', (Operation.sliceUnread h).run w = (.done (.handle (.view j)), w') ∧
          let readable := v.cursor.writer - v.cursor.reader
          w'.view? j = some ⟨i, v.offset + v.cursor.reader, readable, ⟨0, readable, 0, 0⟩, v.order,
            .slice⟩) ∧
        (∃ j w' u, (Operation.slice (.owner i) v.offset v.capacity).run w =
            (.done (.handle (.view j)), w') ∧
          w'.view? j = some u ∧ u.root = v.root ∧ u.offset = v.offset ∧ u.capacity = v.capacity) ∧
        ∀ index length, index + length ≤ v.capacity → ∃ bytes, bytes.length = length ∧
          (Operation.call h (.peekBytes index length)).run w =
            (.done (.answer (.bytes bytes)), w) ∧
          (Operation.call (.owner i) (.peekBytes (v.offset + index) length)).run w =
            (.done (.answer (.bytes bytes)), w)) := by
  have hw := hc.reachable.sound
  obtain ⟨v, o, hd⟩ := hc.descends
  obtain ⟨u, hu, hfit, hp⟩ := hw.basis hd.basis
  obtain rfl : u = o := Option.some.inj ((hd.root ▸ hu).symm.trans hd.owner)
  have hwindow := hfit.window
  refine ⟨v, u, hd.basis, hp, hd.owner, ?_, hd.root, hd.offset, hwindow, hd.kind, ?_, ?_, ?_⟩
  · exact run_rootOf (hd.root ▸ root_of_basis hd.basis)
  · intro hnil
    rw [hd.offset, hnil]
    exact ⟨rfl, hd.whole hnil⟩
  · exact ⟨_, _, run_duplicate hd.basis, view?_append w v⟩
  · intro hr
    have hl : (v.pane u).Live := hw.live_of_pane hp hr
    have howner := pane?_owner hd.owner
    have hlo : u.pane.Live := hw.live_of_pane howner hr
    have hslice := fun offset length (hfit : offset + length ≤ v.capacity) =>
      hw.run_slice hd.basis hp hl hfit
    refine ⟨fun offset length => ⟨⟨?_, ?_⟩, ?_, ?_⟩, ?_, ?_, ?_⟩
    · rintro ⟨reply, w', hrun⟩
      refine Nat.le_of_not_lt fun hlt => ?_
      rw [run_slice_refused hd.basis hp hl hlt] at hrun
      cases hrun
    · exact fun hfit => ⟨_, _, hslice offset length hfit⟩
    · exact fun hlt => run_slice_refused hd.basis hp hl hlt
    · intro hfit
      refine ⟨_, _, hslice offset length hfit, ?_⟩
      rw [view?_append, View.cut, hd.root]
      rfl
    · refine ⟨_, _, hw.run_sliceUnread hd.basis hp hl, ?_⟩
      rw [view?_append, View.cut, hd.root]
      rfl
    · have hbasis := (Descends.of_owner hd.owner).basis
      exact ⟨_, _, _, hw.run_slice hbasis howner hlo hwindow, view?_append w _, hd.root.symm,
        Nat.zero_add v.offset, rfl⟩
    · intro index length hfit
      have hos := hw.pane howner
      have hfit' : v.offset + index + length ≤ u.pane.capacity := by
        show _ ≤ u.capacity
        omega
      have hpeek := run_peekBytes hp (hw.pane hp) hl hfit
      rw [bytesAt_pane] at hpeek
      exact ⟨_, Pane.length_bytesAt hos hlo hfit', hpeek, run_peekBytes howner hos hlo hfit'⟩

/-- Six of eight bytes, of these the three readable ones, and a duplicate of that. Bytes 3 to 5 of the
owner are left, and no more than these can be sliced. -/
theorem collapses_cut_twice :
    let w := (start [.standard]).after [.allocate 0 8,
      .call (.owner 0) (.pokeBytes 0 [1, 2, 3, 4, 5, 6, 7, 8]), .slice (.owner 0) 1 6,
      .call (.view 0) (.seek 2 5), .sliceUnread (.view 0), .duplicate (.view 1)]
    Chain 0 w (.view 2) [(1, 6), (2, 3)] ∧
      (∃ v, w.basis? (.view 2) = some v ∧ v.offset = 3 ∧ v.kind ≠ .duplicate) ∧
      (Operation.slice (.view 2) 2 2).run w = (.failed (.outOfBounds (.range 2 2 3)), w) ∧
      (∃ j w', (Operation.slice (.owner 0) 3 3).run w = (.done (.handle (.view j)), w')) ∧
      ∃ bytes, (Operation.call (.view 2) (.peekBytes 1 2)).run w =
          (.done (.answer (.bytes bytes)), w) ∧
        (Operation.call (.owner 0) (.peekBytes 4 2)).run w = (.done (.answer (.bytes bytes)), w) := by
  intro w
  have hc : Chain 0 w (.view 2) [(1, 6), (2, 3)] := by
    have howner : Chain 0 ((start [.standard]).after [.allocate 0 8,
        .call (.owner 0) (.pokeBytes 0 [1, 2, 3, 4, 5, 6, 7, 8])]) (.owner 0) [] :=
      .owner ⟨_, _, rfl⟩ rfl
    have hslice := howner.slice 1 6 rfl
    have hmoved := hslice.meanwhile (.call (.view 0) (.seek 2 5)) ⟨_, rfl⟩
    have hunread := hmoved.sliceUnread rfl rfl
    exact hunread.duplicate rfl
  obtain ⟨v, o, hv, -, ho, -, -, hoffset, -, hkind, -, -, hlive⟩ := hc.collapses
  have hbasis : w.basis? (.view 2) = some ⟨0, 3, 3, ⟨0, 3, 0, 0⟩, default, .slice⟩ := by rfl
  have hkept : w.owner? 0 = some o → o.released = false := by
    rintro ⟨⟩
    rfl
  obtain ⟨hslices, -, ⟨j, w', -, hroot, -⟩, hbytes⟩ := hlive (hkept ho)
  obtain ⟨bytes, -, hview, howner⟩ := hbytes 1 2 (by cases hbasis.symm.trans hv; decide)
  refine ⟨hc, ⟨v, hv, hoffset, fun h => nomatch hkind.1 h⟩, ?_, ?_, bytes, hview, ?_⟩
  all_goals
    cases hbasis.symm.trans hv
  · exact (hslices 2 2).2.1 (by decide)
  · exact ⟨j, w', hroot⟩
  · exact howner

end Chain

end World

end PacketMemory
