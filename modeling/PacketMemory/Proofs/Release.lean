import PacketMemory.Proofs.World.Later
import PacketMemory.Proofs.World.Tracking

/-!
# Memory is released once

An owner shares the release of its memory with its duplicates (`World.shares`). Whoever of them is
first sets the flag of the owner, and nothing resets it.

* `World.releaseCalls` are the outcomes of all release and close calls of a history through handles
  that share an owner. The flag is set iff there are any (`World.Sound.isReleased_after`), and only
  the first of them can answer that it was the one (`World.Sound.answers`).
* A release or close through an owner or a duplicate cannot fail. It returns iff nothing holds the handle
  back (`World.Unheld`): an owner has to be there, and no view may show its memory
  (`World.release_returns`).
* `World.released_once` puts this together with what slices do, and with what is left for an owner
  to release behind a duplicate.
-/

namespace PacketMemory

/-- The handle that the operation releases or closes. -/
def Operation.given? : Operation → Option Handle
  | release h | close h => some h
  | _ => none

/-- An outcome that is an end. -/
def Outcome.end? {ε α : Type} : Outcome ε α → Option (Outcome ε α)
  | trapped _ => none
  | outcome => some outcome

namespace World

/-- The handle is this owner or one of its duplicates. -/
def shares (w : World) (i : Nat) : Handle → Bool
  | .owner j => decide (j = i)
  | .view j => (w.view? j).any fun v => decide (v.root = i) && decide (v.kind = .duplicate)
  | .record _ => false

/-- Nothing holds the handle back from being released or closed. For an owner, this takes that it is
there and that no view shows its memory. -/
def Unheld (w : World) : Handle → Prop
  | .owner i => (w.owner? i).isSome = true ∧ w.hasViews i = false
  | _ => True

/-- What came of the operation if it is a release or close call through a handle that shares the
owner. A call that misuses the handle is none. -/
def releaseCall? (w : World) (i : Nat) (op : Operation) : Option (Outcome Failure Reply) :=
  match op.given? with
  | none => none
  | some h => if w.shares i h then (op.run w).1.end? else none

/-- What came of the release and close calls of a history through handles that share an owner. -/
def releaseCalls (w : World) (i : Nat) : List Operation → List (Outcome Failure Reply)
  | [] => []
  | op :: rest => (w.releaseCall? i op).toList ++ releaseCalls (op.run w).2 i rest

/-- Whether the owner is there and was released. -/
def isReleased (w : World) (i : Nat) : Bool := (w.owners[i]?).any Owner.released

/-- Views have the part in the ownership that their derivation gives them: a duplicate that of its
source, a slice none. They keep it as long as they exist. -/
structure PassesOn (w : World) : Prop where
  duplicate : ∀ h j w', (Operation.duplicate h).run w = (.done (.handle (.view j)), w') →
    ∀ i, w'.shares i (.view j) = w.shares i h
  slice : ∀ h offset length j w',
    (Operation.slice h offset length).run w = (.done (.handle (.view j)), w') →
    ∃ v, w'.view? j = some v ∧ v.kind = .slice
  sliceUnread : ∀ h j w', (Operation.sliceUnread h).run w = (.done (.handle (.view j)), w') →
    ∃ v, w'.view? j = some v ∧ v.kind = .slice
  kept : ∀ j v history v', w.view? j = some v → (w.after history).view? j = some v' →
    v'.root = v.root ∧ v'.kind = v.kind

end World

/-- The deed releases this owner. -/
def Deed.releases (i : Nat) : Deed → Bool
  | release j | releaseShared j => decide (j = i)
  | _ => false

namespace World

variable {w w' : World} {h : Handle} {i j : Nat} {o o' : Owner} {v : View} {deeds : List Deed}

/-! ## The flag of an owner -/

theorem isReleased_of_owner (ho : w.owner? i = some o) : w.isReleased i = o.released := by
  simp [isReleased, (owner?_eq_some_iff.1 ho).1]

theorem isReleased_setOwner (ho : w.owner? i = some o) (o' : Owner) :
    (w.setOwner i o').isReleased j = if i = j then o'.released else w.isReleased j := by
  have hlt := (List.getElem?_eq_some_iff.1 (owner?_eq_some_iff.1 ho).1).1
  simp only [isReleased, setOwner, List.getElem?_set, hlt, if_true]
  split <;> rfl

theorem isReleased_amended (o : Owner) (f : Detector → Nat → Detector) :
    (w.amended o f).isReleased j = w.isReleased j := by
  rcases amended_cases w o f with he | ⟨detector, he⟩ <;> rw [he]
  rfl

theorem isReleased_onDetector {d : Nat} {f : Detector → World}
    (hf : ∀ detector, (f detector).isReleased j = w.isReleased j) :
    (w.onDetector d f).isReleased j = w.isReleased j := by
  rcases onDetector_cases w d f with he | ⟨detector, he⟩ <;> rw [he]
  exact hf detector

/-- An owner changes along with its record. -/
theorem isReleased_amended_setOwner (ho : w.owner? i = some o) (f : Detector → Nat → Detector)
    (o' : Owner) :
    ((w.amended o f).setOwner i o').isReleased j =
      if i = j then o'.released else w.isReleased j := by
  rw [isReleased_setOwner ((owner?_amended o f).trans ho), isReleased_amended]

/-- **A deed sets the flag of the owner that it releases**, and no other flag. -/
theorem isReleased_enact {deed : Deed} (hd : deed.Allowed w) (j : Nat) :
    (deed.enact w).isReleased j = (w.isReleased j || deed.releases j) := by
  have hsame : ∀ {k : Nat} {u u' : Owner}, w.owner? k = some u → u'.released = u.released →
      (if k = j then u'.released else w.isReleased j) = w.isReleased j := by
    intro k u u' hu hr
    split
    · next hkj => rw [hr, ← hkj, isReleased_of_owner hu]
    · rfl
  cases deed with
  | allocate d capacity =>
    simp only [Deed.enact, Deed.releases, Bool.or_false, allocated]
    refine isReleased_onDetector fun detector => ?_
    simp only [isReleased, List.getElem?_append]
    split
    · rfl
    · next hge =>
      rw [List.getElem?_eq_none (Nat.le_of_not_lt hge)]
      cases j - w.owners.length <;> simp
  | resize i capacity =>
    obtain ⟨o, ho, -⟩ := hd
    simp only [Deed.enact, Deed.releases, Bool.or_false, resized]
    rw [onOwner_of_some ho]
    exact (isReleased_amended_setOwner ho _ (o.resized capacity)).trans (hsame ho rfl)
  | release i =>
    obtain ⟨o, ho, -⟩ := hd
    simp only [Deed.enact, Deed.releases, released]
    rw [onOwner_of_some ho, isReleased_amended_setOwner ho]
    by_cases hij : i = j <;> simp [hij, Owner.returned]
  | releaseShared i =>
    obtain ⟨o, ho⟩ := hd
    simp only [Deed.enact, Deed.releases, releasedShared]
    rw [onOwner_of_some ho, isReleased_setOwner ho]
    by_cases hij : i = j <;> simp [hij]
  | drop i =>
    obtain ⟨o, ho, -⟩ := hd
    simp only [Deed.enact, Deed.releases, Bool.or_false, dropped]
    rw [onOwner_of_some ho]
    exact (isReleased_amended_setOwner ho _ o.gone).trans (hsame ho rfl)
  | sweep d | settle d | configure d settings =>
    simp only [Deed.releases, Bool.or_false]
    exact isReleased_onDetector fun _ => rfl

theorem Alike.isReleased (ha : w.Alike w') (j : Nat) : w'.isReleased j = w.isReleased j := by
  have hread : ∀ w : World,
      w.isReleased j = ((w.owners.map Owner.title)[j]?).any Owner.released := fun w => by
    rw [World.isReleased, List.getElem?_map]
    cases w.owners[j]? <;> rfl
  rw [hread, hread, ha.owners]

theorem Enacts.isReleased (he : w.Enacts deeds w') (j : Nat) :
    w'.isReleased j = (w.isReleased j || deeds.any (Deed.releases j)) := by
  induction he with
  | alike ha => simp [ha.isReleased]
  | deed d hd _ ih => rw [ih, isReleased_enact hd, List.any_cons, Bool.or_assoc]

/-! ## Release and close calls -/

theorem Sound.first_release (hw : w.Sound) (ho : w.owner? i = some o) :
    (!o.released && o.block.isSome) = !o.released := by
  cases hr : o.released with
  | true => rfl
  | false =>
    cases hb : o.block with
    | some b => rfl
    | none => exact absurd ((hw.owner i o ho).gone hb) (by simp [hr])

/-- An owner that is gone or has views cannot be released. -/
theorem releaseOwner_of_held (hheld : ¬w.Unheld (.owner i)) :
    releaseOwner i w = (.trapped .misuse, w) := by
  cases hviews : w.hasViews i with
  | true => exact Action.bind_trapped (withoutViews_of_some hviews)
  | false =>
    have hnone : w.owner? i = none :=
      Option.not_isSome_iff_eq_none.1 fun hsome => hheld ⟨hsome, hviews⟩
    refine (Action.bind_done (withoutViews_of_none hviews)).trans (Action.bind_trapped ?_)
    simp only [ownerAt, Action.state_bind_apply, hnone]
    rfl

/-- The view of a handle that shares an owner. -/
theorem view_of_shares (hs : w.shares i (.view j) = true) :
    ∃ v, w.view? j = some v ∧ v.root = i ∧ v.kind = .duplicate := by
  simpa [shares, Option.any_eq_true] using hs

/-- A duplicate leaves block and record to the owner. -/
theorem Sound.run_release_duplicate (hw : w.Sound) (hs : w.shares i (.view j) = true) :
    ∃ o, w.owner? i = some o ∧ (Operation.release (.view j)).run w =
      (.done (.answer (.flag (!o.released))), w.setOwner i { o with released := true }) := by
  obtain ⟨v, hv, rfl, hk⟩ := view_of_shares hs
  obtain ⟨o, ho, -⟩ := hw.derived (.view j) v hv
  have hview : release (.view j) w = releaseShared v.root w := by
    refine (Action.bind_done (viewAt_of_some hv)).trans ?_
    rw [hk]
  refine ⟨o, ho, Action.bind_done (hview.trans ?_)⟩
  rw [releaseShared_apply ho, hw.first_release ho, releasedShared, onOwner_of_some ho]

/-- **A release through an owner or a duplicate answers whether it is the first**, if nothing holds the
handle back. -/
theorem Sound.run_release (hw : w.Sound) (hs : w.shares i h = true) (hfree : w.Unheld h) :
    ∃ o, w.owner? i = some o ∧
      ((Operation.release h).run w).1 = .done (.answer (.flag (!o.released))) := by
  cases h with
  | owner j =>
    obtain rfl : j = i := by simpa [shares] using hs
    obtain ⟨o, ho⟩ := Option.isSome_iff_exists.1 hfree.1
    have hrun := releaseOwner_apply hw ho hfree.2
    rw [hw.first_release ho] at hrun
    exact ⟨o, ho, congrArg Prod.fst (Action.bind_done hrun)⟩
  | view j =>
    obtain ⟨o, ho, hrun⟩ := hw.run_release_duplicate hs
    exact ⟨o, ho, congrArg Prod.fst hrun⟩
  | record j => cases hs

/-- A close through an owner or a duplicate succeeds, if nothing holds the handle back. -/
theorem Sound.run_close (hw : w.Sound) (hs : w.shares i h = true) (hfree : w.Unheld h) :
    ∃ o, w.owner? i = some o ∧ ((Operation.close h).run w).1 = .done .unit := by
  cases h with
  | owner j =>
    obtain rfl : j = i := by simpa [shares] using hs
    obtain ⟨o, ho⟩ := Option.isSome_iff_exists.1 hfree.1
    have hrun := releaseOwner_apply hw ho hfree.2
    have hreleased : (w.released j).Sound := hw.enact (d := .release j) ⟨o, ho, hfree.2⟩
    obtain ⟨_, w', hdrop, -⟩ :=
      dropOwner_succeeds hreleased (allowed_drop_released ho hfree.2)
    have hclose : close (.owner j) w = (.done (), w') := (Action.bind_done hrun).trans hdrop
    exact ⟨o, ho, congrArg Prod.fst (Action.bind_done hclose)⟩
  | view j =>
    obtain ⟨v, hv, rfl, hk⟩ := view_of_shares hs
    obtain ⟨o, ho, -⟩ := hw.derived (.view j) v hv
    have hview : close (.view j) w = (releaseShared v.root >>= fun _ => drop (.view j)) w := by
      refine (Action.bind_done (viewAt_of_some hv)).trans ?_
      rw [hk]
    have hv' : (w.releasedShared v.root).view? j = some v := by
      rw [releasedShared, onOwner_of_some ho]
      exact hv
    have hdrop : drop (.view j) (w.releasedShared v.root) =
        (.done (), (w.releasedShared v.root).setView j none) :=
      Action.bind_done (viewAt_of_some hv')
    have hclose := hview.trans ((Action.bind_done (releaseShared_apply ho)).trans hdrop)
    exact ⟨o, ho, congrArg Prod.fst (Action.bind_done hclose)⟩
  | record j => cases hs

/-- An owner that is held back is neither released nor closed. -/
theorem run_of_held (hheld : ¬w.Unheld h) :
    (Operation.release h).run w = (.trapped .misuse, w) ∧
      (Operation.close h).run w = (.trapped .misuse, w) := by
  cases h with
  | owner j =>
    have hrun := releaseOwner_of_held hheld
    exact ⟨Action.bind_trapped hrun, Action.bind_trapped (Action.bind_trapped hrun)⟩
  | view j | record j => exact absurd trivial hheld

theorem run_release_slice (hv : w.view? j = some v) (hk : v.kind = .slice) :
    (Operation.release (.view j)).run w = (.done (.answer (.flag false)), w) := by
  refine Action.bind_done ((Action.bind_done (viewAt_of_some hv)).trans ?_)
  rw [hk]
  rfl

/-! ## What one operation does to the flag -/

theorem any_releaseDeeds (w : World) (h : Handle) (i : Nat) :
    (w.releaseDeeds h).any (Deed.releases i) = w.shares i h := by
  cases h with
  | owner j => simp [releaseDeeds, Deed.releases, shares]
  | view j =>
    simp only [releaseDeeds, shares]
    rcases w.view? j with _ | v
    · rfl
    · cases hk : v.kind <;> simp [hk, Deed.releases]
  | record j => rfl

/-- Only release and close calls release, and only what their handle has a part in. -/
theorem any_deeds (op : Operation) (w : World) (i : Nat) :
    (op.deeds w).any (Deed.releases i) = op.given?.any (w.shares i) := by
  have hcopy : ∀ h length, (w.copyDeeds h length).any (Deed.releases i) = false := by
    intro h length
    simp only [copyDeeds]
    split <;> rfl
  have hunread : ∀ h, (w.copyUnreadDeeds h).any (Deed.releases i) = false := by
    intro h
    simp only [copyUnreadDeeds]
    split
    · rfl
    · exact hcopy h _
  cases op with
  | release h => exact any_releaseDeeds w h i
  | close h =>
    cases h with
    | owner j => simp [Operation.deeds, Operation.given?, closeDeeds, Deed.releases, shares]
    | view j => exact any_releaseDeeds w (.view j) i
    | record j => rfl
  | drop h => cases h <;> rfl
  | copy h offset length => exact hcopy h length
  | copyUnread h => exact hunread h
  | keep j header => exact hunread (.owner j)
  | _ => rfl

theorem any_failedDeeds (op : Operation) (i : Nat) :
    op.failedDeeds.any (Deed.releases i) = false := by
  cases op <;> rfl

/-- **A release call answers whether the flag was set, and sets it. Nothing else does.** -/
theorem Sound.releaseCall (hw : w.Sound) (i : Nat) (op : Operation) :
    (w.releaseCall? i op = none ∧ (op.run w).2.isReleased i = w.isReleased i) ∨
    ((w.releaseCall? i op = some (.done (.answer (.flag (!w.isReleased i)))) ∨
      w.releaseCall? i op = some (.done .unit)) ∧ (op.run w).2.isReleased i = true) := by
  have hflag := (hw.run op).enacts.isReleased i
  -- a call through a handle that shares the owner comes to one of these ends
  have hcall : ∀ h, op.given? = some h → w.shares i h = true →
      (∃ o, w.owner? i = some o ∧ ((op.run w).1 = .done (.answer (.flag (!o.released))) ∨
        (op.run w).1 = .done .unit)) ∨ op.run w = (.trapped .misuse, w) := by
    intro h hgiven hs
    by_cases hfree : w.Unheld h
    · refine .inl ?_
      cases op with
      | release h =>
        cases hgiven
        obtain ⟨o, ho, hrun⟩ := hw.run_release hs hfree
        exact ⟨o, ho, .inl hrun⟩
      | close h =>
        cases hgiven
        obtain ⟨o, ho, hrun⟩ := hw.run_close hs hfree
        exact ⟨o, ho, .inr hrun⟩
      | _ => cases hgiven
    · refine .inr ?_
      cases op with
      | release h =>
        cases hgiven
        exact (run_of_held hfree).1
      | close h =>
        cases hgiven
        exact (run_of_held hfree).2
      | _ => cases hgiven
  by_cases hs : op.given?.any (w.shares i) = true
  · obtain ⟨h, hgiven, hs⟩ := (Option.any_eq_true ..).1 hs
    have hends : w.releaseCall? i op = (op.run w).1.end? := by
      simp only [releaseCall?, hgiven, hs, if_true]
    rcases hcall h hgiven hs with ⟨o, ho, hrun⟩ | hrun
    · refine .inr ⟨?_, ?_⟩
      · rw [hends, isReleased_of_owner ho]
        rcases hrun with hrun | hrun <;> rw [hrun]
        · exact .inl rfl
        · exact .inr rfl
      · have henacted : op.enacted w = op.deeds w := by
          rcases hrun with hrun | hrun <;> simp only [Operation.enacted, hrun]
        rw [hflag, henacted, any_deeds, hgiven, Option.any_some, hs, Bool.or_true]
    · refine .inl ⟨?_, by rw [hrun]⟩
      rw [hends, hrun]
      rfl
  · have hs : op.given?.any (w.shares i) = false := by simpa using hs
    refine .inl ⟨?_, ?_⟩
    · cases hgiven : op.given? with
      | none => simp only [releaseCall?, hgiven]
      | some h =>
        rw [hgiven, Option.any_some] at hs
        simp [releaseCall?, hgiven, hs]
    · have henacted : (op.enacted w).any (Deed.releases i) = false := by
        simp only [Operation.enacted]
        split
        · rw [any_deeds, hs]
        · exact any_failedDeeds op i
        · rfl
      rw [hflag, henacted, Bool.or_false]

/-! ## What a history does to the flag -/

/-- The flag is set iff it was, or there was a call. -/
theorem Sound.isReleased_after (hw : w.Sound) (i : Nat) (history : List Operation) :
    (w.after history).isReleased i = true ↔
      w.isReleased i = true ∨ w.releaseCalls i history ≠ [] := by
  induction history generalizing w with
  | nil => simp [releaseCalls]
  | cons op rest ih =>
    rw [after_cons, ih (hw.run op).sound]
    rcases hw.releaseCall i op with ⟨hnone, hsame⟩ | ⟨hcall | hcall, hset⟩
    · simp [releaseCalls, hnone, hsame]
    · simp [releaseCalls, hcall, hset]
    · simp [releaseCalls, hcall, hset]

/-- Behind a release, no call is the first. -/
theorem Sound.late_answers (hw : w.Sound) (hr : w.isReleased i = true)
    (history : List Operation) : ∀ call ∈ w.releaseCalls i history,
      call = .done (.answer (.flag false)) ∨ call = .done .unit := by
  induction history generalizing w with
  | nil => exact nofun
  | cons op rest ih =>
    intro call hmem
    have hw' := (hw.run op).sound
    rcases hw.releaseCall i op with ⟨hnone, hsame⟩ | ⟨hcall, hset⟩
    · rw [releaseCalls, hnone] at hmem
      exact ih hw' (hsame.trans hr) call hmem
    · rcases List.mem_append.1 hmem with hhead | htail
      · rw [hr] at hcall
        rcases hcall with hcall | hcall <;> rw [hcall] at hhead
        · exact .inl (List.mem_singleton.1 hhead)
        · exact .inr (List.mem_singleton.1 hhead)
      · exact ih hw' hset call htail

/-- **The first call is the one**, and no other. -/
theorem Sound.answers (hw : w.Sound) (hr : w.isReleased i = false) (history : List Operation)
    {first : Outcome Failure Reply} {rest : List (Outcome Failure Reply)}
    (hcalls : w.releaseCalls i history = first :: rest) :
    (first = .done (.answer (.flag true)) ∨ first = .done .unit) ∧
      ∀ call ∈ rest, call = .done (.answer (.flag false)) ∨ call = .done .unit := by
  induction history generalizing w with
  | nil => cases hcalls
  | cons op history ih =>
    have hw' := (hw.run op).sound
    rcases hw.releaseCall i op with ⟨hnone, hsame⟩ | ⟨hcall, hset⟩
    · rw [releaseCalls, hnone] at hcalls
      exact ih hw' (hsame.trans hr) hcalls
    · rw [hr] at hcall
      have hrest := hw'.late_answers hset history
      rcases hcall with hcall | hcall <;>
        (rw [releaseCalls, hcall] at hcalls
         obtain ⟨rfl, rfl⟩ := List.cons.inj hcalls)
      · exact ⟨.inl rfl, hrest⟩
      · exact ⟨.inr rfl, hrest⟩

/-! ## Derivation -/

theorem shares_basis (hv : w.basis? h = some v) (i : Nat) :
    (decide (v.root = i) && decide (v.kind = .duplicate)) = w.shares i h := by
  cases h with
  | owner j =>
    obtain ⟨o, -, rfl⟩ := Option.map_eq_some_iff.1 hv
    simp [shares]
  | view j =>
    have hv : w.view? j = some v := hv
    rw [shares, hv, Option.any_some]
  | record j => cases hv

theorem Sound.passesOn (hw : w.Sound) : w.PassesOn where
  duplicate h j w' hrun i := by
    obtain ⟨v, hv, rfl, rfl⟩ := made_of_run (duplicate_makes h) hrun
    rw [shares, view?_append, Option.any_some]
    exact shares_basis hv i
  slice h offset length j w' hrun := by
    obtain ⟨_, ⟨⟨u, -, rfl⟩, -⟩, rfl, rfl⟩ := made_of_run (slice_makes hw h offset length) hrun
    exact ⟨_, view?_append w _, rfl⟩
  sliceUnread h j w' hrun := by
    obtain ⟨_, _, -, ⟨⟨u, -, rfl⟩, -⟩, rfl, rfl⟩ := made_of_run (sliceUnread_makes hw h) hrun
    exact ⟨_, view?_append w _, rfl⟩
  kept j v history v' hv hv' := by
    have hages := (hw.later_after history).derived (h := .view j) hv hv'
    exact ⟨hages.root, hages.kind⟩

/-! ## Behind the release -/

theorem isReleased_iff_freed : w.isReleased i = true ↔ w.Freed i := by
  simp only [isReleased, Freed, Option.any_eq_true]

/-- A release by the owner, behind that of a duplicate, still returns block and record. -/
theorem Sound.run_release_again (hw : w.Sound) (ht : w.Tracks) (ho : w.owner? i = some o)
    (hr : o.released = true) (hnone : w.hasViews i = false) :
    ∃ w', (Operation.release (.owner i)).run w = (.done (.answer (.flag false)), w') ∧
      w'.owner? i = some { o with block := none, tracker := none } ∧
      ∀ n, o.tracker = some n → ∃ detector, w.detectors[o.detector]? = some detector ∧
        detector.Holds n ∧ w'.detectors[o.detector]? = some (detector.forget n) := by
  refine ⟨w.released i, ?_, ?_, ?_⟩
  · have hrun := releaseOwner_apply hw ho hnone
    rw [hw.first_release ho, hr] at hrun
    exact Action.bind_done hrun
  · rw [owner?_released ho, Owner.returned, ← hr]
  · intro n hn
    obtain ⟨detector, hd, hrecords⟩ := ht.record i o n ho hn
    refine ⟨detector, hd, hrecords.holds, ?_⟩
    have hlt := (List.getElem?_eq_some_iff.1 hd).1
    rw [released, onOwner_of_some ho, World.amended, hn]
    simp only [onDetector_of_some hd]
    exact List.getElem?_set_self hlt

/-- **When a release or close returns.** At any time, take the owner or one of its duplicates. If nothing
holds the handle back, a release answers whether the flag of the owner is unset, and a close succeeds.
Otherwise either call is a misuse of the handle. A duplicate is never held back, and an owner is only if
it is gone or has views. -/
theorem release_returns (settings : List LeakSettings) (history : List Operation) (i : Nat) :
    let w := (start settings).after history
    ∀ h, w.shares i h = true →
      let release := (Operation.release h).run w
      let close := (Operation.close h).run w
      (w.Unheld h → release.1 = .done (.answer (.flag (!w.isReleased i))) ∧ close.1 = .done .unit) ∧
      (¬w.Unheld h → release = (.trapped .misuse, w) ∧ close = (.trapped .misuse, w)) ∧
      (w.Unheld h ↔ ∀ j, h = .owner j → (∃ o, w.owner? j = some o) ∧ w.hasViews j = false) := by
  intro w h hs release close
  have hw : w.Sound := (sound_start settings).after history
  refine ⟨fun hfree => ⟨?_, ?_⟩, run_of_held, ?_⟩
  · obtain ⟨o, ho, hrun⟩ := hw.run_release hs hfree
    rw [isReleased_of_owner ho]
    exact hrun
  · obtain ⟨o, -, hrun⟩ := hw.run_close hs hfree
    exact hrun
  · cases h with
    | owner j =>
      simp only [Unheld, Option.isSome_iff_exists, Handle.owner.injEq, forall_eq']
    | view j =>
      refine iff_of_true trivial fun j heq => ?_
      cases heq
    | record j => cases hs

/-- **Memory is released once**, whatever happens in between.

The flag of an owner is set iff there was a release or close call through the owner or a duplicate,
and once set it stays set. If the first of these calls is a release, it answers `true`; later ones
answer `false`. Through a slice, a release answers `false` and changes nothing, and a close fails and
only gives the slice up. A duplicate leaves block and record to the owner, whose release answers
`false` then, but returns the block and has the detector forget the record. -/
theorem released_once (settings : List LeakSettings) (history : List Operation) (i : Nat) :
    let w := (start settings).after history
    let calls := (start settings).releaseCalls i history
    (w.isReleased i = true ↔ calls ≠ []) ∧
    (w.isReleased i = true → ∀ more, (w.after more).isReleased i = true) ∧
    (∀ first rest, calls = first :: rest →
      (first = .done (.answer (.flag true)) ∨ first = .done .unit) ∧
      ∀ call ∈ rest, call = .done (.answer (.flag false)) ∨ call = .done .unit) ∧
    (∀ j v, w.view? j = some v → v.kind = .slice →
      (Operation.release (.view j)).run w = (.done (.answer (.flag false)), w) ∧
      (Operation.close (.view j)).run w =
        (.failed (.illegalState .sliceClosed), w.setView j none)) ∧
    (∀ j, w.shares i (.view j) = true → ∃ o, w.owner? i = some o ∧
      (Operation.release (.view j)).run w =
        (.done (.answer (.flag (!o.released))), w.setOwner i { o with released := true })) ∧
    (∀ o, w.owner? i = some o → o.released = true → w.hasViews i = false →
      ∃ w', (Operation.release (.owner i)).run w = (.done (.answer (.flag false)), w') ∧
        w'.owner? i = some { o with block := none, tracker := none } ∧
        ∀ n, o.tracker = some n → ∃ detector, w.detectors[o.detector]? = some detector ∧
          detector.Holds n ∧ w'.detectors[o.detector]? = some (detector.forget n)) ∧
    w.PassesOn := by
  intro w calls
  have hstart := sound_start settings
  have hw : w.Sound := hstart.after history
  have hbefore : (start settings).isReleased i = false := rfl
  refine ⟨?_, ?_, ?_, ?_, fun j => hw.run_release_duplicate, ?_, hw.passesOn⟩
  · have hiff := hstart.isReleased_after i history
    rwa [hbefore, Bool.false_eq_true, false_or] at hiff
  · intro hr more
    rw [isReleased_iff_freed] at hr ⊢
    exact (hw.later_after more).freed i hr
  · intro first rest hcalls
    exact hstart.answers hbefore history hcalls
  · intro j v hv hk
    exact ⟨run_release_slice hv hk, Operation.run_close_slice hv hk⟩
  · intro o ho hr hnone
    exact hw.run_release_again (tracks_after settings history) ho hr hnone

/-- A duplicate of a slice has no part in the ownership, the duplicate of the owner has. What the
owner releases behind it is its record. -/
theorem released_once_duplicate :
    let history : List Operation := [.allocate 0 8, .duplicate (.owner 0), .slice (.view 0) 2 4,
      .duplicate (.view 1), .release (.view 2), .close (.view 2), .release (.view 0),
      .drop (.view 0), .drop (.view 1)]
    let w := (start [⟨true, false, .log⟩]).after history
    w.isReleased 0 = true ∧ (w.detectors.map Detector.outstanding) = [1] ∧
      ∃ w', (Operation.release (.owner 0)).run w = (.done (.answer (.flag false)), w') ∧
        (w'.owner? 0).map Owner.block = some none ∧ w'.detectors.map Detector.outstanding = [0] := by
  intro history w
  obtain ⟨hflag, -, -, -, -, howner, -⟩ := released_once [⟨true, false, .log⟩] history 0
  refine ⟨hflag.2 (by decide), by decide, ?_⟩
  obtain ⟨w', hrun, ho, -⟩ := howner _ (by rfl) (by rfl) (by decide)
  have hrecords : ((Operation.release (.owner 0)).run w).2.detectors.map Detector.outstanding =
      [0] := by decide
  rw [hrun] at hrecords
  exact ⟨w', hrun, by rw [ho]; rfl, hrecords⟩

end World

end PacketMemory
