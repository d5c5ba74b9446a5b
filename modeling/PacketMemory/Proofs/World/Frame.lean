import PacketMemory.Proofs.Pane.Footprint
import PacketMemory.Proofs.Pane.Parts
import PacketMemory.Proofs.World.Run

/-!
# What an operation leaves alone

A `Scope` says what may change: parts of handles, bytes at some places of some owners. The worlds `w`
and `w'` are related by `World.ChangesOnly` if nothing else did. For a fixed scope this is a preorder,
so it goes along a sequence of steps (`ChangesOnly.bind`), and new owners, views and records are in
nobody's way.

Main statements: work on what a handle sees changes only parts that it moves and bytes that it writes
(`ChangesOnly.through`), and of the changes that releases, resizing and casts make, only those to the
owner behind the handle.
-/

namespace PacketMemory

/-- Only bytes at these places differ. A block that was returned has no bytes any more. -/
def Block.ChangesOnly (places : Nat → Prop) (b b' : Option Block) : Prop :=
  ∀ d', b' = some d' → ∃ d, b = some d ∧ ∀ i, d'[i]? ≠ d[i]? → places i

/-- What may change. -/
structure Scope where
  /-- parts of a handle -/
  moves : Handle → List Part
  /-- handles that may go away -/
  givesUp : List Handle
  /-- owners of which anything may change but other bytes -/
  reaches : Nat → Prop
  /-- places of an owner's block -/
  writes : Nat → Nat → Prop

/-- Nothing changed but what is in the scope. -/
structure World.ChangesOnly (s : Scope) (w w' : World) : Prop where
  handle : ∀ k p, w.pane? k = some p → k ∉ s.givesUp →
    ∃ p', w'.pane? k = some p' ∧ w'.root? k = w.root? k ∧
      Part.others (s.moves k) p' = Part.others (s.moves k) p
  owner : ∀ (r : Nat) (o : Owner), w.owners[r]? = some o →
    ∃ o', w'.owners[r]? = some o' ∧ (¬s.reaches r → o' = o) ∧
      Block.ChangesOnly (s.writes r) o.block o'.block

namespace Block

variable {places : Nat → Prop} {b b' b'' : Option Block}

theorem ChangesOnly.refl (b : Option Block) : ChangesOnly places b b :=
  fun c hc => ⟨c, hc, fun _ hi => absurd rfl hi⟩

theorem ChangesOnly.trans (h : ChangesOnly places b b') (h' : ChangesOnly places b' b'') :
    ChangesOnly places b b'' := by
  intro c'' hc''
  obtain ⟨c', hc', hchanges'⟩ := h' c'' hc''
  obtain ⟨c, hc, hchanges⟩ := h c' hc'
  refine ⟨c, hc, fun i hi => ?_⟩
  by_cases hlast : c''[i]? = c'[i]?
  · exact hchanges i (hlast ▸ hi)
  · exact hchanges' i hlast

theorem changesOnly_none (places : Nat → Prop) (b : Option Block) : ChangesOnly places b none :=
  nofun

end Block

/-- What a pane writes, at the places that it writes. -/
theorem Pane.Writes.changesOnly {p p' : Pane} {ranges : Ranges} {places : Nat → Prop}
    (h : p.Writes ranges p') (hplaces : ∀ i, p.InRanges ranges i → places i) :
    Block.ChangesOnly places p.block p'.block := by
  intro b' hb'
  obtain ⟨b, hb, -⟩ := Option.map_eq_some_iff.1 (h.size.symm.trans (congrArg (Option.map _) hb'))
  exact ⟨b, hb, fun i hi => hplaces i (h.inRanges b b' hb hb' i hi)⟩

namespace World

variable {α β : Type} {s : Scope} {w w' w'' : World} {h k : Handle} {i r : Nat} {o o' : Owner}
variable {v : View} {p p' : Pane}

/-! ## The preorder -/

theorem ChangesOnly.refl (s : Scope) (w : World) : w.ChangesOnly s w :=
  ⟨fun _ p hp _ => ⟨p, hp, rfl, rfl⟩, fun _ o ho => ⟨o, ho, fun _ => rfl, .refl _⟩⟩

theorem ChangesOnly.trans (h : w.ChangesOnly s w') (h' : w'.ChangesOnly s w'') :
    w.ChangesOnly s w'' := by
  refine ⟨fun k p hp hk => ?_, fun r o ho => ?_⟩
  · obtain ⟨p', hp', hroot, hparts⟩ := h.handle k p hp hk
    obtain ⟨p'', hp'', hroot', hparts'⟩ := h'.handle k p' hp' hk
    exact ⟨p'', hp'', hroot'.trans hroot, hparts'.trans hparts⟩
  · obtain ⟨o', ho', hsame, hbytes⟩ := h.owner r o ho
    obtain ⟨o'', ho'', hsame', hbytes'⟩ := h'.owner r o' ho'
    exact ⟨o'', ho'', fun hr => (hsame' hr).trans (hsame hr), hbytes.trans hbytes'⟩

/-! ## Changes of the tables -/

/-- Everything that exists stays, and perhaps there is more. -/
theorem ChangesOnly.of_kept (howners : ∀ (r : Nat) (o : Owner), w.owners[r]? = some o →
      w'.owners[r]? = some o)
    (hderived : ∀ k v, w.derived? k = some v → w'.derived? k = some v) : w.ChangesOnly s w' := by
  have howner : ∀ r o, w.owner? r = some o → w'.owner? r = some o := fun r o ho =>
    owner?_eq_some_iff.2 ⟨howners r o (owner?_eq_some_iff.1 ho).1, (owner?_eq_some_iff.1 ho).2⟩
  refine ⟨fun k p hp _ => ⟨p, ?_, ?_, rfl⟩, fun r o ho => ⟨o, howners r o ho, fun _ => rfl, .refl _⟩⟩
  · rcases pane?_eq_some_iff.1 hp with ⟨j, u, rfl, hu, rfl⟩ | ⟨x, u, hx, hu, rfl⟩
    · exact pane?_owner (howner j u hu)
    · exact pane?_derived (hderived k x hx) (howner _ u hu)
  · rcases pane?_eq_some_iff.1 hp with ⟨j, u, rfl, hu, rfl⟩ | ⟨x, u, hx, hu, rfl⟩
    · rw [root?_owner hu, root?_owner (howner j u hu)]
    · rw [root?_derived hx, root?_derived (hderived k x hx)]

/-- What detectors and observers know is no concern here. -/
theorem ChangesOnly.of_tables (howners : w'.owners = w.owners) (hviews : w'.views = w.views)
    (hrecords : w'.records = w.records) : w.ChangesOnly s w' := by
  refine .of_kept (fun r o ho => howners ▸ ho) fun k v hv => ?_
  cases k with
  | owner i => cases hv
  | view i =>
    unfold derived? view?
    rw [hviews]
    exact hv
  | record i =>
    unfold derived? record?
    rw [hrecords]
    exact hv

theorem ChangesOnly.addOwner (s : Scope) (w : World) (o : Owner) :
    w.ChangesOnly s { w with owners := w.owners ++ [o] } := by
  refine .of_kept (fun r u hu => ?_) fun k v hv => by cases k <;> exact hv
  exact (List.getElem?_append_left (List.getElem?_eq_some_iff.1 hu).1).trans hu

theorem ChangesOnly.addView (s : Scope) (w : World) (v : View) :
    w.ChangesOnly s { w with views := w.views ++ [some v] } :=
  .of_kept (fun _ _ ho => ho) fun _ _ hu => derived?_append hu v

theorem ChangesOnly.addRecord (s : Scope) (w : World) (v : View) :
    w.ChangesOnly s { w with records := w.records ++ [some v] } := by
  refine .of_kept (fun _ _ ho => ho) fun k u hu => ?_
  cases k with
  | owner i | view i => exact hu
  | record i =>
    have hget := record?_eq_some_iff.1 hu
    have hlt := (List.getElem?_eq_some_iff.1 hget).1
    exact record?_eq_some_iff.2 ((List.getElem?_append_left hlt).trans hget)

/-- An owner is replaced. Its views see the difference in its bytes only. -/
theorem ChangesOnly.setOwner (ho : w.owner? i = some o) (hreach : s.reaches i)
    (hbytes : Block.ChangesOnly (s.writes i) o.block o'.block)
    (hself : o'.inUse = true ∧
        Part.others (s.moves (.owner i)) o'.pane = Part.others (s.moves (.owner i)) o.pane ∨
      .owner i ∈ s.givesUp ∧ w.hasViews i = false) : w.ChangesOnly s (w.setOwner i o') := by
  refine ⟨fun k p hp hk => ?_, fun r u hu => ?_⟩
  · rcases pane?_eq_some_iff.1 hp with ⟨j, u, rfl, hu, rfl⟩ | ⟨x, u, hx, hu, rfl⟩
    · by_cases hij : j = i
      · subst hij
        obtain rfl : o = u := Option.some.inj (ho.symm.trans hu)
        rcases hself with ⟨hin, hparts⟩ | ⟨hgone, -⟩
        · have hu' := owner?_setOwner_self ho hin
          refine ⟨o'.pane, pane?_owner hu', ?_, hparts⟩
          rw [root?_owner hu, root?_owner hu']
        · exact absurd hgone hk
      · have hu' : (w.setOwner i o').owner? j = some u := (owner?_setOwner_ne hij).trans hu
        refine ⟨u.pane, pane?_owner hu', ?_, rfl⟩
        rw [root?_owner hu, root?_owner hu']
    · have hx' : (w.setOwner i o').derived? k = some x := derived?_setOwner.trans hx
      have hroot : (w.setOwner i o').root? k = w.root? k := by
        rw [root?_derived hx, root?_derived hx']
      by_cases hij : x.root = i
      · rcases hself with ⟨hin, -⟩ | ⟨-, hnone⟩
        · have hu' : (w.setOwner i o').owner? x.root = some o' := by
            rw [hij]
            exact owner?_setOwner_self ho hin
          refine ⟨x.pane o', pane?_derived hx' hu', hroot, ?_⟩
          exact Part.others_eq_iff.2 fun part _ => by cases part <;> rfl
        · exact absurd hij (root_ne_of_hasViews hnone hx)
      · have hu' : (w.setOwner i o').owner? x.root = some u := (owner?_setOwner_ne hij).trans hu
        exact ⟨x.pane u, pane?_derived hx' hu', hroot, rfl⟩
  · by_cases hri : i = r
    · subst hri
      obtain ⟨hlt, -⟩ := List.getElem?_eq_some_iff.1 hu
      obtain rfl : o = u := Option.some.inj ((owner?_eq_some_iff.1 ho).1.symm.trans hu)
      exact ⟨o', List.getElem?_set_self hlt, fun hr => absurd hreach hr, hbytes⟩
    · exact ⟨u, (List.getElem?_set_ne hri).trans hu, fun _ => rfl, .refl _⟩

/-- The bytes of an owner are replaced. -/
theorem ChangesOnly.setBlock (ho : w.owner? i = some o) (hreach : s.reaches i) {b : Option Block}
    (hbytes : Block.ChangesOnly (s.writes i) o.block b) : w.ChangesOnly s (w.setBlock i b) := by
  rw [setBlock_of_owner ho]
  refine .setOwner ho hreach hbytes (.inl ⟨(owner?_eq_some_iff.1 ho).2, ?_⟩)
  exact Part.others_block o.pane b

/-- A view or a record moves, or goes away. -/
theorem ChangesOnly.setDerived (hv : w.derived? h = some v) {u : Option View}
    (hu : h ∈ s.givesUp ∨ ∃ v', u = some v' ∧ v'.root = v.root ∧
      ∀ o, Part.others (s.moves h) (v'.pane o) = Part.others (s.moves h) (v.pane o)) :
    w.ChangesOnly s (w.setDerived h u) := by
  have howners : (w.setDerived h u).owners = w.owners := by cases h <;> rfl
  refine ⟨fun k p hp hk => ?_, fun r o ho => ⟨o, howners ▸ ho, fun _ => rfl, .refl _⟩⟩
  rcases pane?_eq_some_iff.1 hp with ⟨j, o, rfl, ho, rfl⟩ | ⟨x, o, hx, ho, rfl⟩
  · have ho' : (w.setDerived h u).owner? j = some o := (owner?_setDerived u).trans ho
    refine ⟨o.pane, pane?_owner ho', ?_, rfl⟩
    rw [root?_owner ho, root?_owner ho']
  · have ho' : (w.setDerived h u).owner? x.root = some o := (owner?_setDerived u).trans ho
    by_cases hkh : k = h
    · subst hkh
      obtain rfl : v = x := Option.some.inj (hv.symm.trans hx)
      rcases hu with hgone | ⟨v', rfl, hroot, hparts⟩
      · exact absurd hgone hk
      · have hv' := derived?_setDerived_self hv (some v')
        refine ⟨v'.pane o, pane?_derived hv' (hroot ▸ ho'), ?_, hparts o⟩
        rw [root?_derived hv, root?_derived hv', hroot]
    · have hx' := (derived?_setDerived_ne hkh u).trans hx
      refine ⟨x.pane o, pane?_derived hx' ho', ?_, rfl⟩
      rw [root?_derived hx, root?_derived hx']

theorem ChangesOnly.amended (s : Scope) (w : World) (o : Owner) (f : Detector → Nat → Detector) :
    w.ChangesOnly s (w.amended o f) := by
  rcases amended_cases w o f with he | ⟨detector, he⟩ <;> rw [he]
  · exact .refl s w
  · exact .of_tables rfl rfl rfl

/-- An owner is replaced along with its record. -/
theorem ChangesOnly.amended_setOwner (ho : w.owner? i = some o) (f : Detector → Nat → Detector)
    (hreach : s.reaches i) (hbytes : Block.ChangesOnly (s.writes i) o.block o'.block)
    (hself : o'.inUse = true ∧
        Part.others (s.moves (.owner i)) o'.pane = Part.others (s.moves (.owner i)) o.pane ∨
      .owner i ∈ s.givesUp ∧ w.hasViews i = false) :
    w.ChangesOnly s ((w.amended o f).setOwner i o') := by
  refine (ChangesOnly.amended s w o f).trans
    (.setOwner ((owner?_amended o f).trans ho) hreach hbytes ?_)
  rw [hasViews_amended]
  exact hself

/-- What is stored changes what the handle moves, and bytes of its owner. -/
theorem ChangesOnly.store (hp : w.pane? h = some p) (hreach : ∀ r, w.root? h = some r → s.reaches r)
    (hparts : Part.others (s.moves h) p' = Part.others (s.moves h) p)
    (hbytes : ∀ r, w.root? h = some r → Block.ChangesOnly (s.writes r) p.block p'.block) :
    w.ChangesOnly s (w.store h p') := by
  rcases pane?_eq_some_iff.1 hp with ⟨i, o, rfl, ho, rfl⟩ | ⟨v, o, hv, ho, rfl⟩
  · have hroot := root?_owner ho
    rw [store_owner ho]
    refine .setOwner ho (hreach i hroot) (hbytes i hroot) (.inl ⟨(owner?_eq_some_iff.1 ho).2, ?_⟩)
    refine Part.others_eq_iff.2 fun part hpart => ?_
    have hsame := Part.others_eq_iff.1 hparts part hpart
    cases part <;> first | rfl | exact hsame
  · have hroot := root?_derived hv
    rw [store_derived hv]
    refine (ChangesOnly.setBlock ho (hreach _ hroot) (hbytes _ hroot)).trans ?_
    refine .setDerived ((derived?_setBlock _).trans hv) (.inr ⟨_, rfl, rfl, fun u => ?_⟩)
    refine Part.others_eq_iff.2 fun part hpart => ?_
    have hsame := Part.others_eq_iff.1 hparts part hpart
    cases part <;> first | rfl | exact hsame

/-- Whatever becomes of a new owner concerns nothing that was there before. -/
theorem ChangesOnly.store_new (hc : w.ChangesOnly s w') (hnew : w.owners.length ≤ i) (p : Pane) :
    w.ChangesOnly s (w'.store (.owner i) p) := by
  rcases hi : w'.owner? i with _ | u
  · rw [World.store, hi]
    exact hc
  have hbefore : ∀ k q, w.pane? k = some q → ∃ r, w.root? k = some r ∧ r < i := by
    intro k q hq
    obtain ⟨r, o, hr, ho, -⟩ := root_of_pane hq
    have hlt := (List.getElem?_eq_some_iff.1 (owner?_eq_some_iff.1 ho).1).1
    exact ⟨r, hr, Nat.lt_of_lt_of_le hlt hnew⟩
  have hnewPane : w'.pane? (.owner i) = some u.pane := pane?_owner hi
  refine ⟨fun k q hq hk => ?_, fun r o ho => ?_⟩
  · obtain ⟨r, hr, hlt⟩ := hbefore k q hq
    obtain ⟨q', hq', hroot, hparts⟩ := hc.handle k q hq hk
    have hapart : w'.root? k ≠ some i := by
      rw [hroot, hr]
      exact fun e => Nat.ne_of_lt hlt (Option.some.inj e)
    have hne : k ≠ .owner i := by
      rintro rfl
      exact hapart (root?_owner hi)
    refine ⟨q', ?_, (root?_store hnewPane p).trans hroot, hparts⟩
    rw [pane?_store_of_ne hnewPane p hne hq', root?_owner hi, if_neg hapart]
  · obtain ⟨o', ho', hrest⟩ := hc.owner r o ho
    have hlt := (List.getElem?_eq_some_iff.1 ho).1
    refine ⟨o', ?_, hrest⟩
    rw [store_owner hi]
    exact (List.getElem?_set_ne (by omega)).trans ho'

/-! ## Sequences -/

theorem ChangesOnly.of_careful {T : Trap → Prop} {m : Task α} {Q : α → World → Prop}
    (hm : Action.Careful T m w Q) (hQ : ∀ a w', Q a w' → w.ChangesOnly s w') :
    w.ChangesOnly s (m w).2 :=
  hm.leads (.refl s w) hQ

theorem ChangesOnly.of_observes {T : Trap → Prop} {m : Task α} {R : α → Prop}
    (hm : Action.Observes T m w R) : w.ChangesOnly s (m w).2 := by
  rw [hm.state_eq]
  exact .refl s w

theorem ChangesOnly.bind {m : Task α} {f : α → Task β} (hm : w.ChangesOnly s (m w).2)
    (hf : ∀ a w', m w = (.done a, w') → w'.ChangesOnly s (f a w').2) :
    w.ChangesOnly s ((m >>= f) w).2 :=
  Action.leads_bind .trans hm hf

/-- What follows a look. -/
theorem ChangesOnly.look {T : Trap → Prop} {m : Task α} {R : α → Prop} {f : α → Task β}
    (hm : Action.Observes T m w R) (hf : ∀ a, R a → w.ChangesOnly s (f a w).2) :
    w.ChangesOnly s ((m >>= f) w).2 :=
  hm.leads_bind (.refl s w) hf

/-- Only the answer is changed. -/
theorem ChangesOnly.answer {m : Task α} (f : α → β) (hm : w.ChangesOnly s (m w).2) :
    w.ChangesOnly s ((m >>= fun a => pure (f a)) w).2 := by
  rw [Action.state_answer]
  exact hm

/-- **Work on what a handle sees** changes the parts that it does not keep, and bytes of the owner. -/
theorem ChangesOnly.through {m : Pane.Task α} (hreach : ∀ r, w.root? h = some r → s.reaches r)
    (hkeeps : Action.Keeps (Part.others (s.moves h)) m)
    (hbytes : ∀ r p, w.root? h = some r → w.pane? h = some p →
      Block.ChangesOnly (s.writes r) p.block (m p).2.block) :
    w.ChangesOnly s (World.through h m w).2 := by
  rcases hp : w.pane? h with _ | p
  · rw [through_of_none hp]
    exact .refl s w
  · rw [through_apply hp]
    exact .store hp hreach (hkeeps p) fun r hr => hbytes r p hr hp

/-- A move of the cursor. -/
theorem ChangesOnly.cursor {m : Action Cursor Failure α}
    (hreach : ∀ r, w.root? h = some r → s.reaches r)
    (hkeeps : Action.Keeps (Part.others (s.moves h)) (Pane.onCursor m)) :
    w.ChangesOnly s (World.through h (Pane.onCursor m) w).2 :=
  .through hreach hkeeps fun _ p _ _ => .refl p.block

end World

end PacketMemory
