import PacketMemory.World.Basic

/-!
# The world: what storing does

A handle stands for an entry of a table, and `World.store` puts what became of its pane back
into it. Main statement: putting back what was there changes nothing (`store_self`), so a task
that leaves its pane alone, such as one that is refused before its first effect, leaves the
whole world alone (`through_of_kept`).
-/

namespace PacketMemory

namespace World

/-! ## Look-up -/

theorem owner?_eq_some_iff {w : World} {i : Nat} {o : Owner} :
    w.owner? i = some o ↔ w.owners[i]? = some o ∧ o.inUse = true := by
  simp [owner?, Option.filter_eq_some_iff]

theorem view?_eq_some_iff {w : World} {i : Nat} {v : View} :
    w.view? i = some v ↔ w.views[i]? = some (some v) := Option.join_eq_some_iff

theorem record?_eq_some_iff {w : World} {i : Nat} {v : View} :
    w.record? i = some v ↔ w.records[i]? = some (some v) := Option.join_eq_some_iff

theorem viewPane?_eq_some_iff {w : World} {v : View} {p : Pane} :
    w.viewPane? v = some p ↔ ∃ o, w.owner? v.root = some o ∧ v.pane o = p :=
  Option.map_eq_some_iff

/-! ## Storing what is there -/

theorem setOwner_self {w : World} {i : Nat} {o : Owner} (h : w.owner? i = some o) :
    w.setOwner i o = w := by
  obtain ⟨hlt, rfl⟩ := List.getElem?_eq_some_iff.1 (owner?_eq_some_iff.1 h).1
  rw [setOwner, List.set_getElem_self]

theorem setBlock_self {w : World} {i : Nat} {o : Owner} (h : w.owner? i = some o) :
    w.setBlock i o.block = w := by
  rw [setBlock, h]
  exact setOwner_self h

theorem setView_self {w : World} {i : Nat} {v : View} (h : w.view? i = some v) :
    w.setView i (some v) = w := by
  obtain ⟨hlt, he⟩ := List.getElem?_eq_some_iff.1 (view?_eq_some_iff.1 h)
  rw [setView, ← he, List.set_getElem_self]

theorem setRecord_self {w : World} {i : Nat} {v : View} (h : w.record? i = some v) :
    w.setRecord i (some v) = w := by
  obtain ⟨hlt, he⟩ := List.getElem?_eq_some_iff.1 (record?_eq_some_iff.1 h)
  rw [setRecord, ← he, List.set_getElem_self]

/-- Storing what a handle sees changes nothing. -/
theorem store_self {w : World} {h : Handle} {p : Pane} (hp : w.pane? h = some p) :
    w.store h p = w := by
  cases h with
  | owner i =>
    obtain ⟨o, ho, rfl⟩ := Option.map_eq_some_iff.1 hp
    rw [store, ho]
    exact setOwner_self ho
  | view i =>
    obtain ⟨v, hv, hp⟩ := Option.bind_eq_some_iff.1 hp
    obtain ⟨o, ho, rfl⟩ := viewPane?_eq_some_iff.1 hp
    have hv : w.view? i = some v := hv
    rw [store, hv]
    exact (congrArg (fun w => w.setView i (some v)) (setBlock_self ho)).trans (setView_self hv)
  | record i =>
    obtain ⟨v, hv, hp⟩ := Option.bind_eq_some_iff.1 hp
    obtain ⟨o, ho, rfl⟩ := viewPane?_eq_some_iff.1 hp
    have hv : w.record? i = some v := hv
    rw [store, hv]
    exact (congrArg (fun w => w.setRecord i (some v)) (setBlock_self ho)).trans
      (setRecord_self hv)

/-- A task that leaves the pane of a handle alone leaves the world alone. -/
theorem through_of_kept {α : Type} {w : World} {h : Handle} {p : Pane} {m : Pane.Task α}
    (hp : w.pane? h = some p) (hm : (m p).2 = p) : through h m w = ((m p).1, w) := by
  unfold through
  rw [hp]
  simp only [hm, store_self hp]

end World

end PacketMemory
