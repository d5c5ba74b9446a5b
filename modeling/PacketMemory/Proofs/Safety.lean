import Mathlib.Algebra.Group.Nat.Defs
import PacketMemory.Proofs.World.Run

/-!
# Safety

What holds after any history that starts with nothing but detectors, whatever each of its
operations ended with:

* `Reachable.within_bounds` — the indices of every handle are in order, every view lies within its
  owner, and no unchecked sum, difference or assertion of any operation goes wrong.
* `Reachable.access_within_memory` — no raw access of any operation leaves the window of its handle
  or the block, or finds the block gone.

Both come from `Sound`, the invariant behind them, and from what operations do in sound worlds
(`Operation.run_stays`).
-/

namespace PacketMemory

namespace Pane

/-- The bytes of a range lie in the window, and in a block that is present. -/
def Covers (p : Pane) (index length : Nat) : Prop :=
  index + length ≤ p.capacity ∧ ∃ b, p.block = some b ∧ p.offset + index + length ≤ b.length

variable {p : Pane} {index length : Nat} {bytes : List UInt8}

theorem fetch_of_not_covers (h : ¬p.Covers index length) :
    fetch index length p = (.trapped .outsideMemory, p) := by
  unfold fetch
  rw [Action.state_bind_apply]
  by_cases hc : index + length ≤ p.capacity
  · rw [Action.assert_true hc, pure_bind]
    rcases hb : p.block with _ | b
    · rfl
    · have hlen : ¬p.offset + index + length ≤ b.length := fun hlen => h ⟨hc, b, hb, hlen⟩
      rw [Action.expect_some, pure_bind, Block.read?, if_neg hlen]
      rfl
  · rw [Action.assert_false hc]
    rfl

/-- A raw read that the window or the block does not cover is the only one that traps so. -/
theorem fetch_outsideMemory_iff :
    (fetch index length p).1 = .trapped .outsideMemory ↔ ¬p.Covers index length := by
  refine ⟨?_, fun h => by rw [fetch_of_not_covers h]⟩
  rintro h ⟨hc, b, hb, hlen⟩
  unfold fetch at h
  rw [Action.state_bind_apply, Action.assert_true hc, pure_bind, hb, Action.expect_some, pure_bind,
    Block.read?_eq_some hlen] at h
  cases h

theorem put_of_not_covers (h : ¬p.Covers index bytes.length) :
    put index bytes p = (.trapped .outsideMemory, p) := by
  unfold put
  rw [Action.state_bind_apply]
  by_cases hc : index + bytes.length ≤ p.capacity
  · rw [Action.assert_true hc, pure_bind]
    rcases hb : p.block with _ | b
    · rfl
    · have hlen : ¬p.offset + index + bytes.length ≤ b.length := fun hlen => h ⟨hc, b, hb, hlen⟩
      rw [Action.expect_some, pure_bind, Block.write?, if_neg hlen]
      rfl
  · rw [Action.assert_false hc]
    rfl

/-- The same of a raw write. -/
theorem put_outsideMemory_iff :
    (put index bytes p).1 = .trapped .outsideMemory ↔ ¬p.Covers index bytes.length := by
  refine ⟨?_, fun h => by rw [put_of_not_covers h]⟩
  rintro h ⟨hc, b, hb, hlen⟩
  unfold put at h
  rw [Action.state_bind_apply, Action.assert_true hc, pure_bind, hb, Action.expect_some, pure_bind,
    Block.write?_eq_some hlen] at h
  cases h

end Pane

namespace World

variable {w : World}

theorem Sound.trap_eq (hw : w.Sound) {op : Operation} {t : Trap}
    (ht : (op.run w).1 = .trapped t) : t = .misuse := by
  rcases hrun : op.run w with ⟨a | e | t', w'⟩ <;> rw [hrun] at ht
  · cases ht
  · cases ht
  · cases ht
    exact ((op.run_stays hw).of_trapped hrun).1

/-- **Everything stays within its bounds.** After any history, reader, writer and capacity of every
handle are in order and the marks do not exceed the capacity; an owner has a block of its capacity
unless it was released; the window of a view or record lies in the owner it was derived from. So
no operation that follows computes a sum that does not fit a word or a difference that is negative,
and no assertion fails: the only traps left are those of handles that do not exist or are in
use. -/
theorem Reachable.within_bounds (hw : w.Reachable) :
    (∀ h p, w.pane? h = some p →
      p.cursor.reader ≤ p.cursor.writer ∧ p.cursor.writer ≤ p.capacity ∧
      p.cursor.markedReader ≤ p.capacity ∧ p.cursor.markedWriter ≤ p.capacity) ∧
    (∀ i o, w.owner? i = some o →
      (∀ b, o.block = some b → b.length = o.capacity) ∧ (o.block = none → o.released = true)) ∧
    (∀ h v, w.derived? h = some v →
      ∃ o, w.owner? v.root = some o ∧ v.offset + v.capacity ≤ o.capacity) ∧
    ∀ (op : Operation) t, (op.run w).1 = .trapped t → t = .misuse := by
  have hs := hw.sound
  refine ⟨?_, ?_, ?_, fun op t => hs.trap_eq⟩
  · intro h p hp
    have hc := (hs.pane hp).cursor
    exact ⟨hc.reader_le, hc.writer_le, hc.markedReader_le, hc.markedWriter_le⟩
  · intro i o ho
    exact ⟨(hs.owner i o ho).size, (hs.owner i o ho).gone⟩
  · intro h v hv
    obtain ⟨o, ho, hfit⟩ := hs.derived h v hv
    exact ⟨o, ho, hfit.window⟩

/-- A slice of a slice lies in the owner of both. -/
theorem within_bounds_nested :
    let w := (start [.standard]).after
      [.allocate 0 8, .slice (.owner 0) 1 6, .slice (.view 0) 2 3]
    w.view? 1 = some ⟨0, 3, 3, Cursor.holding 3, default, .slice⟩ ∧
      ∃ o, w.owner? 0 = some o ∧ 3 + 3 ≤ o.capacity := by
  intro w
  have hw : w.Reachable := ⟨_, _, rfl⟩
  have hv : w.view? 1 = some ⟨0, 3, 3, Cursor.holding 3, default, .slice⟩ := by decide
  exact ⟨hv, hw.within_bounds.2.2.1 (.view 1) _ hv⟩

/-- **No raw access leaves the memory.** A raw access comes to a trap of its own unless all of its
bytes lie in the window of its handle and in a block that is present, and after any history no
operation comes to that trap, whatever its arguments are. -/
theorem Reachable.access_within_memory (hw : w.Reachable) :
    (∀ (p : Pane) index length,
      (Pane.fetch index length p).1 = .trapped .outsideMemory ↔ ¬p.Covers index length) ∧
    (∀ (p : Pane) index bytes,
      (Pane.put index bytes p).1 = .trapped .outsideMemory ↔ ¬p.Covers index bytes.length) ∧
    ∀ op : Operation, (op.run w).1 ≠ .trapped .outsideMemory := by
  refine ⟨fun _ _ _ => Pane.fetch_outsideMemory_iff, fun _ _ _ => Pane.put_outsideMemory_iff, ?_⟩
  intro op ht
  exact nomatch hw.sound.trap_eq ht

/-- A range that ends behind the last word is refused like any other. -/
theorem access_within_memory_huge :
    let w := (start [.standard]).after [.allocate 0 8]
    (∃ o, w.owner? 0 = some o) ∧
      ((Operation.call (.owner 0) (.peekBytes (2 ^ 64 - 1) 2)).run w).1 ≠
        .trapped .outsideMemory := by
  intro w
  have hw : w.Reachable := ⟨_, _, rfl⟩
  exact ⟨Option.isSome_iff_exists.1 (by decide), hw.access_within_memory.2.2 _⟩

end World

end PacketMemory
