import PacketMemory.Overlay.Samples
import PacketMemory.Proofs.Pane.Sequential

/-!
# Checks that read numbers

A check that goes on with a number either gets the number that is there or is refused because the
number would end behind the slice (`Check.run_number_of_le`, `Check.run_number_of_lt`), so what it
comes to is an equation.

Most checks look at fixed places inside of the bytes they cover. `Check.Within` says so of a whole
check, and then no call of the check is ever refused: the check accepts, or it objects in its own
words (`Check.Within.run`). All of the sample overlays are like this but `indirect`, which follows
a byte to wherever it points.
-/

namespace PacketMemory

variable {p : Pane} {type : ScalarType} {index n value : Nat} {words : String} {next : Nat → Check}

/-- The number of this type at an index. -/
def Pane.numberAt (p : Pane) (type : ScalarType) (index : Nat) : Nat :=
  (Scalar.ofBytes type p.order (p.bytesAt index type.size)).toNat

/-- A number that is there can be asked for. -/
theorem Call.run_peekScalar (hp : p.Sound) (hl : p.Live) (h : index + type.size ≤ p.capacity) :
    (Call.peekScalar type index false).run p =
      (.done (.scalar (.ofBytes type p.order (p.bytesAt index type.size))), p) :=
  Action.bind_done (Pane.peekScalar_apply hp hl type h false)

namespace Check

/-- **A number that is there** is what the check goes on with. -/
theorem run_number_of_le (hp : p.Sound) (hl : p.Live) (h : index + type.size ≤ p.capacity) :
    (number type index next).run p = (next (p.numberAt type index)).run p :=
  run_call_done (Call.run_peekScalar hp hl h)

/-- A number that ends behind the window is a cause for refusal, whatever would have come next. -/
theorem run_number_of_lt (hl : p.Live) (h : p.capacity < index + type.size) :
    (number type index next).run p =
      (.failed (.failure (.outOfBounds (.range index type.size p.capacity))), p) := by
  have hpeek : Pane.peekScalar type index false p =
      (.failed (.outOfBounds (.range index type.size p.capacity)), p) := by
    refine (Action.bind_done (Pane.effectiveOrder_apply false)).trans ?_
    exact Action.bind_failed (Pane.checkRange_of_lt hl h)
  exact run_call_failed (Action.bind_failed hpeek)

theorem run_insist (q : Prop) [Decidable q] :
    (insist q words).run p = (if q then .done () else .failed (.words words), p) := by
  simp only [insist]
  split <;> rfl

/-- What a check of one byte comes to. -/
theorem run_marked (hp : p.Sound) (hl : p.Live) :
    (marked index value words).run p =
      (if p.capacity ≤ index then .failed (.failure (.outOfBounds (.range index 1 p.capacity)))
        else if p.numberAt .uint8 index = value then .done () else .failed (.words words), p) := by
  split
  · next h => exact run_number_of_lt hl (Nat.lt_succ_of_le h)
  · next h => rw [marked, run_number_of_le hp hl (Nat.lt_of_not_le h), run_insist]

/-! ## Checks that look at fixed places -/

/-- All that the check does is to read numbers that end in the first `n` bytes, whatever the ones
before them are, and what it refuses it refuses in words. -/
def Within (n : Nat) : Check → Prop
  | accept => True
  | refuse cause => ∃ words, cause = .words words
  | call access next => ∃ type index, access = .peekScalar type index false ∧
      index + type.size ≤ n ∧ ∀ v : Scalar, v.type = type → (next (.ok (.scalar v))).Within n

theorem within_number : (number type index next).Within n ↔
    index + type.size ≤ n ∧ ∀ v : Scalar, v.type = type → (next v.toNat).Within n := by
  constructor
  · rintro ⟨_, _, haccess, hfit, hnext⟩
    obtain ⟨rfl, rfl, -⟩ := Call.peekScalar.inj haccess
    exact ⟨hfit, hnext⟩
  · rintro ⟨hfit, hnext⟩
    exact ⟨type, index, rfl, hfit, hnext⟩

theorem within_insist (q : Prop) [Decidable q] : (insist q words).Within n := by
  simp only [insist]
  split
  · exact trivial
  · exact ⟨words, rfl⟩

theorem within_marked : (marked index value words).Within n ↔ index < n :=
  within_number.trans (and_iff_left fun _ _ => within_insist _)

/-- **A check that stays within its bytes comes to a decision of its own**: it accepts or objects in
words, and leaves everything as it was. -/
theorem Within.run {check : Check} (hp : p.Sound) (hl : p.Live) (hn : n ≤ p.capacity)
    (h : check.Within n) :
    check.run p = (.done (), p) ∨ ∃ words, check.run p = (.failed (.words words), p) := by
  induction check with
  | accept => exact .inl rfl
  | refuse cause =>
    obtain ⟨words, rfl⟩ := h
    exact .inr ⟨words, rfl⟩
  | call access next ih =>
    obtain ⟨type, index, rfl, hfit, hnext⟩ := h
    rw [run_call_done (Call.run_peekScalar hp hl (Nat.le_trans hfit hn))]
    exact ih _ (hnext _ (Scalar.type_ofBytes _ _ _))

end Check

/-! ## The sample overlays -/

namespace Overlay

/-- Nothing is asked of a pair, nor of a whole. -/
theorem within_accept : pair.check.Within n ∧ whole.check.Within n := ⟨trivial, trivial⟩

/-- A tag and a leading zero are in the bytes of their types. -/
theorem within_size : zeroLed.check.Within zeroLed.size ∧ tagged.check.Within tagged.size :=
  ⟨Check.within_marked.2 (by decide), Check.within_marked.2 (by decide)⟩

/-- The delimiter of a frame is there unless the frame has no bytes at all. -/
theorem within_framed : framed.check.Within n ↔ 0 < n := Check.within_marked

/-- Wherever the number is that a byte points to, it ends by byte 257, and may end that late. -/
theorem within_indirect : indirect.check.Within n ↔ 257 ≤ n := by
  have hlast : ∀ v : Scalar, v.type = .uint8 → v.toNat < 256 := by
    rintro ⟨_, bits⟩ rfl
    exact bits.isLt
  simp only [indirect, Check.within_number]
  constructor
  · rintro ⟨-, h⟩
    exact (h (.ofByte 255) rfl).1
  · intro h
    refine ⟨Nat.le_trans (by decide) h, fun v hv => ⟨?_, fun _ _ => trivial⟩⟩
    have hv' := hlast v hv
    simp only [ScalarType.size]
    omega

end Overlay

end PacketMemory
