import PacketMemory.Block

/-!
# Overwritten blocks

What a block holds after some of its bytes were overwritten: the new bytes where they were put
(`Block.overwrite_slice`), what was there before everywhere else (`Block.overwrite_outside`). Bytes
that are put one behind the other might as well have been put at once
(`Block.overwrite_overwrite`), and of bytes that are put apart it does not matter which come first
(`Block.overwrite_comm`). Resizing leaves all bytes that it keeps where they are
(`Block.resize_outside`), and of resizings in a row only the smallest size and the last one count
(`Block.resize_resize_resize`). What two blocks have in common in a window can be said of the window or of
its bytes (`Block.window_eq_iff`).
-/

namespace PacketMemory

namespace Block

variable {b : Block} {bytes xs : List UInt8} {start i : Nat}

/-- Bytes outside of the range stay. -/
theorem overwrite_outside (h : start ≤ b.length) (hi : i < start ∨ start + bytes.length ≤ i) :
    (b.take start ++ (bytes ++ b.drop (start + bytes.length)))[i]? = b[i]? := by
  have hlen : (b.take start).length = start := by
    rw [List.length_take, Nat.min_eq_left h]
  -- before the range the first part is read, behind it the last
  rcases hi with hi | hi
  · rw [List.getElem?_append_left (by omega), List.getElem?_take_of_lt hi]
  · rw [List.getElem?_append_right (by omega), List.getElem?_append_right (by omega),
      List.getElem?_drop, hlen]
    congr 1
    omega

/-- What an overwritten block holds, byte by byte. -/
theorem getElem?_overwrite (h : start ≤ b.length) (i : Nat) :
    (b.take start ++ (bytes ++ b.drop (start + bytes.length)))[i]? =
      if start ≤ i ∧ i < start + bytes.length then bytes[i - start]? else b[i]? := by
  have hlen : (b.take start).length = start := by
    rw [List.length_take, Nat.min_eq_left h]
  split
  · rw [List.getElem?_append_right (by omega), hlen, List.getElem?_append_left (by omega)]
  · exact overwrite_outside h (by omega)

/-- Bytes that were put somewhere are there. -/
theorem overwrite_slice (h : start ≤ b.length) :
    ((b.take start ++ (bytes ++ b.drop (start + bytes.length))).drop start).take bytes.length =
      bytes := by
  have hlen : (b.take start).length = start := by
    rw [List.length_take, Nat.min_eq_left h]
  rw [List.drop_append_of_le_length (Nat.le_of_eq hlen.symm), List.drop_eq_nil_of_le
    (Nat.le_of_eq hlen), List.nil_append, List.take_left]

/-- Bytes that are put where they are. -/
theorem overwrite_self {length : Nat} (h : start + length ≤ b.length) :
    let bytes := (b.drop start).take length
    b.take start ++ (bytes ++ b.drop (start + bytes.length)) = b := by
  intro bytes
  have hlen : bytes.length = length := by
    rw [List.length_take, List.length_drop]
    omega
  rw [hlen, ← List.drop_drop, List.take_append_drop, List.take_append_drop]

/-- Bytes that are put behind others. -/
theorem overwrite_overwrite (h : start + xs.length ≤ b.length) (ys : List UInt8) :
    let b' := b.take start ++ (xs ++ b.drop (start + xs.length))
    b'.take (start + xs.length) ++ (ys ++ b'.drop (start + xs.length + ys.length)) =
      b.take start ++ ((xs ++ ys) ++ b.drop (start + (xs ++ ys).length)) := by
  intro b'
  have hlen : (b.take start ++ xs).length = start + xs.length := by
    rw [List.length_append, List.length_take]
    omega
  have hb' : b' = (b.take start ++ xs) ++ b.drop (start + xs.length) := by
    rw [List.append_assoc]
  have hfront : b'.take (start + xs.length) = b.take start ++ xs := by
    rw [hb', ← hlen, List.take_left]
  have hback : b'.drop (start + xs.length + ys.length) =
      b.drop (start + (xs ++ ys).length) := by
    rw [hb', ← hlen, List.drop_length_add_append, List.drop_drop, hlen, List.length_append,
      Nat.add_assoc]
  rw [hfront, hback]
  simp only [List.append_assoc]

/-- Of two places that lie apart, it makes no difference which one is overwritten first. -/
theorem overwrite_comm {other : Nat} (h : start + xs.length ≤ other) (ho : other ≤ b.length)
    (ys : List UInt8) :
    let b₁ := b.take start ++ (xs ++ b.drop (start + xs.length))
    let b₂ := b.take other ++ (ys ++ b.drop (other + ys.length))
    b₁.take other ++ (ys ++ b₁.drop (other + ys.length)) =
      b₂.take start ++ (xs ++ b₂.drop (start + xs.length)) := by
  intro b₁ b₂
  have hstart : start ≤ b.length := by omega
  have ho₁ : other ≤ b₁.length := by
    simp only [b₁, List.length_append, List.length_take, List.length_drop]
    omega
  have hstart₂ : start ≤ b₂.length := by
    simp only [b₂, List.length_append, List.length_take, List.length_drop]
    omega
  refine List.ext_getElem? fun i => ?_
  rw [getElem?_overwrite ho₁, getElem?_overwrite hstart₂, getElem?_overwrite hstart,
    getElem?_overwrite ho]
  -- no byte lies in both places
  by_cases hi : other ≤ i ∧ i < other + ys.length
  · have hi' : ¬(start ≤ i ∧ i < start + xs.length) := by omega
    rw [if_pos hi, if_pos hi, if_neg hi']
  · rw [if_neg hi, if_neg hi]

/-- Two blocks have the same bytes in a window iff the windows are the same, byte for byte. -/
theorem window_eq_iff {b' : Block} {offset capacity : Nat} :
    (b'.drop offset).take capacity = (b.drop offset).take capacity ↔
      ∀ i, offset ≤ i → i < offset + capacity → b'[i]? = b[i]? := by
  constructor
  · intro h i hle hlt
    have hi := congrArg (fun bytes : List UInt8 => bytes[i - offset]?) h
    simp only [List.getElem?_take_of_lt (show i - offset < capacity by omega),
      List.getElem?_drop, Nat.add_sub_cancel' hle] at hi
    exact hi
  · intro h
    refine List.ext_getElem? fun i => ?_
    rw [List.getElem?_take, List.getElem?_take, List.getElem?_drop, List.getElem?_drop]
    split
    · exact h _ (Nat.le_add_right _ _) (by omega)
    · rfl

/-- Resizing changes nothing that is there before and after. -/
theorem resize_outside {capacity : Nat}
    (hi : i < min b.length capacity ∨ max b.length capacity ≤ i) :
    (b.resize capacity)[i]? = b[i]? := by
  rcases hi with hi | hi
  · rw [resize, List.getElem?_append_left (by rw [List.length_take]; omega),
      List.getElem?_take_of_lt (by omega)]
  · rw [List.getElem?_eq_none (by rw [length_resize]; omega), List.getElem?_eq_none (by omega)]

/-- A block of another size has the bytes that fit, and zeros behind them. -/
theorem getElem?_resize (b : Block) {capacity : Nat} (hi : i < capacity) :
    (b.resize capacity)[i]? = if i < b.length then b[i]? else some 0 := by
  split
  · exact resize_outside (.inl (by omega))
  · rw [resize, List.getElem?_append_right (by rw [List.length_take]; omega),
      List.getElem?_replicate_of_lt (by rw [List.length_take]; omega)]

theorem resize_length (b : Block) : b.resize b.length = b := by
  rw [resize, List.take_length, Nat.sub_self, List.replicate_zero, List.append_nil]

/-- A block that was cut and grew again has zeros behind the cut, so all that counts of three sizes
is the smaller one of the cuts and the last size. -/
theorem resize_resize_resize (b : Block) {kept capacity : Nat} (h : kept ≤ capacity) (other : Nat) :
    ((b.resize kept).resize capacity).resize other = (b.resize (min kept other)).resize other := by
  refine List.ext_getElem? fun i => ?_
  rcases Nat.lt_or_ge i other with hi | hi
  · rw [getElem?_resize _ hi, getElem?_resize _ hi, length_resize, length_resize]
    rcases Nat.lt_or_ge i kept with hk | hk
    · rw [if_pos (by omega), if_pos (by omega), getElem?_resize _ (by omega), length_resize,
        if_pos hk, getElem?_resize _ hk, getElem?_resize _ (by omega)]
    · rw [if_neg (c := i < min kept other) (by omega)]
      split
      · next hc => rw [getElem?_resize _ hc, length_resize, if_neg (by omega)]
      · rfl
  · rw [List.getElem?_eq_none (by rwa [length_resize]),
      List.getElem?_eq_none (by rwa [length_resize])]

/-- The bytes of a block that was cut, and then resized once more. -/
theorem getElem?_resize_resize {kept capacity : Nat} (hkept : kept ≤ b.length) (hi : i < capacity) :
    ((b.resize kept).resize capacity)[i]? = if i < kept then b[i]? else some 0 := by
  rw [getElem?_resize _ hi, length_resize]
  split
  · exact resize_outside (.inl (by omega))
  · rfl

/-- Where two blocks start alike, indices that are cut to the common start enclose the beginning of
what they enclosed. -/
theorem window_prefix {b' : Block} {kept : Nat} (h : ∀ i < kept, b'[i]? = b[i]?)
    (reader writer : Nat) :
    (b'.drop (min reader kept)).take (min writer kept - min reader kept) <+:
      (b.drop reader).take (writer - reader) := by
  rcases Nat.le_total kept reader with hr | hr
  · rw [show min writer kept - min reader kept = 0 by omega, List.take_zero]
    exact List.nil_prefix
  · rw [Nat.min_eq_left hr, window_eq_iff.2 fun i hle hlt => h i (by omega)]
    exact List.take_prefix_take_left (by omega)

end Block

end PacketMemory
