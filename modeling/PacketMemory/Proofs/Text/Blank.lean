import Mathlib.Data.List.Basic
import PacketMemory.Text.Blank

/-!
# Text without the blanks around it

What is left of a text without the blanks at its ends: it does not depend on how much was in front of it or
behind it (`trim_padded`), and what holds no blanks is left as it is (`trim_of_solid`). The letters of ASCII
are no blanks in either case, so the case of letters has no influence (`trim_map_toLower`).
-/

namespace PacketMemory

/-- Nothing but blanks. -/
def Blanks (text : List Char) : Prop := ∀ c ∈ text, isBlank c = true

/-- Not a single blank. -/
def Solid (text : List Char) : Prop := ∀ c ∈ text, isBlank c = false

variable {before core behind text : List Char}

/-! ## Blanks in front of a text and behind it -/

theorem Blanks.reverse (h : Blanks text) : Blanks text.reverse := fun c hc =>
  h c (List.mem_reverse.1 hc)

theorem Solid.reverse (h : Solid text) : Solid text.reverse := fun c hc => h c (List.mem_reverse.1 hc)

/-- Blanks in front of a text make no difference. -/
theorem trimStart_append (h : Blanks before) : trimStart (before ++ text) = trimStart text :=
  List.dropWhile_append_of_pos h

theorem trimStart_of_blanks (h : Blanks text) : trimStart text = [] := by
  rw [← List.append_nil text, trimStart_append h]
  rfl

/-- A text without blanks stays as it is. -/
theorem trimStart_of_solid (h : Solid text) : trimStart text = text := by
  cases text with
  | nil => rfl
  | cons c rest => exact List.dropWhile_cons_of_neg (by rw [h c List.mem_cons_self]; decide)

/-- Blanks behind a text that is not blank stay behind it. -/
theorem trimStart_append_blanks (hbehind : Blanks behind) :
    trimStart (core ++ behind) = trimStart core ++ if trimStart core = [] then [] else behind := by
  have hnone : behind.dropWhile isBlank = [] := trimStart_of_blanks hbehind
  rw [trimStart, List.dropWhile_append, hnone, trimStart]
  cases core.dropWhile isBlank <;> rfl

/-- **Blanks around a text make no difference.** -/
theorem trim_padded (hbefore : Blanks before) (hbehind : Blanks behind) :
    trim (before ++ (core ++ behind)) = trim core := by
  rw [trim, trim, trimStart_append hbefore, trimStart_append_blanks hbehind]
  split
  · rw [List.append_nil]
  · rw [List.reverse_append, trimStart_append hbehind.reverse]

theorem trim_of_solid (h : Solid core) : trim core = core := by
  rw [trim, trimStart_of_solid h, trimStart_of_solid h.reverse, List.reverse_reverse]

theorem blanks_takeWhile (text : List Char) : Blanks (text.takeWhile isBlank) :=
  List.all_eq_true.1 List.all_takeWhile

/-- A text is what is left of it, and the blanks around this. -/
theorem exists_trim (text : List Char) :
    ∃ before behind, text = before ++ (trim text ++ behind) ∧ Blanks before ∧ Blanks behind := by
  refine ⟨text.takeWhile isBlank, ((trimStart text).reverse.takeWhile isBlank).reverse, ?_,
    blanks_takeWhile _, (blanks_takeWhile _).reverse⟩
  rw [trim, ← List.reverse_append]
  have hend : (trimStart text).reverse.takeWhile isBlank ++ trimStart (trimStart text).reverse =
      (trimStart text).reverse := List.takeWhile_append_dropWhile
  rw [hend, List.reverse_reverse]
  exact List.takeWhile_append_dropWhile.symm

/-! ## Case -/

/-- The capital letters have the numbers 65 to 90, and the small ones come 32 behind them. -/
theorem toNat_toLower (c : Char) :
    c.toLower.toNat = if 65 ≤ c.toNat ∧ c.toNat ≤ 90 then c.toNat + 32 else c.toNat := by
  have hupper : (c.val ≥ 'A'.val ∧ c.val ≤ 'Z'.val) = (65 ≤ c.toNat ∧ c.toNat ≤ 90) := rfl
  unfold Char.toLower
  simp only [hupper]
  split
  · next h =>
    show (c.val + 32).toNat = c.val.toNat + 32
    have hle : c.val.toNat ≤ 90 := h.2
    rw [UInt32.toNat_add]
    exact Nat.mod_eq_of_lt (by simp only [UInt32.reduceToNat]; omega)
  · rfl

/-- Letters are no blanks. -/
theorem isBlank_toLower (c : Char) : isBlank c.toLower = isBlank c := by
  have hletter : ∀ n < 123, 65 ≤ n → blankCodePoints.contains n = false := by decide
  rw [isBlank, isBlank, toNat_toLower]
  split
  · next h => rw [hletter _ (by omega) (by omega), hletter _ (by omega) h.1]
  · rfl

/-- Whether blanks or capital letters go first makes no difference. -/
theorem trim_map_toLower (text : List Char) :
    trim (text.map Char.toLower) = (trim text).map Char.toLower := by
  have hstart : ∀ text, trimStart (text.map Char.toLower) = (trimStart text).map Char.toLower := by
    intro text
    have hsame : isBlank ∘ Char.toLower = isBlank := funext isBlank_toLower
    rw [trimStart, List.dropWhile_map, hsame]
    rfl
  rw [trim, hstart, ← List.map_reverse, hstart, ← List.map_reverse]
  rfl

end PacketMemory
