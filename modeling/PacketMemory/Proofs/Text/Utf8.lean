import Mathlib.Algebra.Group.Nat.Defs
import Mathlib.Data.List.Basic
import PacketMemory.Text.Utf8

/-!
# The decoder is exact

A character is written as a first byte, which tells how many bytes follow, and bytes of six bits each
(`utf8EncodeChar_eq`). The decoder reads it byte by byte, and is sound and complete for a simple reason:
what it keeps of a character that it is inside of (`Pending`) tells which characters are still possible.
`Pending.Covers` says which numbers these are, and `Pending.Follows` that they are exactly the characters
whose bytes start with what was read. A first byte sets this up (`opens_of_lead`), and every byte in range
keeps it up (`Pending.Follows.step`).

* `decode_eq_ok_iff` — a text is decoded from its bytes and from no others.
* `decode_eq_error_iff` — a refusal locates the fault: `Malformed.Locates` says what a refusal has to
  tell of the bytes, in terms of what texts and characters are written as.
-/

namespace PacketMemory.Utf8

/-! ## The bytes of a character -/

/-- The byte that carries the six bits of a number from place `6 * n` on. -/
def continuation (v n : Nat) : UInt8 := UInt8.ofNat (0x80 + v / 64 ^ n % 64)

/-- The last `n` bytes of a character. -/
def continuations (v : Nat) : Nat → List UInt8
  | 0 => []
  | n + 1 => continuation v n :: continuations v n

/-- The first byte of a character with `n` bytes behind it. -/
def first (v : Nat) : Nat → Nat
  | 0 => v
  | 1 => 0xC0 + v / 64
  | 2 => 0xE0 + v / 4096
  | _ => 0xF0 + v / 262144

/-- The number of bytes behind the first one. -/
def trailing (v : Nat) : Nat :=
  if v < 0x80 then 0 else if v < 0x800 then 1 else if v < 0x10000 then 2 else 3

theorem toNat_continuation (v n : Nat) : (continuation v n).toNat = 0x80 + v / 64 ^ n % 64 := by
  rw [continuation, UInt8.toNat_ofNat', Nat.mod_eq_of_lt (by omega)]

theorem continuation_eq {v n : Nat} {b : UInt8} (hb : 0x80 ≤ b.toNat)
    (hv : v / 64 ^ n % 64 = b.toNat - 0x80) : continuation v n = b := by
  rw [← UInt8.toNat_inj, toNat_continuation]
  omega

@[simp] theorem length_continuations (v n : Nat) : (continuations v n).length = n := by
  induction n with
  | zero => rfl
  | succ n ih => rw [continuations, List.length_cons, ih]

theorem isValidChar_toNat (c : Char) : c.toNat.isValidChar := c.valid

theorem first_lt {v : Nat} (hv : v.isValidChar) : first v (trailing v) < 256 := by
  unfold Nat.isValidChar at hv
  unfold trailing
  split_ifs <;> simp only [first] <;> omega

/-- **How a character is written.** -/
theorem utf8EncodeChar_eq (c : Char) :
    String.utf8EncodeChar c = UInt8.ofNat (first c.toNat (trailing c.toNat)) ::
      continuations c.toNat (trailing c.toNat) := by
  have hvalid := isValidChar_toNat c
  unfold String.utf8EncodeChar trailing
  rw [show c.val.toNat = c.toNat from rfl]
  generalize c.toNat = v at hvalid ⊢
  unfold Nat.isValidChar at hvalid
  simp only [← Nat.lt_succ_iff, Nat.succ_eq_add_one, Nat.reduceAdd]
  split_ifs
  · rfl
  · simp only [first, continuations, continuation, Nat.pow_zero, Nat.div_one, Nat.add_comm,
      Nat.mod_eq_of_lt (show v / 64 < 32 by omega)]
  · simp only [first, continuations, continuation, Nat.pow_zero, Nat.div_one, Nat.add_comm,
      Nat.reducePow, Nat.mod_eq_of_lt (show v / 4096 < 16 by omega)]
  · simp only [first, continuations, continuation, Nat.pow_zero, Nat.div_one, Nat.add_comm,
      Nat.reducePow, Nat.mod_eq_of_lt (show v / 262144 < 8 by omega)]

theorem eq_first {b : UInt8} {c : Char} (h : [b] <+: String.utf8EncodeChar c) :
    b.toNat = first c.toNat (trailing c.toNat) := by
  rw [utf8EncodeChar_eq, List.cons_prefix_cons] at h
  rw [h.1, UInt8.toNat_ofNat', Nat.mod_eq_of_lt (first_lt (isValidChar_toNat c))]

/-! ## First bytes, range by range -/

theorem lead_two {b : Nat} (h : 0xC2 ≤ b) (h' : b < 0xE0) :
    lead b = .more ⟨1, 0, 0x80, 0xBF, b - 0xC0⟩ := by
  rw [lead, if_neg (by omega), if_neg (by omega), if_pos h']

theorem lead_three {b : Nat} (h : 0xE0 ≤ b) (h' : b < 0xF0) :
    lead b = .more ⟨1, 1, if b = 0xE0 then 0xA0 else 0x80, if b = 0xED then 0x9F else 0xBF,
      b - 0xE0⟩ := by
  rw [lead, if_neg (by omega), if_neg (by omega), if_neg (by omega)]
  by_cases hlow : b = 0xE0
  · subst hlow
    rfl
  · by_cases hhigh : b = 0xED
    · subst hhigh
      rfl
    · rw [if_neg hlow, if_neg hhigh, if_pos h', if_neg hlow, if_neg hhigh]

theorem lead_four {b : Nat} (h : 0xF0 ≤ b) (h' : b < 0xF5) :
    lead b = .more ⟨1, 2, if b = 0xF0 then 0x90 else 0x80, if b = 0xF4 then 0x8F else 0xBF,
      b - 0xF0⟩ := by
  rw [lead, if_neg (by omega), if_neg (by omega), if_neg (by omega), if_neg (by omega),
    if_neg (by omega), if_neg (by omega)]
  by_cases hlow : b = 0xF0
  · subst hlow
    rfl
  · by_cases hhigh : b = 0xF4
    · subst hhigh
      rfl
    · rw [if_neg hlow, if_pos (by omega), if_neg hlow, if_neg hhigh]

theorem lead_invalid {b : Nat} (h : 0x80 ≤ b) (h' : b < 0xC2 ∨ 0xF5 ≤ b) : lead b = .invalid := by
  rw [lead, if_neg (by omega)]
  by_cases hlow : b < 0xC2
  · rw [if_pos hlow]
  · rw [if_neg hlow, if_neg (by omega), if_neg (by omega), if_neg (by omega), if_neg (by omega),
      if_neg (by omega), if_neg (by omega), if_neg (by omega)]

/-- A byte that announces others. -/
theorem lead_more_range {b : Nat} {p : Pending} (h : lead b = .more p) : 0xC2 ≤ b ∧ b < 0xF5 := by
  by_cases hascii : b < 0x80
  · rw [lead, if_pos hascii] at h
    cases h
  · by_contra hrange
    rw [lead_invalid (by omega) (by omega)] at h
    cases h

theorem lead_whole_range {b : Nat} (h : lead b = .whole) : b < 0x80 := by
  by_contra hascii
  by_cases hinvalid : b < 0xC2 ∨ 0xF5 ≤ b
  · rw [lead_invalid (by omega) hinvalid] at h
    cases h
  by_cases htwo : b < 0xE0
  · rw [lead_two (by omega) htwo] at h
    cases h
  by_cases hthree : b < 0xF0
  · rw [lead_three (by omega) hthree] at h
    cases h
  · rw [lead_four (by omega) (by omega)] at h
    cases h

/-! ## What a first byte announces -/

/-- The numbers that are still possible: these are the bits so far, and the next byte is in range. -/
def Pending.Covers (p : Pending) (v : Nat) : Prop :=
  v / 64 ^ (p.left + 1) = p.value ∧
    p.low ≤ 0x80 + v / 64 ^ p.left % 64 ∧ 0x80 + v / 64 ^ p.left % 64 ≤ p.high

/-- The possible numbers are those of the characters that start with this byte. -/
structure Pending.Opens (p : Pending) (b : Nat) : Prop where
  seen : p.seen = 1
  low : 0x80 ≤ p.low
  ordered : p.low ≤ p.high
  high : p.high ≤ 0xBF
  valid : ∀ v, p.Covers v → v.isValidChar
  trailing : ∀ v, p.Covers v → trailing v = p.left + 1
  first : ∀ v, p.Covers v → first v (p.left + 1) = b

/-- The first byte of a character is read as such, and its number is possible then. -/
theorem lead_first {v : Nat} (hv : v.isValidChar) :
    (trailing v = 0 ∧ lead (first v (trailing v)) = .whole) ∨
      ∃ p, lead (first v (trailing v)) = .more p ∧ trailing v = p.left + 1 ∧ p.Covers v := by
  unfold Nat.isValidChar at hv
  unfold trailing
  split_ifs with hone htwo hthree
  · exact .inl ⟨rfl, if_pos hone⟩
  · refine .inr ⟨_, lead_two (by simp only [first]; omega) (by simp only [first]; omega), rfl, ?_⟩
    simp only [first, Pending.Covers]
    omega
  · refine .inr ⟨_, lead_three (by simp only [first]; omega) (by simp only [first]; omega), rfl, ?_⟩
    simp only [first, Pending.Covers]
    refine ⟨by omega, ?_, ?_⟩ <;> split <;> omega
  · refine .inr ⟨_, lead_four (by simp only [first]; omega) (by simp only [first]; omega), rfl, ?_⟩
    simp only [first, Pending.Covers]
    refine ⟨by omega, ?_, ?_⟩ <;> split <;> omega

theorem opens_two {b : Nat} (h : 0xC2 ≤ b) (h' : b < 0xE0) :
    Pending.Opens ⟨1, 0, 0x80, 0xBF, b - 0xC0⟩ b := by
  have hrange {v : Nat} (hv : Pending.Covers ⟨1, 0, 0x80, 0xBF, b - 0xC0⟩ v) :
      0x80 ≤ v ∧ v < 0x800 ∧ v / 64 = b - 0xC0 := by
    simp only [Pending.Covers] at hv
    omega
  refine ⟨rfl, Nat.le_refl _, by simp only [Nat.reduceLeDiff], Nat.le_refl _, fun v hv => ?_,
    fun v hv => ?_, fun v hv => ?_⟩
  all_goals obtain ⟨hmin, hmax, hvalue⟩ := hrange hv
  · exact .inl (by omega)
  · rw [Utf8.trailing, if_neg (by omega), if_pos hmax]
  · simp only [Utf8.first]
    omega

/-- The bounds of the second byte keep overlong forms and surrogates out. -/
theorem opens_three {b : Nat} (h : 0xE0 ≤ b) (h' : b < 0xF0) :
    Pending.Opens ⟨1, 1, if b = 0xE0 then 0xA0 else 0x80, if b = 0xED then 0x9F else 0xBF,
      b - 0xE0⟩ b := by
  have hrange {v : Nat} (hv : Pending.Covers ⟨1, 1, if b = 0xE0 then 0xA0 else 0x80,
      if b = 0xED then 0x9F else 0xBF, b - 0xE0⟩ v) :
      0x800 ≤ v ∧ v < 0x10000 ∧ (v < 0xD800 ∨ 0xDFFF < v) ∧ v / 4096 = b - 0xE0 := by
    simp only [Pending.Covers] at hv
    split at hv <;> split at hv <;> omega
  refine ⟨rfl, ?_, ?_, ?_, fun v hv => ?_, fun v hv => ?_, fun v hv => ?_⟩
  · dsimp only
    split <;> omega
  · dsimp only
    split <;> split <;> omega
  · dsimp only
    split <;> omega
  all_goals obtain ⟨hmin, hmax, hvalid, hvalue⟩ := hrange hv
  · exact hvalid.imp id fun hv => ⟨hv, by omega⟩
  · rw [Utf8.trailing, if_neg (by omega), if_neg (by omega), if_pos hmax]
  · simp only [Utf8.first]
    omega

/-- The bounds of the second byte keep overlong forms and numbers above U+10FFFF out. -/
theorem opens_four {b : Nat} (h : 0xF0 ≤ b) (h' : b < 0xF5) :
    Pending.Opens ⟨1, 2, if b = 0xF0 then 0x90 else 0x80, if b = 0xF4 then 0x8F else 0xBF,
      b - 0xF0⟩ b := by
  have hrange {v : Nat} (hv : Pending.Covers ⟨1, 2, if b = 0xF0 then 0x90 else 0x80,
      if b = 0xF4 then 0x8F else 0xBF, b - 0xF0⟩ v) :
      0x10000 ≤ v ∧ v < 0x110000 ∧ v / 262144 = b - 0xF0 := by
    simp only [Pending.Covers] at hv
    split at hv <;> split at hv <;> omega
  refine ⟨rfl, ?_, ?_, ?_, fun v hv => ?_, fun v hv => ?_, fun v hv => ?_⟩
  · dsimp only
    split <;> omega
  · dsimp only
    split <;> split <;> omega
  · dsimp only
    split <;> omega
  all_goals obtain ⟨hmin, hmax, hvalue⟩ := hrange hv
  · exact .inr ⟨by omega, hmax⟩
  · rw [Utf8.trailing, if_neg (by omega), if_neg (by omega), if_neg (by omega)]
  · simp only [Utf8.first]
    omega

/-- **What a first byte announces are the characters that start with it.** -/
theorem opens_of_lead {b : Nat} {p : Pending} (h : lead b = .more p) : p.Opens b := by
  obtain ⟨hlow, hhigh⟩ := lead_more_range h
  by_cases htwo : b < 0xE0
  · rw [lead_two hlow htwo] at h
    cases h
    exact opens_two hlow htwo
  by_cases hthree : b < 0xF0
  · rw [lead_three (by omega) hthree] at h
    cases h
    exact opens_three (by omega) hthree
  · rw [lead_four (by omega) hhigh] at h
    cases h
    exact opens_four (by omega) hhigh

/-! ## Inside a character -/

/-- A character's encoding starts with these bytes. -/
def Begins (bytes : List UInt8) : Prop := ∃ c : Char, bytes <+: String.utf8EncodeChar c

theorem Begins.shorter {bytes more : List UInt8} (h : bytes <+: more) (hb : Begins more) :
    Begins bytes := by
  obtain ⟨c, hc⟩ := hb
  exact ⟨c, h.trans hc⟩

/-- A byte that no character starts with. -/
theorem not_begins_of_invalid {b : UInt8} (h : lead b.toNat = .invalid) : ¬Begins [b] := by
  rintro ⟨c, hc⟩
  rw [eq_first hc] at h
  rcases lead_first (isValidChar_toNat c) with ⟨-, hwhole⟩ | ⟨p, hmore, -⟩
  · cases hwhole.symm.trans h
  · cases hmore.symm.trans h

/-- A byte that is a whole character. -/
theorem utf8EncodeChar_of_whole {b : UInt8} (h : lead b.toNat = .whole) :
    String.utf8EncodeChar (Char.ofNat b.toNat) = [b] := by
  have hascii := lead_whole_range h
  have hvalid : b.toNat.isValidChar := .inl (by omega)
  have hnumber : (Char.ofNatAux b.toNat hvalid).toNat = b.toNat := rfl
  rw [← hnumber, Char.ofNat_toNat, utf8EncodeChar_eq, hnumber, trailing, if_pos hascii, first,
    UInt8.ofNat_toNat]
  rfl

/-- These bytes of a character were read, and the possible numbers are those of the characters that
start with them. -/
structure Pending.Follows (p : Pending) (seen : List UInt8) : Prop where
  length : seen.length = p.seen
  nonempty : seen ≠ []
  low : 0x80 ≤ p.low
  ordered : p.low ≤ p.high
  high : p.high ≤ 0xBF
  covers : ∀ c, seen <+: String.utf8EncodeChar c → p.Covers c.toNat
  completes : ∀ v, p.Covers v →
    ∃ c : Char, c.toNat = v ∧ String.utf8EncodeChar c = seen ++ continuations v (p.left + 1)

theorem Pending.Opens.follows {p : Pending} {b : UInt8} (h : p.Opens b.toNat)
    (hlead : lead b.toNat = .more p) : p.Follows [b] where
  length := h.seen.symm
  nonempty := List.cons_ne_nil _ _
  low := h.low
  ordered := h.ordered
  high := h.high
  covers c hc := by
    rw [eq_first hc] at hlead
    rcases lead_first (isValidChar_toNat c) with ⟨-, hwhole⟩ | ⟨q, hmore, -, hq⟩
    · cases hwhole.symm.trans hlead
    · cases hmore.symm.trans hlead
      exact hq
  completes v hv := by
    have hvalid := h.valid v hv
    have hnumber : (Char.ofNatAux v hvalid).toNat = v := rfl
    refine ⟨Char.ofNatAux v hvalid, hnumber, ?_⟩
    rw [utf8EncodeChar_eq, hnumber, h.trailing v hv, h.first v hv, UInt8.ofNat_toNat]
    rfl

namespace Pending.Follows

variable {p : Pending} {seen : List UInt8} {b : UInt8}

/-- What stands next in a character that is possible. -/
theorem next_eq (h : p.Follows seen) {c : Char} (hc : seen ++ [b] <+: String.utf8EncodeChar c) :
    p.Covers c.toNat ∧ b.toNat = 0x80 + c.toNat / 64 ^ p.left % 64 := by
  have hcovers := h.covers c ((List.prefix_append _ _).trans hc)
  obtain ⟨d, hd, hencode⟩ := h.completes _ hcovers
  obtain rfl : d = c := Char.toNat_inj.1 hd
  rw [hencode, List.prefix_append_right_inj, continuations, List.cons_prefix_cons] at hc
  rw [hc.1, toNat_continuation]
  exact ⟨hcovers, rfl⟩

/-- **A byte out of range** continues no character. -/
theorem rejects (h : p.Follows seen) (hb : ¬(p.low ≤ b.toNat ∧ b.toNat ≤ p.high)) :
    ¬Begins (seen ++ [b]) := by
  rintro ⟨c, hc⟩
  obtain ⟨⟨-, hrange⟩, hnext⟩ := h.next_eq hc
  rw [← hnext] at hrange
  exact hb hrange

/-- A byte in range narrows the numbers down to those with its six bits. -/
theorem covers_of_div (h : p.Follows seen) {b v : Nat} (hb : p.low ≤ b ∧ b ≤ p.high)
    (hv : v / 64 ^ p.left = p.value * 64 + (b - 0x80)) : p.Covers v := by
  have hlow := h.low
  have hhigh := h.high
  have hdiv : v / 64 ^ (p.left + 1) = v / 64 ^ p.left / 64 := by
    rw [Nat.pow_succ, Nat.div_div_eq_div_mul]
  refine ⟨?_, ?_, ?_⟩ <;> omega

theorem continuation_next (h : p.Follows seen) (hb : p.low ≤ b.toNat ∧ b.toNat ≤ p.high) {v : Nat}
    (hv : v / 64 ^ p.left = p.value * 64 + (b.toNat - 0x80)) : continuation v p.left = b := by
  have hlow := h.low
  have hhigh := h.high
  exact continuation_eq (by omega) (by omega)

/-- **The last byte** completes the character. -/
theorem finish (h : p.Follows seen) (hleft : p.left = 0)
    (hb : p.low ≤ b.toNat ∧ b.toNat ≤ p.high) :
    String.utf8EncodeChar (Char.ofNat (p.value * 64 + (b.toNat - 0x80))) = seen ++ [b] := by
  have hdiv : (p.value * 64 + (b.toNat - 0x80)) / 64 ^ p.left =
      p.value * 64 + (b.toNat - 0x80) := by
    rw [hleft, Nat.pow_zero, Nat.div_one]
  obtain ⟨c, hc, hencode⟩ := h.completes _ (h.covers_of_div hb hdiv)
  rw [continuations, h.continuation_next hb hdiv, hleft] at hencode
  rw [← hc, Char.ofNat_toNat, hencode]
  rfl

/-- **Any other byte in range** leads on inside the character. -/
theorem step (h : p.Follows seen) {left : Nat} (hleft : p.left = left + 1)
    (hb : p.low ≤ b.toNat ∧ b.toNat ≤ p.high) :
    Pending.Follows ⟨p.seen + 1, left, 0x80, 0xBF, p.value * 64 + (b.toNat - 0x80)⟩
      (seen ++ [b]) where
  length := by rw [List.length_append, List.length_singleton, h.length]
  nonempty := List.append_ne_nil_of_right_ne_nil _ (List.cons_ne_nil _ _)
  low := Nat.le_refl _
  ordered := by simp only [Nat.reduceLeDiff]
  high := Nat.le_refl _
  covers c hc := by
    obtain ⟨⟨hvalue, -⟩, hnext⟩ := h.next_eq hc
    rw [Nat.pow_succ, ← Nat.div_div_eq_div_mul, hleft] at hvalue
    rw [hleft] at hnext
    simp only [Pending.Covers]
    omega
  completes v hv := by
    have hdiv : v / 64 ^ p.left = p.value * 64 + (b.toNat - 0x80) := by
      rw [hleft]
      exact hv.1
    obtain ⟨c, hc, hencode⟩ := h.completes v (h.covers_of_div hb hdiv)
    refine ⟨c, hc, ?_⟩
    rw [hencode, continuations, h.continuation_next hb hdiv, hleft, List.append_assoc]
    rfl

/-- The least byte that may come next does lead to some character. -/
theorem begins (h : p.Follows seen) : Begins seen := by
  have hdiv : ((p.value * 64 + (p.low - 0x80)) * 64 ^ p.left) / 64 ^ p.left =
      p.value * 64 + (p.low - 0x80) := Nat.mul_div_cancel _ (Nat.pow_pos (by decide))
  obtain ⟨c, -, hencode⟩ := h.completes _ (h.covers_of_div ⟨Nat.le_refl _, h.ordered⟩ hdiv)
  exact ⟨c, hencode ▸ List.prefix_append _ _⟩

theorem length_lt (h : p.Follows seen) : seen.length < 4 := by
  obtain ⟨c, hc⟩ := h.begins
  obtain ⟨d, -, hencode⟩ := h.completes _ (h.covers c hc)
  have hlength := congrArg List.length hencode
  have hfour : (String.utf8EncodeChar d).length ≤ 4 := by
    rw [String.length_utf8EncodeChar]
    exact d.utf8Size_le_four
  rw [List.length_append, length_continuations] at hlength
  omega

end Pending.Follows

/-! ## Whole characters are accepted -/

variable {valid : Nat} {done : List Char} {bytes rest seen : List UInt8}

/-- Of a number that is possible, the bytes that are left are read to the end. -/
theorem scan_continuations {p : Pending} {v : Nat} (h : p.Covers v) :
    scan valid done (some p) (continuations v (p.left + 1) ++ rest) =
      scan (valid + p.seen + p.left + 1) (Char.ofNat v :: done) none rest := by
  obtain ⟨seen, left, low, high, value⟩ := p
  induction left generalizing seen low high value with
  | zero =>
    obtain ⟨hvalue, hrange⟩ := h
    simp only [Nat.pow_zero, Nat.div_one, Nat.zero_add, Nat.pow_one] at hvalue hrange
    rw [continuations, List.cons_append, scan, toNat_continuation, Nat.pow_zero, Nat.div_one,
      if_pos hrange]
    have hv : value * 64 + (0x80 + v % 64 - 0x80) = v := by omega
    simp only [hv, continuations, List.nil_append, Nat.add_zero]
  | succ left ih =>
    obtain ⟨hvalue, hrange⟩ := h
    simp only at hvalue hrange
    rw [Nat.pow_succ, ← Nat.div_div_eq_div_mul] at hvalue
    rw [continuations, List.cons_append, scan, toNat_continuation, if_pos hrange]
    simp only
    rw [ih]
    · simp only
      congr 1
      omega
    · simp only [Pending.Covers]
      omega

theorem scan_char (c : Char) :
    scan valid done none (String.utf8EncodeChar c ++ rest) =
      scan (valid + (String.utf8EncodeChar c).length) (c :: done) none rest := by
  have hv := isValidChar_toNat c
  have hfirst : (UInt8.ofNat (first c.toNat (trailing c.toNat))).toNat =
      first c.toNat (trailing c.toNat) := by
    rw [UInt8.toNat_ofNat', Nat.mod_eq_of_lt (first_lt hv)]
  rw [utf8EncodeChar_eq, List.cons_append, scan, hfirst, List.length_cons, length_continuations]
  rcases lead_first hv with ⟨htrailing, hlead⟩ | ⟨p, hlead, htrailing, hp⟩
  · rw [hlead, htrailing]
    simp only [first, Char.ofNat_toNat, continuations, List.nil_append]
  · have hseen := (opens_of_lead hlead).seen
    rw [hlead, htrailing]
    simp only
    rw [scan_continuations hp, Char.ofNat_toNat, hseen]
    congr 1
    omega

/-- **Whole characters are read** one after the other. -/
theorem scan_chars (text : List Char) :
    scan valid done none (text.flatMap String.utf8EncodeChar ++ rest) =
      scan (valid + (text.flatMap String.utf8EncodeChar).length) (text.reverse ++ done) none
        rest := by
  induction text generalizing valid done with
  | nil => rfl
  | cons c text ih =>
    rw [List.flatMap_cons, List.append_assoc, scan_char, ih, List.length_append, List.reverse_cons,
      List.append_assoc, Nat.add_assoc]
    rfl

/-! ## What reading comes to -/

/-- Why no character can be read at the start of these bytes. Without a number, they end inside a
character. Otherwise `n` of them are what a character may start with, if any are, and at least one of
them; with the byte behind they are not. -/
def Breaks (rest : List UInt8) : Option Nat → Prop
  | none => rest ≠ [] ∧ Begins rest
  | some n => 0 < n ∧ n ≤ 3 ∧ n ≤ rest.length ∧ (n = 1 ∨ Begins (rest.take n)) ∧
      ¬Begins (rest.take (n + 1))

/-- What is read of these bytes, with whole characters behind: characters to the end, or up to where it
breaks. -/
def Reads (valid : Nat) (done : List Char) (bytes : List UInt8) :
    Except Malformed (List Char) → Prop
  | .ok chars => ∃ text, chars = done.reverse ++ text ∧ bytes = text.flatMap String.utf8EncodeChar
  | .error m => ∃ (text : List Char) (rest : List UInt8),
      bytes = text.flatMap String.utf8EncodeChar ++ rest ∧
      m.accepted = valid + (text.flatMap String.utf8EncodeChar).length ∧ Breaks rest m.rejected

/-- The state of the decoder when these bytes of a character were read. -/
def Inside (seen : List UInt8) : Option Pending → Prop
  | none => seen = []
  | some p => p.Follows seen

theorem Reads.char {c : Char} {n : Nat} {r : Except Malformed (List Char)}
    (hc : String.utf8EncodeChar c = seen) (hn : n = seen.length)
    (h : Reads (valid + n) (c :: done) bytes r) : Reads valid done (seen ++ bytes) r := by
  subst hc hn
  rcases r with m | chars
  · obtain ⟨text, rest, rfl, hm, hbreaks⟩ := h
    refine ⟨c :: text, rest, ?_, ?_, hbreaks⟩
    · rw [List.flatMap_cons, List.append_assoc]
    · rw [hm, List.flatMap_cons, List.length_append, Nat.add_assoc]
  · obtain ⟨text, rfl, rfl⟩ := h
    refine ⟨c :: text, ?_, List.flatMap_cons.symm⟩
    rw [List.reverse_cons, List.append_assoc]
    rfl

theorem Breaks.reads {rejected : Option Nat} (h : Breaks bytes rejected) :
    Reads valid done bytes (.error ⟨valid, rejected⟩) := ⟨[], bytes, rfl, rfl, h⟩

theorem breaks_of_invalid {b : UInt8} (h : lead b.toNat = .invalid) :
    Breaks (b :: rest) (some 1) := by
  refine ⟨Nat.one_pos, by decide, Nat.succ_pos _, .inl rfl, fun hb => ?_⟩
  exact not_begins_of_invalid h (hb.shorter (List.prefix_append [b] (rest.take 1)))

theorem Pending.Follows.breaks {p : Pending} (h : p.Follows seen) {b : UInt8}
    (hb : ¬(p.low ≤ b.toNat ∧ b.toNat ≤ p.high)) : Breaks (seen ++ b :: rest) (some p.seen) := by
  have hpos := List.length_pos_iff.2 h.nonempty
  have hlt := h.length_lt
  rw [← h.length]
  refine ⟨hpos, by omega, ?_, .inr ?_, ?_⟩
  · rw [List.length_append]
    exact Nat.le_add_right _ _
  · rw [List.take_left]
    exact h.begins
  · rw [List.take_length_add_append]
    exact h.rejects hb

/-- **What reading comes to**, by induction on the bytes that are left. -/
theorem scan_reads {state : Option Pending} (h : Inside seen state) (bytes : List UInt8) :
    Reads valid done (seen ++ bytes) (scan valid done state bytes) := by
  induction bytes generalizing valid done state seen with
  | nil =>
    rcases state with _ | p
    · obtain rfl : seen = [] := h
      exact ⟨[], (List.append_nil _).symm, rfl⟩
    · have h : p.Follows seen := h
      have hbreaks : Breaks seen none := ⟨h.nonempty, h.begins⟩
      rw [List.append_nil]
      exact hbreaks.reads
  | cons b rest ih =>
    rcases state with _ | p
    · obtain rfl : seen = [] := h
      rw [scan, List.nil_append]
      rcases hlead : lead b.toNat with _ | p | _
      · have hnone : Inside [] none := rfl
        exact Reads.char (utf8EncodeChar_of_whole hlead) rfl (ih hnone)
      · have hp : Inside [b] (some p) := (opens_of_lead hlead).follows hlead
        exact ih hp
      · exact (breaks_of_invalid hlead).reads
    · have h : p.Follows seen := h
      rw [scan]
      by_cases hb : p.low ≤ b.toNat ∧ b.toNat ≤ p.high
      · rw [if_pos hb, List.append_cons]
        rcases hleft : p.left with _ | left
        · have hlength : p.seen + 1 = (seen ++ [b]).length := by
            rw [List.length_append, List.length_singleton, h.length]
          have hnone : Inside [] none := rfl
          exact Reads.char (h.finish hleft hb) hlength (ih hnone)
        · have hp : Inside (seen ++ [b]) (some _) := h.step hleft hb
          exact ih hp
      · rw [if_neg hb]
        exact (h.breaks hb).reads

/-- Between characters, nothing was read of the next one. -/
theorem scan_none_reads (valid : Nat) (done : List Char) (bytes : List UInt8) :
    Reads valid done bytes (scan valid done none bytes) := by
  have hnone : Inside [] none := rfl
  exact scan_reads hnone bytes

/-! ## Decoding -/

/-- A refusal tells where the fault is and what it is: `accepted` is the length of the longest start of
the bytes that is a text, and `rejected` says why no character can be read behind it. -/
structure Malformed.Locates (m : Malformed) (bytes : List UInt8) : Prop where
  whole : ∃ text, encode text = bytes.take m.accepted
  longest : ∀ text, encode text <+: bytes → (encode text).length ≤ m.accepted
  breaks : Breaks (bytes.drop m.accepted) m.rejected

theorem Breaks.unique {r s : Option Nat} (h : Breaks rest r) (h' : Breaks rest s) : r = s := by
  -- what a character may start with, so may every shorter start
  have hshorter : ∀ {n k : Nat}, n < k → (k = 1 ∨ Begins (rest.take k)) → 0 < n →
      Begins (rest.take (n + 1)) := by
    intro n k hlt hk hpos
    rcases hk with rfl | hk
    · omega
    · exact hk.shorter (List.take_prefix_take_left (Nat.succ_le_of_lt hlt))
  rcases r with _ | n <;> rcases s with _ | k
  · rfl
  · exact absurd (h.2.shorter (List.take_prefix _ _)) h'.2.2.2.2
  · exact absurd (h'.2.shorter (List.take_prefix _ _)) h.2.2.2.2
  · obtain ⟨hn, -, -, hbegins, hnot⟩ := h
    obtain ⟨hk, -, -, hbegins', hnot'⟩ := h'
    rcases Nat.lt_trichotomy n k with hlt | rfl | hlt
    · exact absurd (hshorter hlt hbegins' hn) hnot
    · rfl
    · exact absurd (hshorter hlt hbegins hk) hnot'

theorem Breaks.ne_nil {r : Option Nat} (h : Breaks rest r) : rest ≠ [] := by
  rcases r with _ | n
  · exact h.1
  · obtain ⟨hpos, -, hle, -⟩ := h
    exact List.ne_nil_of_length_pos (Nat.lt_of_lt_of_le hpos hle)

namespace Malformed.Locates

variable {m m' : Malformed}

theorem accepted_lt (h : m.Locates bytes) : m.accepted < bytes.length := by
  have hpos := List.length_pos_iff.2 h.breaks.ne_nil
  rw [List.length_drop] at hpos
  omega

theorem accepted_le (h : m.Locates bytes) (h' : m'.Locates bytes) : m.accepted ≤ m'.accepted := by
  obtain ⟨text, htext⟩ := h.whole
  have hle := h'.longest text (htext ▸ List.take_prefix _ _)
  rwa [htext, List.length_take, Nat.min_eq_left (Nat.le_of_lt h.accepted_lt)] at hle

/-- There is only one fault to tell of. -/
theorem unique (h : m.Locates bytes) (h' : m'.Locates bytes) : m = m' := by
  have haccepted := Nat.le_antisymm (h.accepted_le h') (h'.accepted_le h)
  have hrejected := h.breaks
  rw [haccepted] at hrejected
  have hrejected := hrejected.unique h'.breaks
  cases m
  cases m'
  simp_all

end Malformed.Locates

theorem decode_encode (text : String) : decode (encode text) = .ok text := by
  have hscan : scan 0 [] none (encode text ++ []) = scan _ (text.toList.reverse ++ []) none [] :=
    scan_chars text.toList
  rw [List.append_nil] at hscan
  rw [decode, hscan, List.append_nil]
  simp only [scan, List.reverse_reverse, Except.map, String.ofList_toList]

theorem encode_ofList (text : List Char) :
    encode (String.ofList text) = text.flatMap String.utf8EncodeChar := by
  rw [encode, String.toList_ofList]

/-- **A text is decoded from its bytes**, and from no others. -/
theorem decode_eq_ok_iff {text : String} : decode bytes = .ok text ↔ encode text = bytes := by
  constructor
  · intro h
    have hreads := scan_none_reads 0 [] bytes
    rw [decode] at h
    rcases hscan : scan 0 [] none bytes with m | chars <;> rw [hscan] at h hreads
    · cases h
    · obtain ⟨chars, rfl, rfl⟩ := hreads
      cases h
      exact encode_ofList chars
  · rintro rfl
    exact decode_encode text

/-- Behind whole characters, what is accepted are these and perhaps more. -/
theorem length_le_accepted {text : String} {m : Malformed} (h : encode text <+: bytes)
    (hscan : scan 0 [] none bytes = .error m) : (encode text).length ≤ m.accepted := by
  obtain ⟨rest, rfl⟩ := h
  rw [encode, scan_chars] at hscan
  have hreads := scan_none_reads (0 + (encode text).length) (text.toList.reverse ++ []) rest
  rw [encode, hscan] at hreads
  obtain ⟨_, _, -, haccepted, -⟩ := hreads
  rw [encode]
  omega

/-- **A refusal locates the fault**, and where there is one it is located. -/
theorem decode_eq_error_iff {m : Malformed} : decode bytes = .error m ↔ m.Locates bytes := by
  have hlocates : ∀ m, decode bytes = .error m → m.Locates bytes := by
    intro m h
    have hreads := scan_none_reads 0 [] bytes
    rw [decode] at h
    rcases hscan : scan 0 [] none bytes with m' | chars <;> rw [hscan] at h hreads
    · cases h
      have hlongest : ∀ text, encode text <+: bytes → (encode text).length ≤ m.accepted :=
        fun _ h => length_le_accepted h hscan
      obtain ⟨text, rest, rfl, haccepted, hbreaks⟩ := hreads
      rw [Nat.zero_add] at haccepted
      refine ⟨⟨String.ofList text, ?_⟩, hlongest, ?_⟩
      · rw [haccepted, List.take_left, encode_ofList]
      · rwa [haccepted, List.drop_left]
    · cases h
  refine ⟨hlocates m, fun h => ?_⟩
  rcases hdecode : decode bytes with m' | text
  · rw [(hlocates m' hdecode).unique h]
  · have hle := h.longest text (decode_eq_ok_iff.1 hdecode ▸ List.prefix_refl _)
    rw [decode_eq_ok_iff.1 hdecode] at hle
    exact absurd h.accepted_lt (Nat.not_lt.2 hle)

end PacketMemory.Utf8
