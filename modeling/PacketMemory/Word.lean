import PacketMemory.Action

/-!
# Machine words

Indices and lengths are natural numbers, kept below 2⁶⁴ by the operations on them. A sum that
is allowed to fail is `Word.add?`; `Word.add` and `Word.sub` are the operations a program takes
for granted, and trap where the machine would run over.
-/

namespace PacketMemory

namespace Word

/-- The first number that does not fit a word. -/
def limit : Nat := 1 <<< 64

/-- The sum, if it fits a word. -/
def add? (a b : Nat) : Option Nat := if a + b < limit then some (a + b) else none

variable {σ ε : Type}

/-- The sum, which has to fit a word. -/
def add (a b : Nat) : Action σ ε Nat := Action.expect .overflow (add? a b)

/-- The difference, which must not be negative. -/
def sub (a b : Nat) : Action σ ε Nat :=
  if b ≤ a then Action.pure (a - b) else Action.trap .underflow

@[simp] theorem add_of_lt {a b : Nat} (h : a + b < limit) :
    (add a b : Action σ ε Nat) = pure (a + b) := by
  simp [add, add?, h]

@[simp] theorem sub_of_le {a b : Nat} (h : b ≤ a) :
    (sub a b : Action σ ε Nat) = pure (a - b) := if_pos h

theorem add?_eq_some_iff {a b c : Nat} : add? a b = some c ↔ a + b < limit ∧ c = a + b := by
  unfold add?
  split
  · simp [*, eq_comm]
  · simp [*]

end Word

end PacketMemory
