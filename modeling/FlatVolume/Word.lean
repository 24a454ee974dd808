/-!
# Machine words

Offsets, lengths and counts are 64-bit words. They are kept as natural numbers
and the three operations below say what happens at the ends of the range: the
checked ones have no result there, the saturating one stays at the last word.
-/

namespace FlatVolume

/-- The first number that is no longer a word. -/
abbrev wordBound : Nat := UInt64.size

/-- Positions in a plain file or a piece of memory are signed, half as far. -/
abbrev positionBound : Nat := wordBound / 2

namespace Word

/-- The sum, if it is still a word. -/
def add? (a b : Nat) : Option Nat :=
  if a + b < wordBound then some (a + b) else none

/-- The difference, if it does not fall below zero. -/
def sub? (a b : Nat) : Option Nat :=
  if b ≤ a then some (a - b) else none

/-- The sum, or the last word where the sum is past it. -/
def addSat (a b : Nat) : Nat :=
  min (a + b) (wordBound - 1)

theorem add?_eq_some_iff {a b c : Nat} : add? a b = some c ↔ a + b < wordBound ∧ c = a + b := by
  by_cases h : a + b < wordBound <;> simp [add?, h, eq_comm]

theorem add?_eq_none_iff {a b : Nat} : add? a b = none ↔ wordBound ≤ a + b := by
  by_cases h : a + b < wordBound <;> simp [add?, h, Nat.not_le.mpr, Nat.le_of_not_lt]

theorem sub?_eq_some_iff {a b c : Nat} : sub? a b = some c ↔ b ≤ a ∧ c = a - b := by
  by_cases h : b ≤ a <;> simp [sub?, h, eq_comm]

theorem addSat_of_lt {a b : Nat} (h : a + b < wordBound) : addSat a b = a + b :=
  Nat.min_eq_left (Nat.le_sub_one_of_lt h)

end Word

end FlatVolume
