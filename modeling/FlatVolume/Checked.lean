import FlatVolume.Bytes
import FlatVolume.Fault
import FlatVolume.Word

/-!
# Checked steps

Sums and differences of counts, and parts of a buffer, as an operation takes them on its
way: where there is no such number or no such part, it ends in a fault.
-/

namespace FlatVolume.Checked

def add (a b : Nat) : Except Fault Nat :=
  match Word.add? a b with
  | some sum => .ok sum
  | none => .error .overflow

def sub (a b : Nat) : Except Fault Nat :=
  match Word.sub? a b with
  | some difference => .ok difference
  | none => .error .overflow

/-- Positions `start` up to but not including `stop`. -/
def slice (b : Bytes) (start stop : Nat) : Except Fault Bytes :=
  if start ≤ stop ∧ stop ≤ b.length then .ok (b.window start (stop - start))
  else .error .outOfRange

/-- All positions from `start` on. -/
def sliceFrom (b : Bytes) (start : Nat) : Except Fault Bytes :=
  if start ≤ b.length then .ok (b.drop start) else .error .outOfRange

/-- Puts `new` in place of positions `start` up to `stop`, for which it has to have the
length. -/
def copy (b : Bytes) (start stop : Nat) (new : Bytes) : Except Fault Bytes := do
  let old ← slice b start stop
  if new.length = old.length then .ok (b.overlay start new) else .error .outOfRange

/-- The number of the byte of `b` that comes `n` behind byte `start`. A word can number every
byte of a buffer, however long: only behind its end is there a last number. -/
def number (b : Bytes) (start n : Nat) : Except Fault Nat :=
  if start + n ≤ b.length ∨ start + n < wordBound then .ok (start + n) else .error .overflow

theorem add_of_lt {a b : Nat} (h : a + b < wordBound) : add a b = .ok (a + b) := by
  rw [add, Word.add?_eq_some_iff.mpr ⟨h, rfl⟩]

theorem add_of_le {a b : Nat} (h : wordBound ≤ a + b) : add a b = .error .overflow := by
  rw [add, Word.add?_eq_none_iff.mpr h]

theorem sub_of_le {a b : Nat} (h : b ≤ a) : sub a b = .ok (a - b) := by
  rw [sub, Word.sub?_eq_some_iff.mpr ⟨h, rfl⟩]

theorem slice_of_le {b : Bytes} {start stop : Nat} (hle : start ≤ stop) (h : stop ≤ b.length) :
    slice b start stop = .ok (b.window start (stop - start)) :=
  if_pos ⟨hle, h⟩

theorem sliceFrom_of_le {b : Bytes} {start : Nat} (h : start ≤ b.length) :
    sliceFrom b start = .ok (b.drop start) :=
  if_pos h

theorem sliceFrom_of_lt {b : Bytes} {start : Nat} (h : b.length < start) :
    sliceFrom b start = .error .outOfRange :=
  if_neg (Nat.not_le.mpr h)

theorem copy_of_length {b new : Bytes} {start stop : Nat} (hle : start ≤ stop)
    (h : stop ≤ b.length) (hlength : new.length = stop - start) :
    copy b start stop new = .ok (b.overlay start new) := by
  have hold : (b.window start (stop - start)).length = stop - start := by
    rw [Bytes.length_window]
    omega
  simp only [copy, slice_of_le hle h, bind, Except.bind, hold, hlength, if_true]

theorem number_of_le {b : Bytes} {start n : Nat} (h : start + n ≤ b.length) :
    number b start n = .ok (start + n) :=
  if_pos (.inl h)

end FlatVolume.Checked
