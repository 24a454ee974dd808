import FlatVolume.VolumeError

/-!
# Faults

What ends an operation without an answer. Errors are reported and leave the
caller in charge; a fault means that a rule of use was broken or that data
would be lost.
-/

namespace FlatVolume

inductive Fault where
  /-- An offset or a count left the range of words. -/
  | overflow
  /-- A range ran backwards or past the end of its buffer, or had not the length of what was to
  be put there. -/
  | outOfRange
  /-- A file in memory was to grow longer than memory can hold. -/
  | capacity
  /-- Spans for read gaps overlap, run backwards or are out of order. -/
  | unsortedGaps
  /-- A piece could not be stored, and the cache may no longer hold it. -/
  | commitFailed (piece : Nat) (cause : VolumeError)
  /-- A transfer was interrupted more often in a row than it had patience for. -/
  | stalled
  deriving DecidableEq, Repr

/-- The text of a fault that says what went wrong. -/
def Fault.message? : Fault → Option String
  | unsortedGaps => some "read gaps must be sorted and disjoint"
  | commitFailed piece cause =>
    some ("error committing piece " ++ toString piece ++ " to storage: " ++ cause.message)
  | overflow | outOfRange | capacity | stalled => none

/-- Why an operation has no result. -/
inductive Failure (ε : Type) where
  | error (e : ε)
  | fault (f : Fault)
  deriving DecidableEq, Repr

end FlatVolume
