import FlatVolume.Bytes
import FlatVolume.Fault
import FlatVolume.Word

/-!
# Read gaps and write-backs

What a cache leaves to the files: the parts of a read that it does not hold,
and the ranges of bytes that it wants stored. `carve` cuts the gaps of a read
out of its buffer.
-/

namespace FlatVolume

/-- A part of a read buffer that is still to be read, and the flat offset its
bytes are at. -/
structure Gap where
  position : Nat
  length : Nat
  offset : Nat
  deriving DecidableEq, Repr

/-- Bytes to be stored from a flat offset on. -/
structure WriteBack where
  offset : Nat
  data : Bytes
  deriving DecidableEq, Repr

/-- Positions `start` up to but not including `stop` of a buffer. -/
structure Span where
  start : Nat
  stop : Nat
  deriving DecidableEq, Repr

/-- A part of a buffer that may be given away: `length` positions from `position` on. -/
structure Slice where
  position : Nat
  length : Nat
  deriving DecidableEq, Repr

namespace Slice

/-- All of a buffer. -/
def whole (length : Nat) : Slice :=
  ⟨0, length⟩

/-- The first `n` positions, and those behind them. -/
def splitAt (s : Slice) (n : Nat) : Except Fault (Slice × Slice) :=
  if n ≤ s.length then .ok (⟨s.position, n⟩, ⟨s.position + n, s.length - n⟩)
  else .error .outOfRange

theorem splitAt_of_le {s : Slice} {n : Nat} (h : n ≤ s.length) :
    s.splitAt n = .ok (⟨s.position, n⟩, ⟨s.position + n, s.length - n⟩) :=
  if_pos h

theorem splitAt_of_lt {s : Slice} {n : Nat} (h : s.length < n) : s.splitAt n = .error .outOfRange :=
  if_neg (Nat.not_le.mpr h)

end Slice

namespace Gap

/-- Cuts the gap of a span out of `rest`, all of the buffer behind position `reached`; `offset`
belongs to the first byte of the buffer. Gives the gap, and what is left behind it. -/
def cut (offset : Nat) (rest : Slice) (reached : Nat) (span : Span) : Except Fault (Gap × Slice) :=
  if reached ≤ span.start ∧ span.start ≤ span.stop then do
    let (_, tail) ← rest.splitAt (span.start - reached)
    let (slice, tail) ← tail.splitAt (span.stop - span.start)
    match Word.add? offset span.start with
    | none => .error .overflow
    | some place => .ok (⟨slice.position, slice.length, place⟩, tail)
  else
    .error .unsortedGaps

/-- Cuts one gap after the other out of what is left. -/
def cutAll (offset : Nat) : (rest : Slice) → (reached : Nat) → List Span → Except Fault (List Gap)
  | _, _, [] => .ok []
  | rest, reached, span :: spans => do
    let (gap, tail) ← cut offset rest reached span
    let gaps ← cutAll offset tail span.stop spans
    .ok (gap :: gaps)

/-- The gaps that `spans` name in a buffer whose first byte belongs at `offset`.
The spans are in order and disjoint, and end inside the buffer. -/
def carve (length offset : Nat) (spans : List Span) : Except Fault (List Gap) :=
  cutAll offset (.whole length) 0 spans

/-- Writes through the gaps: each is filled with its bytes, in the order of the list. -/
def fill (buffer : Bytes) : List (Gap × Bytes) → Bytes
  | [] => buffer
  | (gap, data) :: rest => fill (buffer.overlay gap.position (data.take gap.length)) rest

/-- Each gap with its number to fill it with, counted on from `number`. A number is
written as a byte, so there has to be a byte for it. -/
def numbered (number : Nat) : List Gap → Except Fault (List (Gap × Bytes))
  | [] => .ok []
  | gap :: rest =>
    if number < UInt8.size then
      match numbered (number + 1) rest with
      | .ok more => .ok ((gap, List.replicate gap.length (UInt8.ofNat number)) :: more)
      | .error fault => .error fault
    else
      .error .overflow

end Gap

end FlatVolume
