import FlatVolume.Checked
import FlatVolume.Gap
import FlatVolume.Program

/-!
# Caches of one range

A cache that serves one fixed range of flat offsets and keeps a record of what
it is told. It hands writes back unless it absorbs them.
-/

namespace FlatVolume.Bench

/-- The bytes from `start` on; their end is still an offset. -/
structure HeldRange where
  start : Nat
  bytes : Bytes
  deriving DecidableEq, Repr

structure RangeCache where
  held : Option HeldRange
  absorbsWrites : Bool
  failsClose : Bool
  /-- Writes, commits and closes so far, in order. -/
  writes : List WriteBack
  committed : List Nat
  closed : Nat
  deriving DecidableEq, Repr

namespace RangeCache

def closeFailure : IoError := ⟨.other, "injected cache close failure"⟩

/-- A cache that holds nothing. -/
def empty : RangeCache :=
  ⟨none, false, false, [], [], 0⟩

/-- A cache that holds `bytes` from `start` on. -/
def holding (start : Nat) (bytes : Bytes) : Except Fault RangeCache :=
  match Word.add? start bytes.length with
  | some _ => .ok { empty with held := some ⟨start, bytes⟩ }
  | none => .error .overflow

/-- Moves `n` into the range from `low` to `high`. -/
def clamp (n low high : Nat) : Except Fault Nat :=
  if low ≤ high then .ok (max low (min n high)) else .error .outOfRange

end RangeCache

/-- Puts the held bytes at the flat offsets from `low` up to `high` where they belong in a
buffer whose first byte is at `offset`, and names what lies before and after them. -/
def HeldRange.fill (range : HeldRange) (buffer : Bytes) (offset low high : Nat) :
    Except Fault (Bytes × List Span) := do
  let first ← Checked.sub low offset
  let last ← Checked.sub high offset
  let source ← Checked.sub low range.start
  let count ← Checked.sub last first
  let stop ← Checked.add source count
  let bytes ← Checked.slice range.bytes source stop
  let filled ← Checked.copy buffer first last bytes
  .ok (filled, [⟨0, first⟩, ⟨last, buffer.length⟩].filter fun s : Span => s.start < s.stop)

namespace RangeCache

/-- Fills in the bytes that the request and the held range share, and names what is left.
There is nothing to fill in where they share none. -/
def serve (c : RangeCache) (buffer : Bytes) (offset : Nat) :
    Except Fault (Option (Bytes × List Span)) :=
  match c.held with
  | none => .ok none
  | some range => do
    let stop ← Checked.add offset buffer.length
    let low ← clamp range.start offset stop
    let high ← clamp (range.start + range.bytes.length) offset stop
    if high ≤ low then
      .ok none
    else
      let filled ← range.fill buffer offset low high
      .ok (some filled)

/-- Serves a request and leaves the rest of it as gaps. A request of which nothing is held is
left whole. -/
def read (c : RangeCache) (buffer : Bytes) (offset : Nat) : CacheReading :=
  match c.serve buffer offset with
  | .error fault => ⟨[], .error fault⟩
  | .ok none => ⟨[], .ok [⟨0, buffer.length, offset⟩]⟩
  | .ok (some (bytes, spans)) => ⟨bytes, Gap.carve buffer.length offset spans⟩

def write (c : RangeCache) (data : Bytes) (offset : Nat) : List WriteBack × RangeCache :=
  (if c.absorbsWrites then [] else [⟨offset, data⟩],
    { c with writes := c.writes ++ [⟨offset, data⟩] })

def markCommitted (c : RangeCache) (piece : Nat) : RangeCache :=
  { c with committed := c.committed ++ [piece] }

def close (c : RangeCache) : Except IoError Unit × RangeCache :=
  (if c.failsClose then .error closeFailure else .ok (), { c with closed := c.closed + 1 })

end RangeCache

end FlatVolume.Bench
