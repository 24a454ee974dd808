import FlatVolume.Gap
import FlatVolume.Program
import Std.Data.TreeMap

/-!
# Caches of single bytes

A cache that holds any set of bytes by their flat offsets. How it cuts up what
it hands back is set when it is made, and can be at odds with what it holds.
-/

namespace FlatVolume.Bench

/-- What is done with a write. -/
inductive WriteRule where
  /-- Hand it back whole. -/
  | pass
  /-- Hold it. -/
  | absorb
  /-- Forget it. -/
  | discard
  /-- Hand it back in pieces of one length. -/
  | pieces (length : Nat)
  /-- Hold every other piece, from the first on, and hand back the rest. -/
  | alternate (length : Nat)
  /-- Hand back these ranges, whatever is written. -/
  | always (ranges : List WriteBack)
  deriving DecidableEq, Repr

structure ByteCache where
  name : String
  held : Std.TreeMap Nat UInt8
  /-- The spans to leave of every read, in place of the bytes not held. -/
  spans : Option (List Span)
  /-- Offsets to give the first gaps, in place of their own. -/
  gapOffsets : List Nat
  /-- Whether gaps and ranges are handed back last first. -/
  reversed : Bool
  onWrite : WriteRule
  closeFailure : Option IoError

namespace ByteCache

def hold (held : Std.TreeMap Nat UInt8) (range : WriteBack) : Std.TreeMap Nat UInt8 :=
  (range.data.zipIdx range.offset).foldl
    (fun held (byte, offset) => if offset < wordBound then held.insert offset byte else held) held

/-- One more position in front of runs of positions. -/
def joinPosition (position : Nat) : List Span → List Span
  | [] => [⟨position, position + 1⟩]
  | span :: spans =>
    if span.start = position + 1 then ⟨position, span.stop⟩ :: spans
    else ⟨position, position + 1⟩ :: span :: spans

/-- The runs of positions not held, with a flag for each position. -/
def missing (held : List Bool) : List Span :=
  held.zipIdx.foldr
    (fun (isHeld, position) spans => if isHeld then spans else joinPosition position spans) []

/-- The gaps with the given offsets in place of their own, as far as they go. -/
def withOffsets : List Gap → List Nat → List Gap
  | gap :: gaps, offset :: offsets => { gap with offset } :: withOffsets gaps offsets
  | gaps, _ => gaps

/-- Cuts `data` into pieces of `length` bytes, the last one maybe shorter, each at its
own offset, and puts them behind those that are `done`, the last one first. -/
def cutFrom (length : Nat) : (pieces offset : Nat) → (data : Bytes) → (done : List WriteBack) →
    List WriteBack
  | 0, _, _, done => done.reverse
  | _, _, [], done => done.reverse
  | pieces + 1, offset, data, done =>
    cutFrom length pieces (offset + length) (data.drop length) (⟨offset, data.take length⟩ :: done)

/-- The pieces of `length` bytes of `data`, which has its first byte at `offset`. A piece has
at least one byte. -/
def cut (length offset : Nat) (data : Bytes) : List WriteBack :=
  cutFrom (max length 1) data.length offset data []

/-- The elements at even and at odd positions. -/
def alternating {α : Type} (items : List α) : List α × List α :=
  items.foldr (fun a (even, odd) => (a :: odd, even)) ([], [])

def ordered {α : Type} (c : ByteCache) (items : List α) : List α :=
  if c.reversed then items.reverse else items

def read (c : ByteCache) (buffer : Bytes) (offset : Nat) : CacheReading :=
  let found := (List.range buffer.length).map fun i => c.held[offset + i]?
  let spans := c.spans.getD (missing (found.map Option.isSome))
  ⟨List.zipWith (fun byte held => held.getD byte) buffer found,
    (Gap.carve buffer.length offset spans).map fun gaps =>
      c.ordered (withOffsets gaps c.gapOffsets)⟩

def write (c : ByteCache) (data : Bytes) (offset : Nat) : List WriteBack × ByteCache :=
  match c.onWrite with
  | .pass => (c.ordered [⟨offset, data⟩], c)
  | .absorb => ([], { c with held := hold c.held ⟨offset, data⟩ })
  | .discard => ([], c)
  | .pieces length => (c.ordered (cut length offset data), c)
  | .alternate length =>
    let (kept, handedBack) := alternating (cut length offset data)
    (c.ordered handedBack, { c with held := kept.foldl hold c.held })
  | .always ranges => (c.ordered ranges, c)

def close (c : ByteCache) : Except IoError Unit :=
  match c.closeFailure with
  | some e => .error e
  | none => .ok ()

/-- One more byte in front of runs of bytes. -/
def joinByte (offset : Nat) (byte : UInt8) : List WriteBack → List WriteBack
  | [] => [⟨offset, [byte]⟩]
  | run :: runs =>
    if run.offset = offset + 1 then ⟨offset, byte :: run.data⟩ :: runs
    else ⟨offset, [byte]⟩ :: run :: runs

/-- What is held, as runs of consecutive offsets in ascending order. -/
def runs (c : ByteCache) : List WriteBack :=
  c.held.toList.foldr (fun (offset, byte) runs => joinByte offset byte runs) []

end ByteCache

end FlatVolume.Bench
