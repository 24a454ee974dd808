import FlatVolume.Word

/-!
# Layouts

The files of a volume laid end to end: each has a first flat offset and a
length, and together they cover the offsets below the total without gap or
overlap. A layout carries that as a proof, and `find` uses it to search by
halving.
-/

namespace FlatVolume

/-- The stretch of flat offsets that one open file backs. -/
structure Extent (Handle : Type) where
  start : Nat
  length : Nat
  handle : Handle
  deriving DecidableEq, Repr

/-- The extents cover the offsets from `start` up to `stop` in order, each
beginning where the one before it ends. -/
def Tiles {Handle : Type} : (start : Nat) → List (Extent Handle) → (stop : Nat) → Prop
  | start, [], stop => start = stop
  | start, e :: rest, stop => e.start = start ∧ Tiles (start + e.length) rest stop

structure Layout (Handle : Type) where
  extents : List (Extent Handle)
  total : Nat
  tiles : Tiles 0 extents total
  total_lt : total < wordBound

theorem Tiles.append {Handle : Type} {start stop : Nat} {extents : List (Extent Handle)}
    (h : Tiles start extents stop) (length : Nat) (handle : Handle) :
    Tiles start (extents ++ [⟨stop, length, handle⟩]) (stop + length) := by
  induction extents generalizing start with
  | nil =>
    cases h
    exact ⟨rfl, rfl⟩
  | cons e rest ih => exact ⟨h.1, ih h.2⟩

/-- Looks between `low` and `high` for the first position at which `test` fails.
Every step leaves a shorter stretch, so `steps` as many as its length are
enough. -/
def bisect (test : Nat → Bool) : (steps low high : Nat) → Nat
  | 0, low, _ => low
  | steps + 1, low, high =>
    if low < high then
      let middle := low + (high - low) / 2
      if test middle then bisect test steps (middle + 1) high else bisect test steps low middle
    else
      low

/-- The first position below `length` at which `test` fails, or `length` if there is
none, for a test that fails at every position after one at which it fails. -/
def partitionPoint (test : Nat → Bool) (length : Nat) : Nat :=
  bisect test length 0 length

namespace Layout

variable {Handle : Type}

def empty : Layout Handle :=
  ⟨[], 0, rfl, by decide⟩

/-- One more file at the end. -/
def append (layout : Layout Handle) (length : Nat) (handle : Handle)
    (fits : layout.total + length < wordBound) : Layout Handle :=
  ⟨layout.extents ++ [⟨layout.total, length, handle⟩], layout.total + length,
    layout.tiles.append length handle, fits⟩

/-- Takes every file out, in order, and leaves a layout of none. -/
def drain (layout : Layout Handle) : List (Extent Handle) × Layout Handle :=
  (layout.extents, empty)

/-- Whether the extent at `index` starts at or before `offset`. -/
def startsBy (layout : Layout Handle) (offset index : Nat) : Bool :=
  match layout.extents[index]? with
  | some e => e.start ≤ offset
  | none => false

/-- The index of the last extent that starts at or before `offset`. -/
def find (layout : Layout Handle) (offset : Nat) : Nat :=
  partitionPoint (layout.startsBy offset) layout.extents.length - 1

/-- First offset and length of the file at `index`. -/
def span? (layout : Layout Handle) (index : Nat) : Option (Nat × Nat) :=
  layout.extents[index]?.map fun e => (e.start, e.length)

end Layout

end FlatVolume
