import FlatVolume.Transfer
import FlatVolume.Volume

/-!
# Reading and writing the files

A request to a volume is a walk over the files whose extents it meets, with one
transfer each. Past the end of the last file a volume reads as zeros and takes
zeros only.
-/

namespace FlatVolume

/-- A buffer as a read leaves it, and the length it reports or why there is none. -/
structure Reading where
  buffer : Bytes
  outcome : Except (Failure VolumeError) Nat
  deriving Repr

/-- How far a walk has come: the buffer, how much of it is moved, and the flat offset to go
on from. What is moved is more than the buffer has where a file has claimed too much. -/
structure Progress where
  buffer : Bytes
  moved : Nat
  offset : Nat
  deriving DecidableEq, Repr

/-- Where a walk ends, and why if it ends early. -/
structure WalkEnd where
  progress : Progress
  failure : Option (Failure VolumeError)
  deriving Repr

namespace Progress

/-- Before the first byte of a request. -/
def start (buffer : Bytes) (offset : Nat) : Progress :=
  ⟨buffer, 0, offset⟩

/-- As many bytes of those that remain as there is space for. More space than a word can say
is enough for all of them. -/
def clamp (remaining space : Nat) : Nat :=
  if space < wordBound then min remaining space else remaining

/-- The place in the file of an extent that is next, and the part of the buffer that the file
backs from there. There is none if the extent does not reach that far. -/
def next {Handle : Type} (p : Progress) (e : Extent Handle) :
    Except Fault (Option (Nat × Bytes)) := do
  let place ← Checked.sub p.offset e.start
  if place < e.length then
    let remaining ← Checked.sub p.buffer.length p.moved
    let space ← Checked.sub e.length place
    let stop ← Checked.add p.moved (clamp remaining space)
    let window ← Checked.slice p.buffer p.moved stop
    .ok (some (place, window))
  else
    .ok none

/-- Takes one transfer into account: where the walk goes on, or how it ends. -/
def advance (p : Progress) (t : Transfer) : Except WalkEnd Progress :=
  let p := { p with buffer := p.buffer.overlay p.moved t.window }
  match t.failure, Word.add? p.moved t.moved, Word.add? p.offset t.moved with
  | some (.fault fault), _, _ => .error ⟨p, some (.fault fault)⟩
  | _, none, _ => .error ⟨p, some (.fault .overflow)⟩
  | some (.error cause), some moved, _ =>
    .error ⟨{ p with moved }, some (.error (.io (Word.addSat p.offset t.moved) moved cause))⟩
  | none, some moved, none => .error ⟨{ p with moved }, some (.fault .overflow)⟩
  | none, some moved, some offset => .ok { p with moved, offset }

end Progress

namespace WalkEnd

/-- Zeros follow what the files had. -/
def reading (w : WalkEnd) : Reading :=
  let p := w.progress
  match w.failure with
  | some failure => ⟨p.buffer, .error failure⟩
  | none =>
    match Checked.sliceFrom p.buffer p.moved with
    | .error fault => ⟨p.buffer, .error (.fault fault)⟩
    | .ok rest => ⟨p.buffer.overlay p.moved (Bytes.zeros rest.length), .ok p.buffer.length⟩

/-- Only zeros may follow what the files took. -/
def writing (w : WalkEnd) : Except (Failure VolumeError) Nat :=
  let p := w.progress
  match w.failure with
  | some failure => .error failure
  | none =>
    match Checked.sliceFrom p.buffer p.moved with
    | .error fault => .error (.fault fault)
    | .ok rest =>
      match rest.findIdx? (· ≠ 0) with
      | none => .ok p.buffer.length
      | some position =>
        match Checked.number p.buffer p.moved position with
        | .error fault => .error (.fault fault)
        | .ok accepted =>
          .error (.error (.nonZeroTrailingData (Word.addSat p.offset position) accepted))

end WalkEnd

namespace Volume

variable {Handle Cache : Type}

/-- Goes on through the given extents, the first of which starts at or before the
offset that is next. -/
def walk (direction : Direction) (patience : Nat) :
    List (Extent Handle) → Progress → Program Handle Cache WalkEnd
  | [], p => pure ⟨p, none⟩
  | e :: rest, p =>
    if p.moved < p.buffer.length then
      match p.next e with
      | .error fault => pure ⟨p, some (.fault fault)⟩
      | .ok none => walk direction patience rest p
      | .ok (some (place, window)) => do
        let t ← transfer direction patience e.handle place window
        match p.advance t with
        | .ok p => walk direction patience rest p
        | .error stop => pure stop
    else
      pure ⟨p, none⟩

/-- The extents that a request at `offset` can meet. -/
def extentsFrom (v : Volume Handle Cache) (offset : Nat) : List (Extent Handle) :=
  v.layout.extents.drop (v.layout.find offset)

/-- Fills `buffer` from the files, starting at `offset`; what lies past the end of the
volume reads as zero. -/
def readFiles (v : Volume Handle Cache) (patience : Nat) (buffer : Bytes) (offset : Nat) :
    Program Handle Cache Reading := do
  let stop ← walk .reading patience (v.extentsFrom offset) (.start buffer offset)
  pure stop.reading

/-- Writes `data` to the files, starting at `offset`; what lies past the end of the
volume has to be zero. -/
def writeFiles (v : Volume Handle Cache) (patience : Nat) (data : Bytes) (offset : Nat) :
    Program Handle Cache (Except (Failure VolumeError) Nat) := do
  let stop ← walk .writing patience (v.extentsFrom offset) (.start data offset)
  pure stop.writing

end Volume

end FlatVolume
