import FlatVolume.Checked
import FlatVolume.Program

/-!
# Transfers

Moving a whole window of bytes from or to one file. A file may move fewer bytes
than it is asked for and may be interrupted; `transfer` asks again until the
window is done, the file moves nothing, or it fails. The count a file reports
is taken at its word, so it can also overshoot the window.
-/

namespace FlatVolume

inductive Direction where
  | reading
  | writing
  deriving DecidableEq, Repr

/-- What a file that moves no byte at all is reported for. -/
def Direction.standstill : Direction → IoError
  | reading => ⟨.unexpectedEof, "file ended before its declared length"⟩
  | writing => ⟨.writeZero, "file accepted no bytes"⟩

/-- The window as a transfer leaves it, the bytes it moved, and why it stopped
if it stopped early. -/
structure Transfer where
  window : Bytes
  moved : Nat
  failure : Option (Failure IoError)
  deriving DecidableEq, Repr

namespace Transfer

variable {Handle Cache : Type}

/-- One request: a read changes the window, a write leaves it. -/
def call (direction : Direction) (handle : Handle) (window : Bytes) (offset : Nat) :
    Program Handle Cache (Bytes × Except (Failure IoError) Nat) :=
  match direction with
  | .reading =>
    .ask (.readHandle handle window offset) fun reply =>
      .done (window.overlay 0 reply.bytes, reply.outcome.mapError .error)
  | .writing =>
    .ask (.writeHandle handle window offset) fun outcome => .done (window, outcome)

def isInterrupted : Except (Failure IoError) Nat → Bool
  | .error (.error e) => e.kind = .interrupted
  | _ => false

/-- One request, repeated while it is interrupted; after `patience` interruptions
the next one is a fault. -/
def attempt (direction : Direction) (handle : Handle) (offset : Nat) :
    (patience : Nat) → (window : Bytes) →
      Program Handle Cache (Bytes × Except (Failure IoError) Nat)
  | 0, window => do
    let (window, outcome) ← call direction handle window offset
    pure (window, if isInterrupted outcome then .error (.fault .stalled) else outcome)
  | patience + 1, window => do
    let (window, outcome) ← call direction handle window offset
    if isInterrupted outcome then attempt direction handle offset patience window
    else pure (window, outcome)

/-- What is left of the window behind its first `done` bytes, and where it belongs in the file. -/
def left (window : Bytes) (offset done : Nat) : Except Fault (Bytes × Nat) := do
  let rest ← Checked.sliceFrom window done
  let place ← Checked.add offset done
  .ok (rest, place)

/-- Goes on from byte `done` of the window. Every attempt that does not end the transfer
moves a byte, so `attempts` as many as there are bytes are enough. -/
def resume (direction : Direction) (patience : Nat) (handle : Handle) (offset : Nat) :
    (attempts done : Nat) → (window : Bytes) → Program Handle Cache Transfer
  | 0, done, window => pure ⟨window, done, none⟩
  | attempts + 1, done, window =>
    if done < window.length then
      match left window offset done with
      | .error fault => pure ⟨window, done, some (.fault fault)⟩
      | .ok (rest, place) => do
        let (rest, outcome) ← attempt direction handle place patience rest
        let window := window.overlay done rest
        match outcome with
        | .error failure => pure ⟨window, done, some failure⟩
        | .ok 0 => pure ⟨window, done, some (.error direction.standstill)⟩
        | .ok count =>
          match Checked.add done count with
          | .error fault => pure ⟨window, done, some (.fault fault)⟩
          | .ok done => resume direction patience handle offset attempts done window
    else
      pure ⟨window, done, none⟩

end Transfer

/-- Moves all of `window` from or to `offset` of a file. -/
def transfer (direction : Direction) (patience : Nat) (handle : Handle) (offset : Nat)
    (window : Bytes) : Program Handle Cache Transfer :=
  Transfer.resume direction patience handle offset window.length 0 window

end FlatVolume
