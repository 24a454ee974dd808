import FlatVolume.Path

/-!
# Steps of a path text

What is left of a path text without the parts that lead nowhere: the empty ones
between two slashes and the single dots. A step keeps the place at which it ends
in the text, because what is limited is the length of a text and not the number
of its steps.
-/

namespace FlatVolume.Path

/-- A part of a path text that leads somewhere, and the number of bytes up to its end. -/
structure Step where
  name : String
  stop : Nat
  deriving DecidableEq, Repr

/-- Whether a part of a path text leads somewhere. -/
def isStep (part : String) : Bool :=
  part ≠ "" && part ≠ "."

/-- The steps among the parts of a text from byte `start` on, with a slash between each two
parts. -/
def stepsFrom : (start : Nat) → (parts : List String) → List Step
  | _, [] => []
  | start, part :: rest =>
    let stop := start + part.utf8ByteSize
    let later := stepsFrom (stop + 1) rest
    if isStep part then ⟨part, stop⟩ :: later else later

def steps (text : String) : List Step :=
  stepsFrom 0 (split text)

/-- Whether the last part of a text is a step. A text that ends in a slash or a dot can
only name a directory. -/
def endsInStep (text : String) : Bool :=
  (split text).getLast?.any isStep

theorem map_name_stepsFrom (start : Nat) (parts : List String) :
    (stepsFrom start parts).map Step.name = parts.filter isStep := by
  induction parts generalizing start with
  | nil => rfl
  | cons part rest ih =>
    rw [stepsFrom]
    split <;> rename_i h <;> simp [h, ih]

/-- The names of the steps are the parts that lead somewhere. -/
theorem map_name_steps (text : String) :
    (steps text).map Step.name = (split text).filter isStep :=
  map_name_stepsFrom 0 (split text)

end FlatVolume.Path
