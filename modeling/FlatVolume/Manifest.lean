import FlatVolume.Fault
import FlatVolume.Path
import FlatVolume.Word

/-!
# Manifests

What is declared about the files of a volume: their paths and lengths, in
order. A manifest that lists no file declares a single one by its own name and
length, so that there is always at least one file.
-/

namespace FlatVolume

structure DeclaredFile where
  path : List String
  length : Nat
  md5sum : Option String
  deriving DecidableEq, Repr

namespace DeclaredFile

/-- The path as logs and errors show it. -/
def displayPath (file : DeclaredFile) : String :=
  Path.display file.path

end DeclaredFile

structure Manifest where
  name : String
  /-- Length of the only file, where none is listed. -/
  length : Nat
  /-- Checksum of the only file, where none is listed. -/
  md5sum : Option String
  listed : List DeclaredFile
  deriving DecidableEq, Repr

namespace Manifest

/-- A manifest of one file named `name`. -/
def single (name : String) (length : Nat) : Manifest :=
  ⟨name, length, none, []⟩

/-- A manifest of the listed files. -/
def multi (name : String) (listed : List DeclaredFile) : Manifest :=
  ⟨name, 0, none, listed⟩

def listsFiles (m : Manifest) : Bool :=
  !m.listed.isEmpty

/-- The files of the volume in declaration order. -/
def files (m : Manifest) : List DeclaredFile :=
  if m.listsFiles then m.listed else [⟨[m.name], m.length, m.md5sum⟩]

/-- Adds the lengths up from the left, as long as the sum is a word. -/
def addLengths (total : Nat) : List DeclaredFile → Except Fault Nat
  | [] => .ok total
  | file :: rest =>
    match Word.add? total file.length with
    | some total => addLengths total rest
    | none => .error .overflow

def totalLength (m : Manifest) : Except Fault Nat :=
  addLengths 0 m.files

theorem files_ne_nil (m : Manifest) : m.files ≠ [] := by
  cases h : m.listed <;> simp [files, listsFiles, h]

end Manifest

end FlatVolume
