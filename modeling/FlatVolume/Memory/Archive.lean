import FlatVolume.Memory

/-!
# Archives

Namespaces of files in memory, one to each directory name. A directory that is
asked for again gives the namespace it gave before.
-/

namespace FlatVolume

structure Archive where
  memories : Table String Memory

namespace Archive

def empty : Archive :=
  ⟨[]⟩

/-- The namespace of a directory, if it has been made. -/
def find? (a : Archive) (directory : String) : Option Memory :=
  a.memories.get? directory

def put (a : Archive) (directory : String) (m : Memory) : Archive :=
  ⟨a.memories.set directory m⟩

/-- Makes the namespace of a directory if there is none. -/
def require (a : Archive) (directory : String) : Except IoError Unit × Archive :=
  match Path.checkComponent directory with
  | .error e => (.error e, a)
  | .ok () =>
    match a.find? directory with
    | some _ => (.ok (), a)
    | none => (.ok (), a.put directory .empty)

end Archive

end FlatVolume
