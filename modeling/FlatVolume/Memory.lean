import FlatVolume.Contents
import FlatVolume.Fault
import FlatVolume.Path
import FlatVolume.Table
import FlatVolume.Word

/-!
# Files in memory

A namespace of files, found by their displayed path. A handle is that path:
files are never removed and never get shorter.
-/

namespace FlatVolume

structure Memory where
  files : Table String Contents

namespace Memory

def empty : Memory :=
  ⟨[]⟩

def find? (m : Memory) (key : String) : Option Contents :=
  m.files.get? key

def contains (m : Memory) (key : String) : Bool :=
  (m.find? key).isSome

/-- Number of files. -/
def size (m : Memory) : Nat :=
  m.files.length

/-- What a file holds, nothing if it does not exist. -/
def file (m : Memory) (key : String) : Contents :=
  (m.find? key).getD .empty

/-- The bytes of a file, if it exists. -/
def contents? (m : Memory) (key : String) : Option Bytes :=
  (m.find? key).map Contents.toBytes

/-- The bytes of a file, none for one that does not exist. -/
def bytes (m : Memory) (key : String) : Bytes :=
  (m.file key).toBytes

def put (m : Memory) (key : String) (contents : Contents) : Memory :=
  ⟨m.files.set key contents⟩

/-- Opens a file, creating it empty, and gives it at least the declared length. One
that cannot get that long stays as it is. -/
def openFile (m : Memory) (path : List String) (length : Nat) :
    Except (Failure IoError) String × Memory :=
  match Path.check path with
  | .error e => (.error (.error e), m)
  | .ok () =>
    let key := Path.display path
    let contents := m.file key
    if contents.size < length ∧ positionBound ≤ length then
      (.error (.fault .capacity), m.put key contents)
    else
      (.ok key, m.put key (contents.extend length))

/-- The bytes a read finds, fewer than it asks for where the file ends. -/
def read (m : Memory) (key : String) (length offset : Nat) : Bytes :=
  (m.file key).read offset length

/-- Writes all of `data`; the file grows to where it ends, with zeros in between. -/
def write (m : Memory) (key : String) (data : Bytes) (offset : Nat) :
    Except Fault Nat × Memory :=
  match Word.add? offset data.length with
  | none => (.error .overflow, m)
  | some stop =>
    let contents := m.file key
    if contents.size < stop ∧ positionBound ≤ stop then
      (.error .capacity, m)
    else
      (.ok data.length, m.put key (contents.write offset data))

theorem find?_put (m : Memory) (key key' : String) (contents : Contents) :
    (m.put key contents).find? key' = if key = key' then some contents else m.find? key' := by
  simp [put, find?, Table.get?_set]

theorem contents?_put (m : Memory) (key key' : String) (contents : Contents) :
    (m.put key contents).contents? key' =
      if key = key' then some contents.toBytes else m.contents? key' := by
  rw [contents?, find?_put]
  split <;> rfl

theorem bytes_eq (m : Memory) (key : String) : m.bytes key = (m.contents? key).getD [] := by
  rw [bytes, file, contents?]
  cases m.find? key <;> rfl

theorem read_eq (m : Memory) (key : String) (length offset : Nat) :
    m.read key length offset = (m.bytes key).window offset length :=
  Contents.read_eq _ _ _

end Memory

end FlatVolume
