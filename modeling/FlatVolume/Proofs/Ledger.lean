import FlatVolume.Bench.Session
import Mathlib.Data.Finset.Card
import Mathlib.Data.Finset.Image
import Mathlib.Logic.Function.Basic

/-!
# A ledger of namespaces

What a provider in memory has given out, told without tables and shared state: which directories
were made, which paths were opened in each, and the bytes under every directory and path. Whatever
is asked of the provider, of its systems or of open files is answered from the ledger alone.
-/

namespace FlatVolume.Bench

/-- What is asked of a provider in memory, of the systems that it gave and of files that were opened
on them. -/
inductive Errand where
  | make (directory name : String)
  | find (directory name : String)
  | share (other name : String)
  | openFile (system : String) (path : List String) (length : Nat) (file : String)
  | read (file : String) (offset length : Nat)
  | write (file : String) (offset : Nat) (data : Bytes)
  | close (file : String)
  | contents (system text : String)
  | contains (system text : String)
  | size (system : String)

namespace Errand

def step (provider : String) : Errand → Step
  | make directory name => .newSystem provider directory name
  | find directory name => .findSystem provider directory name
  | share other name => .makeSystem name (.sharing other)
  | openFile system path length file => .openHandle system path length file
  | read file offset length => .readHandle file offset length
  | write file offset data => .writeHandle file offset data
  | close file => .closeHandle file
  | contents system text => .contents system text
  | contains system text => .contains system text
  | size system => .size system

/-- No file gets too long to be held. -/
def Fits : Errand → Prop
  | openFile _ _ length _ => length < positionBound
  | write _ offset data => offset + data.length < positionBound
  | _ => True

def Writes : Errand → Prop
  | write _ _ _ => True
  | _ => False

end Errand

structure Ledger where
  /-- The directory that the system of a name is for. -/
  systems : String → Option String
  /-- The directory and the path that the open file of a name is for. -/
  files : String → Option (String × List String)
  /-- The directories that were made. -/
  made : List String
  /-- The directory and the path of every opening that succeeded. -/
  opened : List (String × List String)
  contents : String → List String → Option Bytes

namespace Ledger

def empty : Ledger :=
  ⟨fun _ => none, fun _ => none, [], [], fun _ _ => none⟩

/-- The distinct paths that were opened in a directory. -/
def paths (l : Ledger) (directory : String) : Finset (List String) :=
  ((l.opened.filter fun o => o.1 = directory).map Prod.snd).toFinset

def bytes (l : Ledger) (directory : String) (path : List String) : Bytes :=
  (l.contents directory path).getD []

def bind (l : Ledger) (name directory : String) : Ledger :=
  { l with systems := Function.update l.systems name (some directory) }

def put (l : Ledger) (directory : String) (path : List String) (bytes : Bytes) : Ledger :=
  { l with
    contents := fun directory' path' =>
      if (directory', path') = (directory, path) then some bytes else l.contents directory' path' }

/-- A file is opened with at least its declared length, with zeros behind what it had. -/
def enter (l : Ledger) (directory : String) (path : List String) (length : Nat) (file : String) :
    Ledger :=
  { l.put directory path ((l.bytes directory path).extend length) with
    files := Function.update l.files file (some (directory, path))
    opened := (directory, path) :: l.opened }

def perform (l : Ledger) : Errand → Answer × Ledger
  | .make directory name =>
    match Path.checkComponent directory with
    | .error e => (.ioError e, l)
    | .ok () => (.done, { l with made := directory :: l.made }.bind name directory)
  | .find directory name =>
    if directory ∈ l.made then (.found true, l.bind name directory) else (.found false, l)
  | .share other name =>
    match l.systems other with
    | none => (.unknown .system other, l)
    | some directory => (.done, l.bind name directory)
  | .openFile system path length file =>
    match l.systems system with
    | none => (.unknown .system system, l)
    | some directory =>
      match Path.check path with
      | .error e => (.ioError e, l)
      | .ok () => (.done, l.enter directory path length file)
  | .read file offset length =>
    match l.files file with
    | none => (.unknown .file file, l)
    | some (directory, path) =>
      let found := (l.bytes directory path).window offset length
      (.fileReading (found ++ List.replicate (length - found.length) Session.filler)
        (.ok found.length), l)
  | .write file offset data =>
    match l.files file with
    | none => (.unknown .file file, l)
    | some (directory, path) =>
      let grown := (l.bytes directory path).extend (offset + data.length)
      (.moved data.length, l.put directory path (grown.overlay offset data))
  | .close file =>
    match l.files file with
    | none => (.unknown .file file, l)
    | some _ => (.done, { l with files := Function.update l.files file none })
  | .contents system text =>
    match l.systems system with
    | none => (.unknown .system system, l)
    | some directory => (.contents (l.contents directory (Path.split text)), l)
  | .contains system text =>
    match l.systems system with
    | none => (.unknown .system system, l)
    | some directory => (.contains (l.contents directory (Path.split text)).isSome, l)
  | .size system =>
    match l.systems system with
    | none => (.unknown .system system, l)
    | some directory => (.size (l.paths directory).card, l)

def performAll (l : Ledger) : List Errand → List Answer × Ledger
  | [] => ([], l)
  | errand :: rest =>
    let (answer, l) := l.perform errand
    let (answers, l) := l.performAll rest
    (answer :: answers, l)

/-- The directory and the path whose bytes an errand is about. -/
def target? (l : Ledger) : Errand → Option (String × List String)
  | .openFile system path _ _ => (l.systems system).map fun directory => (directory, path)
  | .write file _ _ => l.files file
  | _ => none

variable {l : Ledger}

theorem contents_put (l : Ledger) (directory : String) (path : List String) (bytes : Bytes)
    (directory' : String) (path' : List String) :
    (l.put directory path bytes).contents directory' path' =
      if (directory', path') = (directory, path) then some bytes
      else l.contents directory' path' := rfl

theorem bytes_eq (l : Ledger) {directory : String} {path : List String} {bytes : Bytes}
    (h : l.contents directory path = some bytes) : l.bytes directory path = bytes := by
  rw [Ledger.bytes, h, Option.getD_some]

@[simp] theorem mem_paths {directory : String} {path : List String} :
    path ∈ l.paths directory ↔ (directory, path) ∈ l.opened := by
  simp [paths]

/-- What an errand is not about stays as it is. -/
theorem contents_perform (l : Ledger) (errand : Errand) {directory : String} {path : List String}
    (h : l.target? errand ≠ some (directory, path)) :
    (l.perform errand).2.contents directory path = l.contents directory path := by
  cases errand with
  | make directory' name =>
    rw [perform]
    split <;> rfl
  | find directory' name =>
    rw [perform]
    split <;> rfl
  | openFile system path' length file =>
    rw [perform]
    rw [target?] at h
    split
    · rfl
    · rename_i directory' hsystem
      rw [hsystem] at h
      split
      · rfl
      · refine (l.contents_put directory' path' _ directory path).trans ?_
        rw [if_neg]
        rintro ⟨⟩
        exact h rfl
  | write file offset data =>
    rw [perform]
    rw [target?] at h
    split
    · rfl
    · rename_i directory' path' hfile
      rw [hfile] at h
      refine (l.contents_put directory' path' _ directory path).trans ?_
      rw [if_neg]
      rintro ⟨⟩
      exact h rfl
  | share | read | close | contents | contains | size =>
    rw [perform]
    split <;> rfl

/-- Nothing but a write changes a byte, and nothing makes a file shorter. -/
theorem contents_perform_grows (l : Ledger) {errand : Errand} (h : ¬ errand.Writes)
    {directory : String} {path : List String} {bytes : Bytes}
    (hbytes : l.contents directory path = some bytes) :
    ∃ length, (l.perform errand).2.contents directory path = some (bytes.extend length) := by
  have hsame : l.contents directory path = some (bytes.extend 0) := by
    rw [Bytes.extend_of_le (Nat.zero_le _)]
    exact hbytes
  by_cases htarget : l.target? errand = some (directory, path)
  · cases errand with
    | openFile system path' length file =>
      rw [target?, Option.map_eq_some_iff] at htarget
      obtain ⟨directory', hsystem, heq⟩ := htarget
      cases heq
      rw [perform, hsystem]
      dsimp only
      split
      · exact ⟨0, hsame⟩
      · refine ⟨length, ?_⟩
        refine (l.contents_put directory path _ directory path).trans ?_
        rw [if_pos rfl, l.bytes_eq hbytes]
    | write file offset data => exact absurd trivial h
    | make | find | share | read | close | contents | contains | size => cases htarget
  · rw [l.contents_perform errand htarget]
    exact ⟨0, hsame⟩

theorem mem_made_perform (l : Ledger) (errand : Errand) (directory : String) :
    directory ∈ (l.perform errand).2.made ↔ directory ∈ l.made ∨
      Path.isComponent directory = true ∧ ∃ name, errand = .make directory name := by
  cases errand with
  | make directory' name =>
    rw [perform]
    by_cases hvalid : Path.isComponent directory' = true
    · rw [Path.checkComponent_eq_ok_iff.mpr hvalid]
      change directory ∈ directory' :: l.made ↔ _
      rw [List.mem_cons]
      constructor
      · rintro (rfl | hmade)
        · exact .inr ⟨hvalid, name, rfl⟩
        · exact .inl hmade
      · rintro (hmade | ⟨-, _, heq⟩)
        · exact .inr hmade
        · cases heq
          exact .inl rfl
    · rw [Path.checkComponent, if_neg hvalid]
      dsimp only
      constructor
      · exact .inl
      · rintro (hmade | ⟨hvalid', _, heq⟩)
        · exact hmade
        · cases heq
          exact absurd hvalid' hvalid
  | find directory' name =>
    rw [perform]
    split <;> simp [bind]
  | openFile system path length file =>
    rw [perform]
    split
    · simp
    · split <;> simp [enter, put]
  | share | read | write | close | contents | contains | size =>
    rw [perform]
    split <;> simp [bind, put]

/-- The directories are those that were asked for and not rejected. -/
theorem mem_made_performAll (l : Ledger) (errands : List Errand) (directory : String) :
    directory ∈ (l.performAll errands).2.made ↔ directory ∈ l.made ∨
      Path.isComponent directory = true ∧ ∃ name, Errand.make directory name ∈ errands := by
  induction errands generalizing l with
  | nil => simp [performAll]
  | cons errand rest ih =>
    rw [performAll]
    dsimp only
    rw [ih, mem_made_perform]
    simp only [List.mem_cons, eq_comm, exists_or, and_or_left, or_assoc]

end Ledger

end FlatVolume.Bench
