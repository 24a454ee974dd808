import FlatVolume.Contents
import FlatVolume.IoError
import FlatVolume.Path.Steps
import FlatVolume.Table
import FlatVolume.Word

/-!
# Disks

A tree of directories and plain files under one top directory, and what the
system calls on it do and report. A place in the tree goes by the text of the
names that lead to it from the top; the text of the top itself is empty. Which
paths the calls look up at all depends on the system, whatever is on the disk.
-/

namespace FlatVolume

inductive DiskNode where
  | directory
  | file (contents : Contents)

abbrev Location := String

/-- The place of an entry of a directory. -/
def Location.entry (place : Location) (name : String) : Location :=
  if place = "" then name else place ++ "/" ++ name

/-- Which paths a system looks up. A length without a limit is `none`. -/
structure DiskLimits where
  /-- Longest name of an entry, in bytes. -/
  name : Option Nat
  /-- Longest text of a path, in bytes. -/
  path : Option Nat
  /-- Whether there may be a NUL in a name. -/
  nul : Bool
  deriving DecidableEq, Repr

namespace DiskLimits

/-- Every path is looked up. -/
def unlimited : DiskLimits :=
  ⟨none, none, true⟩

def usual : DiskLimits :=
  ⟨some 255, some 4095, false⟩

def takesName (limits : DiskLimits) (name : String) : Bool :=
  limits.name.all (name.utf8ByteSize ≤ ·)

def takesText (limits : DiskLimits) (size : Nat) : Bool :=
  limits.path.all (size ≤ ·)

def takesChars (limits : DiskLimits) (name : String) : Bool :=
  limits.nul || !name.toList.contains '\x00'

end DiskLimits

structure Disk (limits : DiskLimits) where
  nodes : Table Location DiskNode

namespace Disk

variable {limits : DiskLimits}

def empty : Disk limits :=
  ⟨[]⟩

def noSuchEntry : IoError := ⟨.notFound, "No such file or directory (os error 2)"⟩
def entryExists : IoError := ⟨.alreadyExists, "File exists (os error 17)"⟩
def notADirectory : IoError := ⟨.notADirectory, "Not a directory (os error 20)"⟩
def isADirectory : IoError := ⟨.isADirectory, "Is a directory (os error 21)"⟩
def invalidRange : IoError := ⟨.invalidInput, "Invalid argument (os error 22)"⟩
def nameTooLong : IoError := ⟨.invalidFilename, "File name too long (os error 36)"⟩
def nulInPath : IoError := ⟨.invalidInput, "file name contained an unexpected NUL byte"⟩
def lengthTooLarge : IoError := ⟨.invalidInput, "number too large to fit in target type"⟩

def node? (d : Disk limits) (place : Location) : Option DiskNode :=
  if place = "" then some .directory else d.nodes.get? place

def put (d : Disk limits) (place : Location) (node : DiskNode) : Disk limits :=
  ⟨d.nodes.set place node⟩

/-- Takes steps from the last of the places that have been `entered`, which come last one
first; without any it is the top, which is its own parent. Every place that is stepped
from is a directory; where the last step leads need not exist. -/
def follow (d : Disk limits) (entered : List Location) : List String → Except IoError Location
  | [] => .ok (entered.headD "")
  | step :: rest =>
    let place := entered.headD ""
    match d.node? place with
    | none => .error noSuchEntry
    | some (.file _) => .error notADirectory
    | some .directory =>
      if step = ".." then follow d entered.tail rest
      else if limits.takesName step then follow d (place.entry step :: entered) rest
      else .error nameTooLong

/-- The place that a path from the top leads to. The path is looked at as a whole before
its first step is taken. -/
def locate (d : Disk limits) (path : List Path.Step) : Except IoError Location :=
  let names := path.map Path.Step.name
  if !names.all limits.takesChars then .error nulInPath
  else if !path.getLast?.all (limits.takesText ·.stop) then .error nameTooLong
  else d.follow [] names

def isDirectory (d : Disk limits) (path : List Path.Step) : Bool :=
  match d.locate path with
  | .error _ => false
  | .ok place =>
    match d.node? place with
    | some .directory => true
    | _ => false

def makeDirectory (d : Disk limits) (path : List Path.Step) : Except IoError Unit × Disk limits :=
  match d.locate path with
  | .error e => (.error e, d)
  | .ok place =>
    match d.node? place with
    | some _ => (.error entryExists, d)
    | none => (.ok (), d.put place .directory)

/-- Makes a directory and those above it that are missing. The path comes with its
last step first. -/
def makeDirectories (d : Disk limits) :
    (reversed : List Path.Step) → Except IoError Unit × Disk limits
  | [] => (.ok (), d)
  | step :: above =>
    let path := (step :: above).reverse
    match d.makeDirectory path with
    | (.ok (), d) => (.ok (), d)
    | (.error e, d) =>
      if e.kind = .notFound then
        match makeDirectories d above with
        | (.error e, d) => (.error e, d)
        | (.ok (), d) =>
          match d.makeDirectory path with
          | (.ok (), d) => (.ok (), d)
          | (.error e, d) => if d.isDirectory path then (.ok (), d) else (.error e, d)
      else if d.isDirectory path then
        (.ok (), d)
      else
        (.error e, d)

/-- What the file at a place holds, nothing where there is no file. -/
def file (d : Disk limits) (place : Location) : Contents :=
  match d.node? place with
  | some (.file contents) => contents
  | _ => .empty

/-- Opens a file, creating it and the directories above it. -/
def openFile (d : Disk limits) (path : List Path.Step) : Except IoError Location × Disk limits :=
  match d.makeDirectories path.dropLast.reverse with
  | (.error e, d) => (.error e, d)
  | (.ok (), d) =>
    match d.locate path with
    | .error e => (.error e, d)
    | .ok place =>
      match d.node? place with
      | some .directory => (.error isADirectory, d)
      | some (.file _) => (.ok place, d)
      | none => (.ok place, d.put place (.file .empty))

/-- Gives a file at least the length, with zeros at its end. -/
def lengthen (d : Disk limits) (place : Location) (length : Nat) :
    Except IoError Unit × Disk limits :=
  let contents := d.file place
  if contents.size < length then
    if positionBound ≤ length then (.error lengthTooLarge, d)
    else (.ok (), d.put place (.file (contents.extend length)))
  else
    (.ok (), d)

/-- Whether a transfer of `length` bytes at `offset` ends at a position. -/
def isRange (offset length : Nat) : Bool :=
  offset + length < positionBound

/-- The bytes a read finds, fewer than it asks for where the file ends. -/
def read (d : Disk limits) (place : Location) (length offset : Nat) : Except IoError Bytes :=
  if isRange offset length then .ok ((d.file place).read offset length)
  else .error invalidRange

/-- Writes all of `data`, with zeros between the old end and where it begins. A write of
nothing leaves the file as it is. -/
def write (d : Disk limits) (place : Location) (data : Bytes) (offset : Nat) :
    Except IoError Nat × Disk limits :=
  if !isRange offset data.length then (.error invalidRange, d)
  else if data = [] then (.ok 0, d)
  else (.ok data.length, d.put place (.file ((d.file place).write offset data)))

/-- What the file at a path holds, if the path names a file. -/
def contents? (d : Disk limits) (text : String) : Option Bytes :=
  if Path.endsInStep text then
    match d.locate (Path.steps text) with
    | .error _ => none
    | .ok place =>
      match d.node? place with
      | some (.file contents) => some contents.toBytes
      | _ => none
  else
    none

/-- Puts a file in place, with the directories above it. -/
def store (d : Disk limits) (text : String) (contents : Bytes) :
    Except IoError Unit × Disk limits :=
  let path := Path.steps text
  if Path.endsInStep text then
    match d.openFile path with
    | (.error e, d) => (.error e, d)
    | (.ok place, d) => (.ok (), d.put place (.file (.ofBytes contents)))
  else
    match d.makeDirectories path.dropLast.reverse with
    | (.error e, d) => (.error e, d)
    | (.ok (), d) => (.error isADirectory, d)

/-- One line to each entry: directories end in a slash, files show their length. -/
def listing (d : Disk limits) : List String :=
  d.nodes.map fun (place, node) =>
    match node with
    | .directory => place ++ "/"
    | .file contents => place ++ " " ++ toString contents.size

end Disk

end FlatVolume
