import FlatVolume.Memory

/-!
# Counting file systems

Files in memory behind a count of opens and closes, with one fault to each kind
of call: an open by its number, transfers and closes by the path of the file.
-/

namespace FlatVolume.Bench

structure Tally where
  files : Memory
  opened : Nat
  closed : Nat
  failOpenAt : Option Nat
  failTransfersOn : Option String
  failCloseOn : Option String
  /-- Whether files are opened without their length. -/
  unbacked : Bool

namespace Tally

def plain : Tally :=
  ⟨.empty, 0, 0, none, none, none, false⟩

def openFailure : IoError := ⟨.permissionDenied, "injected open failure"⟩
def readFailure : IoError := ⟨.other, "injected read failure"⟩
def writeFailure : IoError := ⟨.other, "injected write failure"⟩
def closeFailure : IoError := ⟨.other, "injected close failure"⟩

/-- Only opens that succeed are counted, so the open after a failed one has its
number. -/
def openFile (t : Tally) (path : List String) (length : Nat) :
    Except (Failure IoError) String × Tally :=
  if t.failOpenAt = some t.opened then
    (.error (.error openFailure), t)
  else
    match t.files.openFile path (if t.unbacked then 0 else length) with
    | (.ok key, files) => (.ok key, { t with files, opened := t.opened + 1 })
    | (.error failure, files) => (.error failure, { t with files })

def read (t : Tally) (key : String) (length offset : Nat) : Except IoError Bytes :=
  if t.failTransfersOn = some key then .error readFailure
  else .ok (t.files.read key length offset)

def write (t : Tally) (key : String) (data : Bytes) (offset : Nat) :
    Except (Failure IoError) Nat × Tally :=
  if t.failTransfersOn = some key then
    (.error (.error writeFailure), t)
  else
    match t.files.write key data offset with
    | (.ok count, files) => (.ok count, { t with files })
    | (.error fault, files) => (.error (.fault fault), { t with files })

def close (t : Tally) (key : String) : Except IoError Unit × Tally :=
  let t := { t with closed := t.closed + 1 }
  if t.failCloseOn = some key then (.error closeFailure, t) else (.ok (), t)

end Tally

end FlatVolume.Bench
