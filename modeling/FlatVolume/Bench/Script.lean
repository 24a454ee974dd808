import FlatVolume.Bytes
import FlatVolume.IoError
import FlatVolume.Table

/-!
# Scripted file systems

A file system in front of another one that follows a script: which of its opens
fail, and what each read and write of a file does instead of, or before, going
on to the file behind it.
-/

namespace FlatVolume.Bench

/-- What becomes of one read or write. -/
inductive Outcome where
  | fail (e : IoError)
  /-- Report a count without touching anything. -/
  | claim (count : Nat)
  /-- Go on with at most that many bytes. -/
  | atMost (count : Nat)
  | through
  deriving DecidableEq, Repr

/-- A count to move, where nothing to move means nothing to touch. -/
def Outcome.ofCount (count : Nat) : Outcome :=
  if count = 0 then .claim 0 else .atMost count

/-- The outcomes of reads and writes in order, and the outcome of every later one. -/
structure FileScript where
  reads : List Outcome
  laterReads : Outcome
  writes : List Outcome
  laterWrites : Outcome
  closeFailure : Option IoError
  deriving DecidableEq, Repr

namespace FileScript

def plain : FileScript :=
  ⟨[], .through, [], .through, none⟩

def nextRead (s : FileScript) : Outcome × FileScript :=
  match s.reads with
  | [] => (s.laterReads, s)
  | outcome :: rest => (outcome, { s with reads := rest })

def nextWrite (s : FileScript) : Outcome × FileScript :=
  match s.writes with
  | [] => (s.laterWrites, s)
  | outcome :: rest => (outcome, { s with writes := rest })

end FileScript

structure ScriptedSystem where
  /-- Opens asked for so far, failed ones included. -/
  opens : Nat
  openFailures : Table Nat IoError
  /-- Whether files are opened behind the script without their length. -/
  unbacked : Bool
  files : Table String FileScript
  deriving DecidableEq, Repr

namespace ScriptedSystem

def plain : ScriptedSystem :=
  ⟨0, [], false, []⟩

/-- Counts one more open; the failure that the script has for it. -/
def nextOpen (s : ScriptedSystem) : Option IoError × ScriptedSystem :=
  (s.openFailures.get? s.opens, { s with opens := s.opens + 1 })

def file (s : ScriptedSystem) (path : String) : FileScript :=
  (s.files.get? path).getD .plain

def put (s : ScriptedSystem) (path : String) (script : FileScript) : ScriptedSystem :=
  { s with files := s.files.set path script }

/-- Outcomes that have not been used yet. -/
def pending (s : ScriptedSystem) : Nat :=
  s.files.foldr (fun entry pending => entry.2.reads.length + entry.2.writes.length + pending) 0

end ScriptedSystem

end FlatVolume.Bench
