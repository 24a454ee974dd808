import FlatVolume.LogLine
import FlatVolume.Transfer

/-!
# Events

What is seen from outside while a volume works: the calls that scripted files
and recording caches receive, and the log lines, in order of occurrence.
-/

namespace FlatVolume.Bench

inductive Event where
  | openFile (path : String) (length : Nat) (failure : Option IoKind)
  | transfer (direction : Direction) (path : String) (offset length : Nat)
      (outcome : Except IoKind Nat)
  | closeFile (path : String) (failure : Option IoKind)
  | readCache (name : String) (offset length : Nat)
  | writeCache (name : String) (offset length : Nat)
  | markCommitted (name : String) (piece : Nat)
  | closeCache (name : String)
  | log (line : LogLine)

namespace Event

def verb : Direction → String
  | .reading => "read"
  | .writing => "write"

def failed (kind : IoKind) : String :=
  "!" ++ kind.name

def completion : Option IoKind → String
  | none => "ok"
  | some kind => failed kind

def count : Except IoKind Nat → String
  | .ok n => toString n
  | .error kind => failed kind

def text : Event → String
  | openFile path length failure =>
    "open " ++ path ++ " " ++ toString length ++ " = " ++ completion failure
  | transfer direction path offset length outcome =>
    verb direction ++ " " ++ path ++ " " ++ toString offset ++ " " ++ toString length ++ " = "
      ++ count outcome
  | closeFile path failure => "close " ++ path ++ " = " ++ completion failure
  | readCache name offset length =>
    "cache.read " ++ name ++ " " ++ toString offset ++ " " ++ toString length
  | writeCache name offset length =>
    "cache.write " ++ name ++ " " ++ toString offset ++ " " ++ toString length
  | markCommitted name piece => "cache.commit " ++ name ++ " " ++ toString piece
  | closeCache name => "cache.close " ++ name
  | log line => line.text

end Event

end FlatVolume.Bench
