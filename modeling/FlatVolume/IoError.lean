/-!
# Input and output errors

What a file system, a file or a cache reports when it cannot do what it was
asked: a kind, on which callers decide, and a text, which they only pass on.
-/

namespace FlatVolume

inductive IoKind where
  | notFound
  | permissionDenied
  | alreadyExists
  | wouldBlock
  | notADirectory
  | isADirectory
  | invalidInput
  | invalidData
  | timedOut
  | writeZero
  | storageFull
  | invalidFilename
  | interrupted
  | unexpectedEof
  | outOfMemory
  | brokenPipe
  | other
  deriving DecidableEq, Repr

namespace IoKind

def name : IoKind → String
  | notFound => "NotFound"
  | permissionDenied => "PermissionDenied"
  | alreadyExists => "AlreadyExists"
  | wouldBlock => "WouldBlock"
  | notADirectory => "NotADirectory"
  | isADirectory => "IsADirectory"
  | invalidInput => "InvalidInput"
  | invalidData => "InvalidData"
  | timedOut => "TimedOut"
  | writeZero => "WriteZero"
  | storageFull => "StorageFull"
  | invalidFilename => "InvalidFilename"
  | interrupted => "Interrupted"
  | unexpectedEof => "UnexpectedEof"
  | outOfMemory => "OutOfMemory"
  | brokenPipe => "BrokenPipe"
  | other => "Other"

def all : List IoKind :=
  [notFound, permissionDenied, alreadyExists, wouldBlock, notADirectory, isADirectory,
    invalidInput, invalidData, timedOut, writeZero, storageFull, invalidFilename, interrupted,
    unexpectedEof, outOfMemory, brokenPipe, other]

def ofName? (name : String) : Option IoKind :=
  all.find? fun kind => kind.name = name

end IoKind

structure IoError where
  kind : IoKind
  message : String
  deriving DecidableEq, Repr

end FlatVolume
