import FlatVolume.IoError

/-!
# Volume errors

What an operation on a volume reports. A peer that sends payload past the end
of the data is told apart from a file that fails.
-/

namespace FlatVolume

inductive VolumeError where
  /-- A declared file could not be opened. -/
  | openFailed (path : String) (cause : IoError)
  /-- A file failed during a transfer: the flat offset of the byte it failed
  at, and how many bytes of the request came before it. -/
  | io (offset transferred : Nat) (cause : IoError)
  /-- A byte past the end of the volume was to be written and is not zero. -/
  | nonZeroTrailingData (offset accepted : Nat)
  /-- The declared lengths add up to more than an offset can address. -/
  | tooLarge (path : String)
  | closeFailed (cause : IoError)
  | cacheCloseFailed (cause : IoError)
  deriving DecidableEq, Repr

namespace VolumeError

def message : VolumeError → String
  | openFailed path cause => "failed to open '" ++ path ++ "': " ++ cause.message
  | io offset transferred cause =>
    "I/O error at offset " ++ toString offset ++ " after " ++ toString transferred ++ " bytes: "
      ++ cause.message
  | nonZeroTrailingData offset _ =>
    "unexpected non-zero data at end of store (offset " ++ toString offset ++ ")"
  | tooLarge path => "declared files exceed the addressable size at '" ++ path ++ "'"
  | closeFailed cause => "failed to close file: " ++ cause.message
  | cacheCloseFailed cause => "failed to close cache: " ++ cause.message

/-- The failure underneath, where there is one. -/
def cause? : VolumeError → Option IoError
  | openFailed _ cause | io _ _ cause | closeFailed cause | cacheCloseFailed cause => some cause
  | nonZeroTrailingData _ _ | tooLarge _ => none

/-- Bytes transferred before the error; none for an error outside a transfer. -/
def transferred : VolumeError → Nat
  | io _ transferred _ => transferred
  | nonZeroTrailingData _ accepted => accepted
  | _ => 0

/-- Whether the one who sent the data is to blame. -/
def isViolation : VolumeError → Bool
  | nonZeroTrailingData _ _ => true
  | _ => false

end VolumeError

end FlatVolume
