import FlatVolume.VolumeError

/-!
# Log lines

What a volume writes to the log, and the one place where the lines get their
text: the level, the message, then the fields.
-/

namespace FlatVolume

inductive LogLine where
  | opened (name : String) (files total : Nat)
  | closed
  | fileCloseFailed (index : Nat) (cause : IoError)
  | cacheCloseFailed (cause : IoError)
  | gapReadFailed (offset length : Nat) (cause : VolumeError)
  | writeBackFailed (offset length : Nat) (cause : VolumeError)
  | commitFailed (piece offset : Nat) (cause : VolumeError)
  deriving DecidableEq, Repr

namespace LogLine

def rangeFields (offset length : Nat) : String :=
  " offset=" ++ toString offset ++ " len=" ++ toString length

def text : LogLine → String
  | opened name files total =>
    "DEBUG opened virtual store name=" ++ name ++ " files=" ++ toString files ++ " total_size="
      ++ toString total
  | closed => "DEBUG closed virtual store"
  | fileCloseFailed index cause =>
    "WARN failed to close file file=" ++ toString index ++ " error=" ++ cause.message
  | cacheCloseFailed cause => "WARN failed to close cache error=" ++ cause.message
  | gapReadFailed offset length cause =>
    "WARN read from files failed" ++ rangeFields offset length ++ " error=" ++ cause.message
  | writeBackFailed offset length cause =>
    "WARN write-back to files failed" ++ rangeFields offset length ++ " error=" ++ cause.message
  | commitFailed piece offset cause =>
    "ERROR error committing piece to storage piece=" ++ toString piece ++ " offset="
      ++ toString offset ++ " error=" ++ cause.message

end LogLine

end FlatVolume
