import FlatVolume.Bench
import FlatVolume.Volume.Access

/-!
# Steps and answers

What a session can be told to do, with its objects called by name, and what it
answers.
-/

namespace FlatVolume.Bench

inductive SystemSpec where
  | memory
  /-- The namespace of another system that is in memory. -/
  | sharing (other : String)
  /-- A directory of the disk; without a choice the setting of the process holds. -/
  | disk (root : String) (preallocate : Option Bool)
  /-- A script in front of another system, or of a new one in memory. -/
  | scripted (inner : Option String) (script : ScriptedSystem)
  | tally (tally : Tally)

inductive ProviderSpec where
  | archive
  | downloads (directory : String)
  /-- Under the download directory of the process. -/
  | configured

inductive CacheSpec where
  | bytes (cache : ByteCache)
  | range (held : Option HeldRange) (absorbsWrites failsClose : Bool)

inductive Step where
  | makeSystem (name : String) (spec : SystemSpec)
  | makeProvider (name : String) (spec : ProviderSpec)
  | newSystem (provider directory name : String)
  | findSystem (provider directory name : String)
  | counters (system : String)
  | contents (system path : String)
  | contains (system path : String)
  | size (system : String)
  | openHandle (system : String) (path : List String) (length : Nat) (name : String)
  | readHandle (file : String) (offset length : Nat)
  | writeHandle (file : String) (offset : Nat) (data : Bytes)
  | closeHandle (file : String)
  | openVolume (system name : String) (manifest : Manifest)
  | read (volume : String) (offset length : Nat) (fill : UInt8)
  | readFiles (volume : String) (offset length : Nat) (fill : UInt8)
  | write (volume : String) (offset : Nat) (data : Bytes)
  | writeFiles (volume : String) (offset : Nat) (data : Bytes)
  | commit (volume : String) (piece : Nat) (data : Bytes) (offset : Nat)
  | readEach (volume : String) (requests : List Volume.ReadRequest)
  | writeEach (volume : String) (writes : List WriteBack)
  | attach (volume cache : String)
  | describe (volume : String)
  | span (volume : String) (index : Nat)
  | close (volume : String)
  | drop (volume : String)
  | makeCache (name : String) (spec : CacheSpec)
  | cacheState (cache : String)
  | diskContents (path : String)
  | diskStore (path : String) (contents : Bytes)
  | diskMakeDirectory (path : String)
  | diskListing
  | buildSettings (choices : List Settings.Choice)
  | standardSettings
  | readSettings
  | setSettings (choices : List Settings.Choice)

/-- What a name was looked up for. -/
inductive Noun where
  | volume
  | cache
  | system
  | file
  | provider
  /-- A system with files in memory. -/
  | memory
  /-- A provider of systems in memory. -/
  | archive
  | tally
  deriving DecidableEq, Repr

def Noun.name : Noun → String
  | volume => "store"
  | cache => "cache"
  | system => "fs"
  | file => "file"
  | provider => "provider"
  | memory => "mem"
  | archive => "mem provider"
  | tally => "counting"

inductive Answer where
  | done
  | unknown (noun : Noun) (name : String)
  | ioError (e : IoError)
  | failure (failure : Failure VolumeError)
  | total (bytes : Nat)
  | moved (count : Nat)
  | reading (reading : Reading)
  | fileReading (buffer : Bytes) (outcome : Except IoError Nat)
  | counters (opened closed : Nat)
  | found (found : Bool)
  | contents (contents : Option Bytes)
  | contains (contains : Bool)
  | size (files : Nat)
  | readings (readings : List Reading)
  | writings (outcomes : List (Except (Failure VolumeError) Nat))
  | description (total files : Nat) (spans : List (Option (Nat × Nat))) (cached : Bool)
  | span (span : Option (Nat × Nat))
  | held (runs : List WriteBack)
  | record (writes : List WriteBack) (committed : List Nat) (closed : Nat)
  | diskContents (contents : Option Bytes)
  | listing (entries : List String)
  | settings (settings : Settings)
  | set (done : Bool)

namespace Answer

def fault (f : Fault) : Answer :=
  failure (.fault f)

def ofIo : Failure IoError → Answer
  | .error e => ioError e
  | .fault f => fault f

def ofWriting : Except (Failure VolumeError) Nat → Answer
  | .ok count => moved count
  | .error e => failure e

/-- Each request has its answer, unless one of them ended in a fault. -/
def ofReadings (all : List Reading) : Answer :=
  let faults := all.filterMap fun r =>
    match r.outcome with
    | .error (.fault f) => some f
    | _ => none
  match faults with
  | f :: _ => fault f
  | [] => readings all

end Answer

end FlatVolume.Bench
