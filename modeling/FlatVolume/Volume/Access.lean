import FlatVolume.Contents
import FlatVolume.Program.Pool
import FlatVolume.Volume.Walk

/-!
# Reading and writing through the cache

With a cache attached every read and write is put to the cache first, and the
files are asked only for what it gives back. Without one, these are the reads
and writes of the files. A read reports what the files fail at, a write only
logs it, and a piece that cannot be stored is a fault.
-/

namespace FlatVolume.Volume

variable {Handle Cache : Type}

/-- Reads each gap of `buffer` from the files, failed ones before it or not; the last
failure is reported. -/
def readGaps (v : Volume Handle Cache) (patience : Nat) :
    List Gap → (buffer : Contents) → (failed : Option VolumeError) → Program Handle Cache Reading
  | [], buffer, none => pure ⟨buffer.toBytes, .ok buffer.size⟩
  | [], buffer, some e => pure ⟨buffer.toBytes, .error (.error e)⟩
  | gap :: rest, buffer, failed => do
    let window := buffer.read gap.position gap.length
    let reading ← v.readFiles patience window gap.offset
    let buffer := buffer.overlay gap.position reading.buffer
    match reading.outcome with
    | .ok _ => readGaps v patience rest buffer failed
    | .error (.error e) =>
      Program.log (.gapReadFailed gap.offset window.length e)
      readGaps v patience rest buffer (some e)
    | .error (.fault fault) => pure ⟨buffer.toBytes, .error (.fault fault)⟩

/-- Fills `buffer` from flat offset `offset` on. -/
def read (v : Volume Handle Cache) (patience : Nat) (buffer : Bytes) (offset : Nat) :
    Program Handle Cache Reading := do
  match v.cache with
  | none => v.readFiles patience buffer offset
  | some cache =>
    let reply ← Program.request (.readCache cache buffer offset)
    let buffer := buffer.overlay 0 (CacheReading.bytes reply)
    match CacheReading.gaps reply with
    | .ok gaps => v.readGaps patience gaps (.ofBytes buffer) none
    | .error fault => pure ⟨buffer, .error (.fault fault)⟩

/-- Writes each range to the files, failed ones before it or not. -/
def writeRanges (v : Volume Handle Cache) (patience : Nat) :
    List WriteBack → Program Handle Cache (Except Fault Unit)
  | [] => pure (.ok ())
  | range :: rest => do
    match ← v.writeFiles patience range.data range.offset with
    | .ok _ => writeRanges v patience rest
    | .error (.error e) =>
      Program.log (.writeBackFailed range.offset range.data.length e)
      writeRanges v patience rest
    | .error (.fault fault) => pure (.error fault)

/-- Writes `data` from flat offset `offset` on. -/
def write (v : Volume Handle Cache) (patience : Nat) (data : Bytes) (offset : Nat) :
    Program Handle Cache (Except (Failure VolumeError) Nat) := do
  match v.cache with
  | none => v.writeFiles patience data offset
  | some cache =>
    let ranges ← Program.request (.writeCache cache data offset)
    match ← v.writeRanges patience ranges with
    | .ok () => pure (.ok data.length)
    | .error fault => pure (.error (.fault fault))

/-- Stores a piece that the cache holds and then tells the cache so. There is nothing
to do without a cache. -/
def commit (v : Volume Handle Cache) (patience piece : Nat) (data : Bytes) (offset : Nat) :
    Program Handle Cache (Except Fault Unit) := do
  match v.cache with
  | none => pure (.ok ())
  | some cache =>
    match ← v.writeFiles patience data offset with
    | .ok _ =>
      Program.request (.markCommitted cache piece)
      pure (.ok ())
    | .error (.error e) =>
      Program.log (.commitFailed piece offset e)
      pure (.error (.commitFailed piece e))
    | .error (.fault fault) => pure (.error fault)

/-- Where to read and the buffer to fill. -/
structure ReadRequest where
  offset : Nat
  buffer : Bytes
  deriving DecidableEq, Repr

/-- Performs all requests on a pool; the readings are in the order of the requests. -/
def readEach (pool : Pool Handle Cache Reading) (v : Volume Handle Cache) (patience : Nat)
    (requests : List ReadRequest) : Program Handle Cache (List Reading) :=
  pool.perform (requests.map fun r => v.read patience r.buffer r.offset)

end FlatVolume.Volume
