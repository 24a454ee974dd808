import FlatVolume.Bench.ByteCache
import FlatVolume.Bench.Event
import FlatVolume.Bench.RangeCache
import FlatVolume.Bench.Script
import FlatVolume.Bench.Tally
import FlatVolume.Disk.System
import FlatVolume.Memory.Archive

/-!
# The bench

A host on which volumes are tried out: files in memory and on a disk, scripted
and counting file systems in front of them, and caches that record what they
are asked. Objects are kept by number; systems and handles only refer to them,
so that copies share what they refer to.
-/

namespace FlatVolume

namespace Bench

/-- Where a namespace of files in memory is kept. -/
inductive Space where
  | own (id : Nat)
  | inArchive (id : Nat) (directory : String)
  deriving DecidableEq, Repr

inductive System where
  | memory (space : Space)
  | disk (system : DiskSystem)
  | scripted (id : Nat) (inner : System)
  | tally (id : Nat)
  deriving DecidableEq, Repr

/-- The files in memory that a system ends in, if it does. -/
def System.space? : System → Option Space
  | .memory space => some space
  | .scripted _ inner => inner.space?
  | .disk _ | .tally _ => none

inductive Handle where
  | memory (space : Space) (key : String)
  | disk (place : Location)
  | scripted (id : Nat) (path : String) (inner : Handle)
  | tally (id : Nat) (key : String)
  deriving DecidableEq, Repr

inductive AnyCache where
  | bytes (cache : ByteCache)
  | range (cache : RangeCache)

end Bench

structure Bench where
  memories : Table Nat Memory
  archives : Table Nat Archive
  disk : Disk .usual
  settings : ProcessSettings
  scripts : Table Nat Bench.ScriptedSystem
  tallies : Table Nat Bench.Tally
  caches : Table Nat Bench.AnyCache
  /-- The number for the next object. -/
  next : Nat
  /-- What happened, the latest first. -/
  events : List Bench.Event

namespace Bench

def empty : Bench :=
  ⟨[], [], .empty, .untouched, [], [], [], 0, []⟩

def record (b : Bench) (event : Event) : Bench :=
  { b with events := event :: b.events }

def archive (b : Bench) (id : Nat) : Archive :=
  (b.archives.get? id).getD .empty

def memory (b : Bench) : Space → Memory
  | .own id => (b.memories.get? id).getD .empty
  | .inArchive id directory => ((b.archive id).find? directory).getD .empty

def script (b : Bench) (id : Nat) : ScriptedSystem :=
  (b.scripts.get? id).getD .plain

def tally (b : Bench) (id : Nat) : Tally :=
  (b.tallies.get? id).getD .plain

def putMemory (b : Bench) (m : Memory) : Space → Bench
  | .own id => { b with memories := b.memories.set id m }
  | .inArchive id directory =>
    { b with archives := b.archives.set id ((b.archive id).put directory m) }

/-- Outcomes that the scripts still hold. No transfer is interrupted more often than
that in a row, unless a script interrupts for ever. -/
def patience (b : Bench) : Nat :=
  b.scripts.foldr (fun entry pending => entry.2.pending + pending) 0

/-- Opens a file on a system. A fault ends the call before it is recorded. -/
def openFile (path : List String) (length : Nat) :
    System → Bench → Except (Failure IoError) Handle × Bench
  | .memory space, b =>
    let (outcome, m) := (b.memory space).openFile path length
    (outcome.map (.memory space), b.putMemory m space)
  | .disk system, b =>
    let (outcome, disk) := system.openFile path length b.disk
    ((outcome.map .disk).mapError .error, { b with disk })
  | .tally id, b =>
    let (outcome, t) := (b.tally id).openFile path length
    (outcome.map (.tally id), { b with tallies := b.tallies.set id t })
  | .scripted id inner, b =>
    let name := Path.display path
    let (failure, script) := (b.script id).nextOpen
    let b := { b with scripts := b.scripts.set id script }
    match failure with
    | some e => (.error (.error e), b.record (.openFile name length (some e.kind)))
    | none =>
      match openFile path (if script.unbacked then 0 else length) inner b with
      | (.ok handle, b) =>
        (.ok (.scripted id name handle), b.record (.openFile name length none))
      | (.error (.error e), b) =>
        (.error (.error e), b.record (.openFile name length (some e.kind)))
      | (.error (.fault fault), b) => (.error (.fault fault), b)

def nextRead (b : Bench) (id : Nat) (path : String) : Outcome × Bench :=
  let (outcome, file) := ((b.script id).file path).nextRead
  (outcome, { b with scripts := b.scripts.set id ((b.script id).put path file) })

def nextWrite (b : Bench) (id : Nat) (path : String) : Outcome × Bench :=
  let (outcome, file) := ((b.script id).file path).nextWrite
  (outcome, { b with scripts := b.scripts.set id ((b.script id).put path file) })

def readHandle (length offset : Nat) : Handle → Bench → FileReading × Bench
  | .memory space key, b => (.found ((b.memory space).read key length offset), b)
  | .disk place, b => (.ofBytes (b.disk.read place length offset), b)
  | .tally id key, b => (.ofBytes ((b.tally id).read key length offset), b)
  | .scripted id path inner, b =>
    let (outcome, b) := b.nextRead id path
    let (reading, b) : FileReading × Bench :=
      match outcome with
      | .fail e => (.failed e, b)
      | .claim count => (⟨[], .ok count⟩, b)
      | .atMost count => readHandle (min count length) offset inner b
      | .through => readHandle length offset inner b
    (reading, b.record (.transfer .reading path offset length (reading.outcome.mapError IoError.kind)))

def writeHandle (data : Bytes) (offset : Nat) : Handle → Bench → Except (Failure IoError) Nat × Bench
  | .memory space key, b =>
    let (outcome, m) := (b.memory space).write key data offset
    (outcome.mapError .fault, b.putMemory m space)
  | .disk place, b =>
    let (outcome, disk) := b.disk.write place data offset
    (outcome.mapError .error, { b with disk })
  | .tally id key, b =>
    let (outcome, t) := (b.tally id).write key data offset
    (outcome, { b with tallies := b.tallies.set id t })
  | .scripted id path inner, b =>
    let (outcome, b) := b.nextWrite id path
    let (result, b) : Except (Failure IoError) Nat × Bench :=
      match outcome with
      | .fail e => (.error (.error e), b)
      | .claim count => (.ok count, b)
      | .atMost count => writeHandle (data.take count) offset inner b
      | .through => writeHandle data offset inner b
    match result with
    | .ok count => (.ok count, b.record (.transfer .writing path offset data.length (.ok count)))
    | .error (.error e) =>
      (.error (.error e), b.record (.transfer .writing path offset data.length (.error e.kind)))
    | .error (.fault fault) => (.error (.fault fault), b)

def closeHandle : Handle → Bench → Except IoError Unit × Bench
  | .memory _ _, b | .disk _, b => (.ok (), b)
  | .tally id key, b =>
    let (outcome, t) := (b.tally id).close key
    (outcome, { b with tallies := b.tallies.set id t })
  | .scripted id path inner, b =>
    let (outcome, b) := closeHandle inner b
    match ((b.script id).file path).closeFailure, outcome with
    | some e, _ | none, .error e => (.error e, b.record (.closeFile path (some e.kind)))
    | none, .ok () => (.ok (), b.record (.closeFile path none))

def readCache (b : Bench) (id : Nat) (buffer : Bytes) (offset : Nat) : CacheReading × Bench :=
  match b.caches.get? id with
  | none => (⟨[], .ok []⟩, b)
  | some (.range c) => (c.read buffer offset, b)
  | some (.bytes c) => (c.read buffer offset, b.record (.readCache c.name offset buffer.length))

def writeCache (b : Bench) (id : Nat) (data : Bytes) (offset : Nat) : List WriteBack × Bench :=
  match b.caches.get? id with
  | none => ([], b)
  | some (.range c) =>
    let (ranges, c) := c.write data offset
    (ranges, { b with caches := b.caches.set id (.range c) })
  | some (.bytes c) =>
    let (ranges, c) := c.write data offset
    (ranges, { b with caches := b.caches.set id (.bytes c) }.record
      (.writeCache c.name offset data.length))

def markCommitted (b : Bench) (id piece : Nat) : Bench :=
  match b.caches.get? id with
  | none => b
  | some (.range c) => { b with caches := b.caches.set id (.range (c.markCommitted piece)) }
  | some (.bytes c) => b.record (.markCommitted c.name piece)

def closeCache (b : Bench) (id : Nat) : Except IoError Unit × Bench :=
  match b.caches.get? id with
  | none => (.ok (), b)
  | some (.range c) =>
    let (outcome, c) := c.close
    (outcome, { b with caches := b.caches.set id (.range c) })
  | some (.bytes c) => (c.close, b.record (.closeCache c.name))

/-- The bench as the host of a volume that opens its files on `system`. -/
def host (system : System) : Host Handle Nat Bench where
  answer
    | .openFile path length, b => b.openFile path length system
    | .readHandle handle window offset, b => b.readHandle window.length offset handle
    | .writeHandle handle data offset, b => b.writeHandle data offset handle
    | .closeHandle handle, b => b.closeHandle handle
    | .readCache cache buffer offset, b => b.readCache cache buffer offset
    | .writeCache cache data offset, b => b.writeCache cache data offset
    | .markCommitted cache piece, b => ((), b.markCommitted cache piece)
    | .closeCache cache, b => b.closeCache cache
    | .log line, b => ((), b.record (.log line))

end Bench

end FlatVolume
