import FlatVolume.Bench.Step

/-!
# Sessions

A bench with names for its objects, and what each step does to it. A name that
is bound again stands for the new object; a volume that loses its name is torn
down.
-/

namespace FlatVolume.Bench

inductive Provider where
  | archive (id : Nat)
  | downloads (directory : DownloadDirectory)

/-- A volume and the system its files are on. -/
structure OpenVolume where
  system : System
  volume : Volume Handle Nat

structure Session where
  bench : Bench
  systems : Table String System
  providers : Table String Provider
  files : Table String Handle
  volumes : Table String OpenVolume
  caches : Table String Nat

namespace Session

def empty : Session :=
  ⟨.empty, [], [], [], [], []⟩

def bindSystem (s : Session) (name : String) (system : System) : Session :=
  { s with systems := s.systems.set name system }

/-- A number for a new object. -/
def fresh (s : Session) : Nat × Session :=
  (s.bench.next, { s with bench := { s.bench with next := s.bench.next + 1 } })

/-- A new system in memory. -/
def newMemory (s : Session) : System × Session :=
  let (id, s) := s.fresh
  (.memory (.own id), { s with bench := s.bench.putMemory .empty (.own id) })

def run {α : Type} (s : Session) (v : OpenVolume) (p : Program Handle Nat α) : α × Session :=
  let (result, bench) := p.run (host v.system) s.bench
  (result, { s with bench })

def dropVolume (s : Session) (v : OpenVolume) : Session :=
  (s.run v v.volume.drop).2

def forget (s : Session) (volume : String) : Session :=
  { s with volumes := s.volumes.erase volume }

/-- The memory behind a system. -/
def memory (s : Session) (system : String) : Except Answer Memory :=
  match s.systems.get? system with
  | none => .error (.unknown .system system)
  | some found =>
    match found.space? with
    | none => .error (.unknown .memory system)
    | some space => .ok (s.bench.memory space)

def placeScript (s : Session) (name : String) (script : ScriptedSystem) (inner : System) :
    Answer × Session :=
  let (id, s) := s.fresh
  let bench := { s.bench with scripts := s.bench.scripts.set id script }
  (.done, { s with bench }.bindSystem name (.scripted id inner))

def makeSystem (s : Session) (name : String) : SystemSpec → Answer × Session
  | .memory =>
    let (system, s) := s.newMemory
    (.done, s.bindSystem name system)
  | .sharing other =>
    match s.systems.get? other with
    | none => (.unknown .system other, s)
    | some found =>
      match found.space? with
      | none => (.unknown .memory other, s)
      | some space => (.done, s.bindSystem name (.memory space))
  | .disk root preallocate =>
    let (system, settings) := DiskSystem.under root s.bench.settings
    let system := match preallocate with
      | some enabled => system.withPreallocate enabled
      | none => system
    (.done, { s with bench := { s.bench with settings } }.bindSystem name (.disk system))
  | .scripted none script =>
    let (inner, s) := s.newMemory
    s.placeScript name script inner
  | .scripted (some other) script =>
    match s.systems.get? other with
    | none => (.unknown .system other, s)
    | some inner => s.placeScript name script inner
  | .tally tally =>
    let (id, s) := s.fresh
    let bench := { s.bench with tallies := s.bench.tallies.set id tally }
    (.done, { s with bench }.bindSystem name (.tally id))

def makeProvider (s : Session) (name : String) : ProviderSpec → Answer × Session
  | .archive =>
    let (id, s) := s.fresh
    let bench := { s.bench with archives := s.bench.archives.set id .empty }
    (.done, { s with bench, providers := s.providers.set name (.archive id) })
  | .downloads directory =>
    (.done, { s with providers := s.providers.set name (.downloads ⟨directory⟩) })
  | .configured =>
    let (directory, settings) := DownloadDirectory.configured s.bench.settings
    (.done, { s with
      bench := { s.bench with settings }
      providers := s.providers.set name (.downloads directory) })

def newSystem (s : Session) (provider directory name : String) : Answer × Session :=
  match s.providers.get? provider with
  | none => (.unknown .provider provider, s)
  | some (.archive id) =>
    match (s.bench.archive id).require directory with
    | (.error e, _) => (.ioError e, s)
    | (.ok (), archive) =>
      let bench := { s.bench with archives := s.bench.archives.set id archive }
      (.done, { s with bench }.bindSystem name (.memory (.inArchive id directory)))
  | some (.downloads downloads) =>
    let (outcome, settings) := downloads.systemFor directory s.bench.settings
    let s := { s with bench := { s.bench with settings } }
    match outcome with
    | .error e => (.ioError e, s)
    | .ok system => (.done, s.bindSystem name (.disk system))

def findSystem (s : Session) (provider directory name : String) : Answer × Session :=
  match s.providers.get? provider with
  | some (.archive id) =>
    match (s.bench.archive id).find? directory with
    | none => (.found false, s)
    | some _ => (.found true, s.bindSystem name (.memory (.inArchive id directory)))
  | _ => (.unknown .archive provider, s)

def contents (s : Session) (system path : String) : Answer :=
  match s.systems.get? system with
  | some (.tally id) => .contents (some ((s.bench.tally id).files.bytes path))
  | _ =>
    match s.memory system with
    | .error answer => answer
    | .ok m => .contents (m.contents? path)

def openHandle (s : Session) (system : String) (path : List String) (length : Nat) (name : String) :
    Answer × Session :=
  match s.systems.get? system with
  | none => (.unknown .system system, s)
  | some found =>
    let (outcome, bench) := s.bench.openFile path length found
    let s := { s with bench }
    match outcome with
    | .error e => (.ofIo e, s)
    | .ok handle => (.done, { s with files := s.files.set name handle })

/-- A byte that a file is unlikely to hold, so that what a read leaves alone shows. -/
def filler : UInt8 := 0xaa

def readHandle (s : Session) (file : String) (offset length : Nat) : Answer × Session :=
  match s.files.get? file with
  | none => (.unknown .file file, s)
  | some handle =>
    let (reading, bench) := s.bench.readHandle length offset handle
    let buffer : Bytes := List.replicate length filler
    (.fileReading (buffer.overlay 0 reading.bytes) reading.outcome, { s with bench })

def writeHandle (s : Session) (file : String) (offset : Nat) (data : Bytes) : Answer × Session :=
  match s.files.get? file with
  | none => (.unknown .file file, s)
  | some handle =>
    let (outcome, bench) := s.bench.writeHandle data offset handle
    match outcome with
    | .ok count => (.moved count, { s with bench })
    | .error e => (.ofIo e, { s with bench })

def closeHandle (s : Session) (file : String) : Answer × Session :=
  match s.files.get? file with
  | none => (.unknown .file file, s)
  | some handle =>
    let (outcome, bench) := s.bench.closeHandle handle
    let s := { s with bench, files := s.files.erase file }
    match outcome with
    | .ok () => (.done, s)
    | .error e => (.ioError e, s)

/-- A volume that had the name before is torn down once the new one is open. -/
def openVolume (s : Session) (system name : String) (manifest : Manifest) : Answer × Session :=
  match s.systems.get? system with
  | none => (.unknown .system system, s)
  | some found =>
    let (outcome, bench) := (Volume.ofManifest manifest).run (host found) s.bench
    let s := { s with bench }
    match outcome with
    | .error e => (.failure e, s)
    | .ok volume =>
      let replaced := s.volumes.get? name
      let s := { s with volumes := s.volumes.set name ⟨found, volume⟩ }
      let s := match replaced with
        | some old => s.dropVolume old
        | none => s
      (.total volume.total, s)

/-- Runs a program of the named volume and answers with its result. -/
def on {α : Type} (s : Session) (name : String)
    (program : Volume Handle Nat → (patience : Nat) → Program Handle Nat α) (answer : α → Answer) :
    Answer × Session :=
  match s.volumes.get? name with
  | none => (.unknown .volume name, s)
  | some v =>
    let (result, s) := s.run v (program v.volume s.bench.patience)
    (answer result, s)

/-- The same for a program with which the volume loses its name. -/
def ending {α : Type} (s : Session) (name : String)
    (program : Volume Handle Nat → Program Handle Nat α) (answer : α → Answer) :
    Answer × Session :=
  let (result, s) := s.on name (fun v _ => program v) answer
  (result, s.forget name)

def writeAll (v : Volume Handle Nat) (patience : Nat) :
    List WriteBack → Program Handle Nat (List (Except (Failure VolumeError) Nat))
  | [] => pure []
  | range :: rest => do
    let outcome ← v.write patience range.data range.offset
    let outcomes ← writeAll v patience rest
    pure (outcome :: outcomes)

def attach (s : Session) (volume cache : String) : Answer × Session :=
  match s.caches.get? cache with
  | none => (.unknown .cache cache, s)
  | some id =>
    match s.volumes.get? volume with
    | none => (.unknown .volume volume, s)
    | some v =>
      let v := { v with volume := v.volume.attach id }
      (.done, { s with volumes := s.volumes.set volume v })

def describe (v : Volume Handle Nat) : Answer :=
  .description v.total v.fileCount ((List.range (v.fileCount + 1)).map v.span?) v.cache.isSome

def placeCache (s : Session) (name : String) (cache : AnyCache) : Answer × Session :=
  let (id, s) := s.fresh
  let bench := { s.bench with caches := s.bench.caches.set id cache }
  (.done, { s with bench, caches := s.caches.set name id })

/-- Nothing is bound if the held range ends past the last offset. -/
def makeCache (s : Session) (name : String) : CacheSpec → Answer × Session
  | .bytes cache => s.placeCache name (.bytes cache)
  | .range none absorbsWrites failsClose =>
    s.placeCache name (.range { RangeCache.empty with absorbsWrites, failsClose })
  | .range (some range) absorbsWrites failsClose =>
    match RangeCache.holding range.start range.bytes with
    | .error fault => (.fault fault, s)
    | .ok cache => s.placeCache name (.range { cache with absorbsWrites, failsClose })

def cacheState (s : Session) (cache : String) : Answer :=
  match (s.caches.get? cache).bind s.bench.caches.get? with
  | none => .unknown .cache cache
  | some (.bytes c) => .held c.runs
  | some (.range c) => .record c.writes c.committed c.closed

def changeDisk (s : Session)
    (change : Disk .usual → Except IoError Unit × Disk .usual) : Answer × Session :=
  let (outcome, disk) := change s.bench.disk
  let s := { s with bench := { s.bench with disk } }
  match outcome with
  | .ok () => (.done, s)
  | .error e => (.ioError e, s)

def sorted (lines : List String) : List String :=
  lines.mergeSort fun a b => a ≤ b

/-- Does one step. -/
def perform (s : Session) : Step → Answer × Session
  | .makeSystem name spec => s.makeSystem name spec
  | .makeProvider name spec => s.makeProvider name spec
  | .newSystem provider directory name => s.newSystem provider directory name
  | .findSystem provider directory name => s.findSystem provider directory name
  | .counters system =>
    match s.systems.get? system with
    | some (.tally id) => (.counters (s.bench.tally id).opened (s.bench.tally id).closed, s)
    | _ => (.unknown .tally system, s)
  | .contents system path => (s.contents system path, s)
  | .contains system path =>
    match s.memory system with
    | .error answer => (answer, s)
    | .ok m => (.contains (m.contains path), s)
  | .size system =>
    match s.memory system with
    | .error answer => (answer, s)
    | .ok m => (.size m.size, s)
  | .openHandle system path length name => s.openHandle system path length name
  | .readHandle file offset length => s.readHandle file offset length
  | .writeHandle file offset data => s.writeHandle file offset data
  | .closeHandle file => s.closeHandle file
  | .openVolume system name manifest => s.openVolume system name manifest
  | .read volume offset length fill =>
    s.on volume (fun v patience => v.read patience (List.replicate length fill) offset) .reading
  | .readFiles volume offset length fill =>
    s.on volume (fun v patience => v.readFiles patience (List.replicate length fill) offset) .reading
  | .write volume offset data =>
    s.on volume (fun v patience => v.write patience data offset) .ofWriting
  | .writeFiles volume offset data =>
    s.on volume (fun v patience => v.writeFiles patience data offset) .ofWriting
  | .commit volume piece data offset =>
    s.on volume (fun v patience => v.commit patience piece data offset) fun
      | .ok () => .done
      | .error fault => .fault fault
  | .readEach volume requests =>
    s.on volume (fun v patience => v.readEach .oneByOne patience requests) .ofReadings
  | .writeEach volume writes =>
    s.on volume (fun v patience => writeAll v patience writes) .writings
  | .attach volume cache => s.attach volume cache
  | .describe volume => s.on volume (fun v _ => pure v) describe
  | .span volume index => s.on volume (fun v _ => pure v) fun v => .span (v.span? index)
  | .close volume =>
    s.ending volume Volume.close fun
      | .ok () => .done
      | .error e => .failure (.error e)
  | .drop volume => s.ending volume Volume.drop fun () => .done
  | .makeCache name spec => s.makeCache name spec
  | .cacheState cache => (s.cacheState cache, s)
  | .diskContents path => (.diskContents (s.bench.disk.contents? path), s)
  | .diskStore path contents => s.changeDisk fun d => d.store path contents
  | .diskMakeDirectory path => s.changeDisk fun d => d.makeDirectories (Path.steps path).reverse
  | .diskListing => (.listing (sorted s.bench.disk.listing), s)
  | .buildSettings choices => (.settings (.ofChoices choices), s)
  | .standardSettings => (.settings .standard, s)
  | .readSettings =>
    let (current, settings) := s.bench.settings.read
    (.settings current, { s with bench := { s.bench with settings } })
  | .setSettings choices =>
    let (done, settings) := s.bench.settings.init choices
    (.set done, { s with bench := { s.bench with settings } })

/-- Whether what a step does may happen in any order. -/
def isUnordered : Step → Bool
  | .readEach _ _ | .writeEach _ _ => true
  | _ => false

/-- The events so far as lines, and the session without them. -/
def takeEvents (s : Session) : List String × Session :=
  (s.bench.events.reverse.map Event.text, { s with bench := { s.bench with events := [] } })

/-- Does one step; its answer and the events that it caused. Events without an order
are sorted. -/
def step (s : Session) (step : Step) : (Answer × List String) × Session :=
  let (answer, s) := s.perform step
  let (events, s) := s.takeEvents
  ((answer, if isUnordered step then sorted events else events), s)

def steps (s : Session) : List Step → List (Answer × List String) × Session
  | [] => ([], s)
  | next :: rest =>
    let (answer, s) := s.step next
    let (answers, s) := s.steps rest
    (answer :: answers, s)

/-- Tears down the volumes that are left, in the order of their names. -/
def finish (s : Session) : List String :=
  let names := sorted (s.volumes.map Prod.fst)
  let left := names.filterMap s.volumes.get?
  (left.foldl dropVolume s).takeEvents.1

end Session

end FlatVolume.Bench
