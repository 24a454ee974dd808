import FlatVolume.Layout
import FlatVolume.Manifest
import FlatVolume.Program

/-!
# Volumes

One flat range of bytes over the files of a manifest, with a cache in front of
it if one is attached. This module opens and tears down a volume; every handle
that is opened is closed again, here or when opening fails half way.
-/

namespace FlatVolume

structure Volume (Handle Cache : Type) where
  layout : Layout Handle
  cache : Option Cache

namespace Volume

variable {Handle Cache : Type}

/-- Closes the files in order, the first of them being number `index`, whatever the
closes report; the first failure is kept. -/
def closeFiles : (index : Nat) → List (Extent Handle) → Program Handle Cache (Option IoError)
  | _, [] => pure none
  | index, e :: rest => do
    match ← Program.request (.closeHandle e.handle) with
    | .ok () => closeFiles (index + 1) rest
    | .error failure =>
      Program.log (.fileCloseFailed index failure)
      let _ ← closeFiles (index + 1) rest
      pure (some failure)

/-- Opens the files one after the other behind those of `layout`. A length that no
longer fits is noticed before its file is opened; either failure closes what
is open. -/
def openFiles : List DeclaredFile → Layout Handle →
    Program Handle Cache (Except (Failure VolumeError) (Layout Handle))
  | [], layout => pure (.ok layout)
  | file :: rest, layout =>
    if fits : layout.total + file.length < wordBound then do
      match ← Program.request (.openFile file.path file.length) with
      | .ok handle => openFiles rest (layout.append file.length handle fits)
      | .error (.error failure) =>
        let _ ← closeFiles 0 layout.extents
        pure (.error (.error (.openFailed file.displayPath failure)))
      | .error (.fault fault) => pure (.error (.fault fault))
    else do
      let _ ← closeFiles 0 layout.extents
      pure (.error (.error (.tooLarge file.displayPath)))

/-- Opens every file of the manifest. -/
def ofManifest (m : Manifest) :
    Program Handle Cache (Except (Failure VolumeError) (Volume Handle Cache)) := do
  match ← openFiles m.files .empty with
  | .ok layout =>
    Program.log (.opened m.name m.files.length layout.total)
    pure (.ok ⟨layout, none⟩)
  | .error failure => pure (.error failure)

/-- Puts a cache in front of the files, in place of one that may be there. -/
def attach (v : Volume Handle Cache) (cache : Cache) : Volume Handle Cache :=
  { v with cache := some cache }

def total (v : Volume Handle Cache) : Nat :=
  v.layout.total

def fileCount (v : Volume Handle Cache) : Nat :=
  v.layout.extents.length

/-- First offset and length of the file at `index`. -/
def span? (v : Volume Handle Cache) (index : Nat) : Option (Nat × Nat) :=
  v.layout.span? index

/-- Closes every file of a layout and leaves it without them. -/
def closeAll (layout : Layout Handle) : Program Handle Cache (Option IoError × Layout Handle) := do
  let (extents, left) := layout.drain
  let failure ← closeFiles 0 extents
  pure (failure, left)

/-- Takes the cache away, if there is one. -/
def takeCache (v : Volume Handle Cache) : Option Cache × Volume Handle Cache :=
  (v.cache, { v with cache := none })

def closeCache : Option Cache → Program Handle Cache (Option IoError)
  | none => pure none
  | some cache => do
    match ← Program.request (.closeCache cache) with
    | .ok () => pure none
    | .error failure =>
      Program.log (.cacheCloseFailed failure)
      pure (some failure)

/-- Closes every file, then the cache, and leaves the volume without them. A failure of a file is
reported before one of the cache. -/
def teardown (v : Volume Handle Cache) :
    Program Handle Cache (Except VolumeError Unit × Volume Handle Cache) := do
  let (fileFailure, layout) ← closeAll v.layout
  let (cache, left) := takeCache { v with layout }
  let cacheFailure ← closeCache cache
  Program.log .closed
  match fileFailure, cacheFailure with
  | some failure, _ => pure (.error (.closeFailed failure), left)
  | none, some failure => pure (.error (.cacheCloseFailed failure), left)
  | none, none => pure (.ok (), left)

/-- Gives the volume up; nobody hears of failures. -/
def drop (v : Volume Handle Cache) : Program Handle Cache Unit := do
  let _ ← v.teardown

/-- Tears the volume down and reports how that went. What is left of it is then given up like
any other volume. -/
def close (v : Volume Handle Cache) : Program Handle Cache (Except VolumeError Unit) := do
  let (outcome, left) ← v.teardown
  left.drop
  pure outcome

end Volume

end FlatVolume
