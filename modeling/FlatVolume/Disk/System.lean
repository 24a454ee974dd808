import FlatVolume.Disk
import FlatVolume.Settings

/-!
# File systems on disk

A directory of a disk as the root of a file system, and the download directory
under which every volume gets one. New systems take the preallocation setting
of the process.
-/

namespace FlatVolume

structure DiskSystem where
  root : String
  preallocate : Bool
  deriving DecidableEq, Repr

namespace DiskSystem

/-- A file system under `root`, which reads the settings of the process. -/
def under (root : String) (settings : ProcessSettings) : DiskSystem × ProcessSettings :=
  let (current, settings) := settings.read
  (⟨root, current.preallocate⟩, settings)

def withPreallocate (s : DiskSystem) (enabled : Bool) : DiskSystem :=
  { s with preallocate := enabled }

def resolve (s : DiskSystem) (path : List String) : Except IoError String :=
  Path.resolve s.root path

/-- Opens a file, creating it and what is above it, and gives it the declared length
if the system preallocates. -/
def openFile (s : DiskSystem) (path : List String) (length : Nat) {limits : DiskLimits}
    (d : Disk limits) : Except IoError Location × Disk limits :=
  match s.resolve path with
  | .error e => (.error e, d)
  | .ok text =>
    match d.openFile (Path.steps text) with
    | (.error e, d) => (.error e, d)
    | (.ok place, d) =>
      if s.preallocate then
        match d.lengthen place length with
        | (.ok (), d) => (.ok place, d)
        | (.error e, d) => (.error e, d)
      else
        (.ok place, d)

end DiskSystem

/-- Gives every volume a file system of its own under one directory. -/
structure DownloadDirectory where
  directory : String
  deriving DecidableEq, Repr

namespace DownloadDirectory

/-- The download directory of the process. -/
def configured (settings : ProcessSettings) : DownloadDirectory × ProcessSettings :=
  let (current, settings) := settings.read
  (⟨current.downloadDirectory⟩, settings)

/-- The file system of one volume. Settings are read once its name is accepted. -/
def systemFor (p : DownloadDirectory) (name : String) (settings : ProcessSettings) :
    Except IoError DiskSystem × ProcessSettings :=
  match Path.checkComponent name with
  | .error e => (.error e, settings)
  | .ok () =>
    let (system, settings) := DiskSystem.under (Path.join p.directory name) settings
    (.ok system, settings)

end DownloadDirectory

end FlatVolume
