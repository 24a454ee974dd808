import FlatVolume.Disk.System
import FlatVolume.Program

/-!
# Volumes on disk

A directory of a disk as the host of volumes without a cache.
-/

namespace FlatVolume.DiskSystem

def host (s : DiskSystem) {limits : DiskLimits} : Host Location Empty (Disk limits) where
  answer
    | .openFile path length, d =>
      let (outcome, d) := s.openFile path length d
      (outcome.mapError .error, d)
    | .readHandle place window offset, d => (.ofBytes (d.read place window.length offset), d)
    | .writeHandle place data offset, d =>
      let (outcome, d) := d.write place data offset
      (outcome.mapError .error, d)
    | .closeHandle _, d => (.ok (), d)
    | .log _, d => ((), d)

end FlatVolume.DiskSystem
