import FlatVolume.Memory
import FlatVolume.Program

/-!
# Volumes in memory

A namespace of files in memory as the host of volumes without a cache. Several
volumes may be opened on one namespace, one after the other or side by side.
-/

namespace FlatVolume.Memory

def host : Host String Empty Memory where
  answer
    | .openFile path length, m => m.openFile path length
    | .readHandle key window offset, m => (.found (m.read key window.length offset), m)
    | .writeHandle key data offset, m =>
      let (outcome, m) := m.write key data offset
      (outcome.mapError .fault, m)
    | .closeHandle _, m => (.ok (), m)
    | .log _, m => ((), m)

end FlatVolume.Memory
