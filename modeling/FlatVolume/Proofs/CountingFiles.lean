import FlatVolume.Bench
import FlatVolume.Proofs.MemoryFiles

/-!
# Counting files without failures

A volume on counting file systems that are not made to fail is one over files in memory. Neither
the counts nor the caches beside the files make a difference to it.
-/

namespace FlatVolume.Bench

namespace Tally

/-- The transfers of a file succeed as far as it is asked to be long. -/
structure Keeps (t : Tally) (key : String) (length : Nat) : Prop where
  succeeds : t.failTransfersOn ≠ some key
  covers : length ≤ (t.files.bytes key).length

variable {t : Tally} {key : String} {length place : Nat}

theorem Keeps.read_eq (keeps : t.Keeps key length) (asked : Nat) :
    t.read key asked place = .ok ((t.files.bytes key).window place asked) := by
  rw [read, if_neg keeps.succeeds, Memory.read_eq]

/-- A write inside a file changes its bytes there and nothing else. -/
theorem Keeps.write_inside (keeps : t.Keeps key length) {data : Bytes}
    (hfit : place + data.length ≤ length) (hword : place + data.length < wordBound) :
    ∃ files, t.write key data place = (.ok data.length, { t with files }) ∧ ∀ key',
      files.bytes key' =
        if key = key' then (t.files.bytes key).overlay place data else t.files.bytes key' := by
  obtain ⟨files, hwrite, hcontents⟩ :=
    t.files.write_inside key data (Nat.le_trans hfit keeps.covers) hword
  refine ⟨files, ?_, ?_⟩
  · rw [write, if_neg keeps.succeeds, hwrite]
  · intro key'
    rw [Memory.bytes_eq, hcontents, Memory.bytes_eq t.files key']
    split <;> rfl

end Tally

/-- The bytes of a file of a counting file system. -/
def countedBytes (b : Bench) : Handle → Bytes
  | .tally id key => (b.tally id).files.bytes key
  | .memory _ _ | .disk _ | .scripted _ _ _ => []

def counting : Backing Handle Handle Bench :=
  ⟨id, fun b handle i => (b.countedBytes handle).getD i 0⟩

/-- Every file of a volume is one of a counting file system, and its transfers succeed. -/
def Intact (v : Volume Handle Nat) (b : Bench) : Prop :=
  ∀ e ∈ v.layout.extents, ∃ id key, e.handle = .tally id key ∧ (b.tally id).Keeps key e.length

/-- The bench with other files in one of its counting file systems. -/
def withFiles (b : Bench) (id : Nat) (files : Memory) : Bench :=
  { b with tallies := b.tallies.set id { b.tally id with files } }

variable {b : Bench} {v : Volume Handle Nat}

theorem tally_withFiles (b : Bench) (id id' : Nat) (files : Memory) :
    (b.withFiles id files).tally id' =
      if id = id' then { b.tally id with files } else b.tally id' := by
  rw [withFiles, tally, Table.get?_set]
  split <;> rfl

theorem countedBytes_withFiles {id : Nat} {key : String} {files : Memory} {bytes : Bytes}
    (hfiles : ∀ key', files.bytes key' =
      if key = key' then bytes else (b.tally id).files.bytes key') (handle : Handle) :
    (b.withFiles id files).countedBytes handle =
      if .tally id key = handle then bytes else b.countedBytes handle := by
  cases handle with
  | tally id' key' =>
    rw [countedBytes, tally_withFiles]
    by_cases hid : id = id'
    · subst hid
      rw [if_pos rfl, hfiles]
      by_cases hkey : key = key' <;> simp [hkey, countedBytes]
    · simp [hid, countedBytes]
  | memory _ _ => rfl
  | disk _ => rfl
  | scripted _ _ _ => rfl

/-- Files that stay as long as they are stay intact. -/
theorem Intact.withFiles (intact : Intact v b) {id : Nat} {files : Memory}
    (hlength : ∀ key, (files.bytes key).length = ((b.tally id).files.bytes key).length) :
    Intact v (b.withFiles id files) := by
  intro e he
  obtain ⟨id', key, hhandle, succeeds, covers⟩ := intact e he
  refine ⟨id', key, hhandle, ?_⟩
  rw [tally_withFiles]
  by_cases hid : id = id'
  · subst hid
    rw [if_pos rfl]
    exact ⟨succeeds, by rw [hlength]; exact covers⟩
  · rw [if_neg hid]
    exact ⟨succeeds, covers⟩

/-- A transfer inside a file moves all that it is asked to. -/
theorem solid (v : Volume Handle Nat) (system : System) :
    counting.Solid (host system) v (Intact v) countedBytes where
  byte _ _ _ := rfl
  covers e he b intact := by
    obtain ⟨id, key, hhandle, keeps⟩ := intact e he
    change e.length ≤ (b.countedBytes e.handle).length
    rw [hhandle]
    exact keeps.covers
  write e data place b backs intact := by
    obtain ⟨id, key, hhandle, keeps⟩ := intact e backs.mem
    have hbounds := v.layout.tiles.bounds backs.mem
    have htotal := v.layout.total_lt
    have hfits := backs.fits
    obtain ⟨files, hwrite, hfiles⟩ :=
      keeps.write_inside (show place + data.length ≤ e.length by omega) (by omega)
    have hreply : (host system).write e.handle data place b =
        (.ok data.length, b.withFiles id files) := by
      change writeHandle data place e.handle b = _
      rw [hhandle, writeHandle, hwrite]
      rfl
    have hlength : ∀ key', (files.bytes key').length = ((b.tally id).files.bytes key').length := by
      intro key'
      rw [hfiles]
      split
      · rename_i hkey
        rw [Bytes.length_overlay, hkey]
      · rfl
    refine ⟨_, hreply, ?_, ?_, intact.withFiles hlength⟩
    · change countedBytes _ e.handle = (b.countedBytes e.handle).overlay place data
      rw [countedBytes_withFiles hfiles, hhandle, if_pos rfl]
      rfl
    · intro other hne
      rw [countedBytes_withFiles hfiles, if_neg]
      rw [← hhandle]
      exact hne.symm
  read e window place b backs intact := by
    obtain ⟨id, key, hhandle, keeps⟩ := intact e backs.mem
    change readHandle window.length place e.handle b =
      (.found ((b.countedBytes e.handle).window place window.length), b)
    rw [hhandle, readHandle, keeps.read_eq]
    rfl

theorem faultless (v : Volume Handle Nat) (system : System) :
    counting.Faultless (host system) v (Intact v) :=
  (solid v system).faultless

end FlatVolume.Bench
