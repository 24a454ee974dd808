import FlatVolume.Disk.Host
import FlatVolume.Proofs.DiskPlaces
import FlatVolume.Proofs.Reopening
import Mathlib.Data.List.Nodup

/-!
# Volumes on files on disk

Declared files side by side under the root of a file system that preallocates. Opening one puts
it in its place with zeros up to its declared length, and disturbs none of the others. Files that
stand in their places never fail inside their declared lengths, and opening finds them as they
were left.
-/

namespace FlatVolume

namespace DiskSystem

/-- Where the file of a declared path is. -/
def place (s : DiskSystem) (path : List String) : Location :=
  Disk.reached [] (Path.names s.root ++ path)

/-- The places on the way to a declared path, all of which have to be directories. -/
def above (s : DiskSystem) (path : List String) : List Location :=
  Disk.way (Path.names s.root ++ path.dropLast)

def backing {limits : DiskLimits} : Backing Location Location (Disk limits) :=
  ⟨id, fun d place i => (d.file place).toBytes.getD i 0⟩

/-- These are the places that the steps of the path are taken from. -/
theorem above_eq (s : DiskSystem) {path : List String} (h : path ≠ []) :
    s.above path = Disk.visits [] (Path.names s.root ++ path) := by
  rw [above, ← Disk.visits_concat _ (path.getLast h), List.append_assoc,
    List.dropLast_concat_getLast]

/-- The files can all lie side by side under the root, on a disk with these limits. -/
structure Houses (s : DiskSystem) (limits : DiskLimits) (files : List DeclaredFile) : Prop where
  preallocates : s.preallocate = true
  valid : ∀ file ∈ files, Path.check file.path = .ok ()
  takes : ∀ file ∈ files, ∀ text, s.resolve file.path = .ok text → limits.Takes (Path.steps text)
  fits : ∀ file ∈ files, file.length < positionBound
  apart : ∀ file ∈ files, ∀ other ∈ files, s.place file.path ∉ s.above other.path
  distinct : (files.map fun file => s.place file.path).Nodup

/-- The file can be opened, and is not longer than it is declared. -/
structure Ready (s : DiskSystem) {limits : DiskLimits} (d : Disk limits) (file : DeclaredFile) :
    Prop where
  passable : ∀ place ∈ s.above file.path, d.Passable place
  free : d.node? (s.place file.path) ≠ some .directory
  short : (d.file (s.place file.path)).size ≤ file.length

/-- The file is in its place, as long as it is declared. -/
structure Stands (s : DiskSystem) {limits : DiskLimits} (d : Disk limits) (file : DeclaredFile) :
    Prop where
  directories : ∀ place ∈ s.above file.path, d.node? place = some .directory
  held : ∃ contents, d.node? (s.place file.path) = some (.file contents) ∧
    contents.size = file.length

variable {s : DiskSystem} {limits : DiskLimits} {d d' : Disk limits} {files : List DeclaredFile}
  {file other : DeclaredFile}

theorem Stands.ready (h : s.Stands d file) : s.Ready d file := by
  obtain ⟨contents, hnode, hsize⟩ := h.held
  constructor
  · intro place hplace contents'
    rw [h.directories place hplace]
    exact nofun
  · rw [hnode]
    exact nofun
  · rw [Disk.file_eq hnode]
    exact Nat.le_of_eq hsize

theorem openFile_ok (houses : s.Houses limits files) (hf : file ∈ files) (ready : s.Ready d file) :
    ∃ d', s.openFile file.path file.length d = (.ok (s.place file.path), d') ∧
      d.MakesFile d' (s.above file.path) (s.place file.path)
        ((d.file (s.place file.path)).extend file.length) := by
  obtain ⟨text, hresolve, hnames, -⟩ := Path.resolve_names s.root (houses.valid file hf)
  obtain ⟨hne, -⟩ := Path.check_eq_ok_iff.mp (houses.valid file hf)
  have hlast : Path.names text = (Path.names s.root ++ file.path.dropLast) ++
      [file.path.getLast hne] := by
    rw [hnames, List.append_assoc, List.dropLast_concat_getLast]
  have hreached : Disk.reached [] (Path.names text) = s.place file.path :=
    congrArg (Disk.reached []) hnames
  obtain ⟨middle, hopen, hmiddle⟩ := Disk.openFile_ok hlast hreached
    (houses.takes file hf text hresolve) ready.passable (houses.apart file hf file hf) ready.free
  obtain ⟨after, hlengthen, hafter⟩ := hmiddle.lengthen (houses.fits file hf)
  refine ⟨after, ?_, hafter⟩
  rw [openFile, resolve, hresolve]
  dsimp only
  rw [hopen]
  dsimp only
  rw [if_pos houses.preallocates, hlengthen]

section MakesFile

variable {places : List Location} {contents : Contents}

/-- A file that is put in its place is the only change in the places of the declared files. -/
theorem Houses.node?_place (houses : s.Houses limits files) (hf : file ∈ files) (ho : other ∈ files)
    (sub : ∀ place ∈ places, place ∈ s.above file.path)
    (makes : d.MakesFile d' places (s.place file.path) contents) :
    (other = file ∧ d'.node? (s.place other.path) = some (.file contents)) ∨
      d'.node? (s.place other.path) = d.node? (s.place other.path) := by
  rw [makes]
  by_cases hsame : s.place other.path = s.place file.path
  · rw [if_pos hsame]
    exact .inl ⟨List.inj_on_of_nodup_map houses.distinct ho hf hsame, rfl⟩
  · rw [if_neg hsame, if_neg fun hplace => houses.apart other ho file hf (sub _ hplace)]
    exact .inr rfl

theorem Houses.node?_above (houses : s.Houses limits files) (hf : file ∈ files) (ho : other ∈ files)
    (makes : d.MakesFile d' places (s.place file.path) contents) {place : Location}
    (hplace : place ∈ s.above other.path) :
    d'.node? place = some .directory ∨ d'.node? place = d.node? place := by
  have hne : place ≠ s.place file.path := by
    rintro rfl
    exact houses.apart file hf other ho hplace
  rw [makes, if_neg hne]
  split
  · exact .inl rfl
  · exact .inr rfl

theorem Stands.kept (houses : s.Houses limits files) (hf : file ∈ files) (ho : other ∈ files)
    (sub : ∀ place ∈ places, place ∈ s.above file.path)
    (makes : d.MakesFile d' places (s.place file.path) contents)
    (hsize : contents.size = file.length) (h : s.Stands d other) : s.Stands d' other where
  directories place hplace := by
    rcases houses.node?_above hf ho makes hplace with hnode | hnode
    · exact hnode
    · rw [hnode, h.directories place hplace]
  held := by
    rcases houses.node?_place hf ho sub makes with ⟨rfl, hnode⟩ | hnode
    · exact ⟨contents, hnode, hsize⟩
    · rw [hnode]
      exact h.held

theorem Ready.kept (houses : s.Houses limits files) (hf : file ∈ files) (ho : other ∈ files)
    (sub : ∀ place ∈ places, place ∈ s.above file.path)
    (makes : d.MakesFile d' places (s.place file.path) contents)
    (hsize : contents.size = file.length) (h : s.Ready d other) : s.Ready d' other where
  passable place hplace := by
    intro contents'
    rcases houses.node?_above hf ho makes hplace with hnode | hnode
    · rw [hnode]
      exact nofun
    · rw [hnode]
      exact h.passable place hplace contents'
  free := by
    rcases houses.node?_place hf ho sub makes with ⟨-, hnode⟩ | hnode
    · rw [hnode]
      exact nofun
    · rw [hnode]
      exact h.free
  short := by
    rcases houses.node?_place hf ho sub makes with ⟨rfl, hnode⟩ | hnode
    · rw [Disk.file_eq hnode]
      exact Nat.le_of_eq hsize
    · rw [Disk.file_congr hnode]
      exact h.short

end MakesFile

theorem Ready.size_extend (ready : s.Ready d file) :
    ((d.file (s.place file.path)).extend file.length).size = file.length :=
  Nat.max_eq_right ready.short

theorem stands_of_makesFile (houses : s.Houses limits files) (hf : file ∈ files) (ready : s.Ready d file)
    (makes : d.MakesFile d' (s.above file.path) (s.place file.path)
      ((d.file (s.place file.path)).extend file.length)) : s.Stands d' file where
  directories place hplace := by
    have hne : place ≠ s.place file.path := by
      rintro rfl
      exact houses.apart file hf file hf hplace
    rw [makes, if_neg hne, if_pos hplace]
  held := by
    refine ⟨_, ?_, ready.size_extend⟩
    rw [makes, if_pos rfl]

/-- Opening a file changes no byte of any file. -/
theorem same_of_makesFile (ready : s.Ready d file)
    (makes : d.MakesFile d' (s.above file.path) (s.place file.path)
      ((d.file (s.place file.path)).extend file.length)) : backing.Same d d' := by
  intro place i
  have hnode := makes place
  simp only [backing]
  split at hnode
  · rename_i hplace
    rw [Disk.file_eq hnode, Contents.toBytes_extend, Bytes.getD_extend, hplace]
  · split at hnode
    · rename_i hplace
      have hdirectory : d'.Passable place := by
        intro contents
        rw [hnode]
        exact nofun
      rw [hdirectory.file_eq, (ready.passable place hplace).file_eq]
    · rw [Disk.file_congr hnode]

/-- Opening the files one after the other, with what is known of those that are open already. -/
theorem opens (houses : s.Houses limits files) (before : Disk limits) :
    s.host.Opens (fun file => s.place file.path) fun rest d =>
      (∀ file ∈ rest, file ∈ files) ∧ (∀ file ∈ files, s.Ready d file) ∧
        (∀ file ∈ files, file ∈ rest ∨ s.Stands d file) ∧ backing.Same before d := by
  rintro file rest d ⟨hsub, hready, hstands, hsame⟩
  have hf := hsub file List.mem_cons_self
  obtain ⟨after, hopen, makes⟩ := openFile_ok houses hf (hready file hf)
  have hsize := (hready file hf).size_extend
  refine ⟨after, ?_, fun other ho => hsub other (List.mem_cons_of_mem _ ho), ?_, ?_, ?_⟩
  · change ((s.openFile file.path file.length d).1.mapError Failure.error,
      (s.openFile file.path file.length d).2) = _
    rw [hopen]
    rfl
  · intro other ho
    exact (hready other ho).kept houses hf ho (fun _ h => h) makes hsize
  · intro other ho
    rcases hstands other ho with hrest | hstands
    · rcases List.mem_cons.mp hrest with rfl | hrest
      · exact .inr (stands_of_makesFile houses hf (hready other hf) makes)
      · exact .inl hrest
    · exact .inr (hstands.kept houses hf ho (fun _ h => h) makes hsize)
  · exact hsame.trans (same_of_makesFile (hready file hf) makes)

theorem closesFreely (s : DiskSystem) (limits : DiskLimits) :
    (s.host : Host Location Empty (Disk limits)).ClosesFreely :=
  ⟨fun _ _ => rfl, fun _ _ => rfl⟩

/-- The files of the volume are the declared ones, in their places. -/
def Lies (s : DiskSystem) (files : List DeclaredFile) (v : Volume Location Empty) : Prop :=
  v.layout.extents = Manifest.placed 0 files (files.map fun file => s.place file.path)

theorem Lies.exists_file {v : Volume Location Empty} (lies : s.Lies files v) {e : Extent Location}
    (he : e ∈ v.layout.extents) :
    ∃ file ∈ files, e.handle = s.place file.path ∧ e.length = file.length := by
  rw [lies] at he
  exact Manifest.mem_placed he

theorem solid (houses : s.Houses limits files) {v : Volume Location Empty} (lies : s.Lies files v) :
    backing.Solid s.host v (fun d : Disk limits => ∀ file ∈ files, s.Stands d file)
      fun d place => (d.file place).toBytes where
  byte _ _ _ := rfl
  covers e he d stands := by
    obtain ⟨file, hf, hhandle, hlength⟩ := lies.exists_file he
    obtain ⟨contents, hnode, hsize⟩ := (stands file hf).held
    have hlong : (d.file e.handle).toBytes.length = e.length := by
      rw [hhandle, hlength, Disk.file_eq hnode, Contents.length_toBytes, hsize]
    exact Nat.le_of_eq hlong.symm
  write e data place d backs stands := by
    have hfits := backs.fits
    obtain ⟨file, hf, hhandle, hlength⟩ := lies.exists_file backs.mem
    obtain ⟨contents, hnode, hsize⟩ := (stands file hf).held
    have hbound := houses.fits file hf
    rw [← hhandle] at hnode
    obtain ⟨after, hwrite, makes⟩ := Disk.write_ok hnode backs.pos
      (show place + data.length < positionBound by omega)
    have hreply : s.host.write e.handle data place d = (.ok data.length, after) := by
      change ((d.write e.handle data place).1.mapError Failure.error,
        (d.write e.handle data place).2) = _
      rw [hwrite]
      rfl
    refine ⟨after, hreply, ?_, ?_, ?_⟩
    · change (after.file e.handle).toBytes = (d.file e.handle).toBytes.overlay place data
      rw [Disk.file_eq ((makes e.handle).trans (if_pos rfl)), Disk.file_eq hnode,
        Contents.toBytes_write, Bytes.extend_of_le]
      rw [Contents.length_toBytes]
      omega
    · intro other hne
      exact congrArg Contents.toBytes (Disk.file_congr ((makes other).trans (if_neg hne)))
    · intro other ho
      rw [hhandle] at makes
      refine (stands other ho).kept houses hf ho (fun _ h => absurd h List.not_mem_nil) makes ?_
      rw [Contents.size_write]
      omega
  read e window place d backs stands := by
    have hfits := backs.fits
    obtain ⟨file, hf, hhandle, hlength⟩ := lies.exists_file backs.mem
    have hbound := houses.fits file hf
    have hrange : Disk.isRange place window.length = true :=
      decide_eq_true (show place + window.length < positionBound by omega)
    change (FileReading.ofBytes (d.read e.handle window.length place), d) = _
    rw [Disk.read, if_pos hrange, Contents.read_eq]
    rfl

theorem nodup_handles (houses : s.Houses limits files) {v : Volume Location Empty}
    (lies : s.Lies files v) : (backing : Backing Location Location (Disk limits)).Distinct v := by
  have hhandles := Manifest.map_handle_placed 0
    (show (files.map fun file => s.place file.path).length = files.length from List.length_map _)
  have hdistinct := houses.distinct
  rw [← hhandles, ← lies] at hdistinct
  exact hdistinct

/-- A manifest whose files are ready opens, and its files stand in their places then. -/
theorem run_ofManifest {manifest : Manifest} (houses : s.Houses limits manifest.files)
    (sum : Manifest.lengths manifest.files < wordBound) :
    ∃ v : Volume Location Empty, s.Lies manifest.files v ∧ v.cache = none ∧
      v.total = Manifest.lengths manifest.files ∧
      ∀ d : Disk limits, (∀ file ∈ manifest.files, s.Ready d file) →
        ∃ after, (Volume.ofManifest manifest).run s.host d = (.ok v, after) ∧
          (∀ file ∈ manifest.files, s.Stands after file) ∧ backing.Same d after := by
  obtain ⟨layout, hextents, htotal, hrun⟩ := Volume.run_openFiles (fun file => s.place file.path)
    manifest.files Layout.empty (by rw [Volume.total_empty, Nat.zero_add]; exact sum)
  rw [Volume.total_empty, Nat.zero_add] at htotal
  refine ⟨⟨layout, none⟩, hextents, rfl, htotal, fun d ready => ?_⟩
  obtain ⟨after, hopened, -, -, hstands, hsame⟩ := hrun s.host _ (opens houses d) d
    ⟨fun _ h => h, ready, fun _ h => .inl h, .refl d⟩
  refine ⟨after, ?_, fun file hf => (hstands file hf).resolve_left List.not_mem_nil, hsame⟩
  rw [Volume.ofManifest, Program.bind_eq, Program.run_bind, hopened]
  rfl

end DiskSystem

end FlatVolume
