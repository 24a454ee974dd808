import FlatVolume.Proofs.DiskVolume
import FlatVolume.Proofs.MemoryGrowth
import FlatVolume.Proofs.MemoryRefinement

/-!
# Files on disk and files in memory

Under an empty root, declared paths of which none leads through another have their places side by
side. A volume over them is one array of bytes, and so is one over files in memory that are all
new: whatever is done with the two, they answer alike, and the files hold the same bytes.
-/

namespace FlatVolume

namespace DiskSystem

variable {s : DiskSystem} {limits : DiskLimits} {d : Disk limits} {manifest : Manifest}
  {v : Volume Location Empty} {files : List DeclaredFile} {path other : List String}
  {place : Location}

theorem place_eq (s : DiskSystem) (h : ∀ c ∈ path, Path.isComponent c = true) :
    s.place path = (s.place []).below path := by
  rw [DiskSystem.place, Disk.reached_append, Disk.reached_component _ h, DiskSystem.place,
    List.append_nil]
  rfl

theorem place_inj (h : ∀ c ∈ path, Path.isComponent c = true)
    (h' : ∀ c ∈ other, Path.isComponent c = true) (heq : s.place path = s.place other) :
    path = other := by
  rw [place_eq s h, place_eq s h'] at heq
  exact Location.below_inj h h' heq

/-- A place on the way to a declared path is on the way to the root or that of a shorter path. -/
theorem mem_above (valid : Path.check path = .ok ()) (hplace : place ∈ s.above path) :
    place ∈ Disk.way (Path.names s.root) ∨
      ∃ front rest, path = front ++ rest ∧ front ≠ [] ∧ rest ≠ [] ∧ place = s.place front := by
  obtain ⟨hne, hall⟩ := Path.check_eq_ok_iff.mp valid
  rw [above_eq s hne, Disk.visits_append, List.mem_append] at hplace
  rcases hplace with hroot | hdown
  · exact .inl (List.mem_append_left _ hroot)
  · obtain ⟨front, rest, rfl, hrest, hbelow⟩ := Disk.mem_visits_component hall hdown
    cases front with
    | nil =>
      refine .inl (List.mem_append_right _ ?_)
      rw [hbelow]
      exact List.mem_singleton_self _
    | cons c front =>
      refine .inr ⟨c :: front, rest, rfl, List.cons_ne_nil _ _, hrest, ?_⟩
      rw [hbelow, DiskSystem.place, Disk.reached_append,
        Disk.reached_component _ fun c' hc' => hall c' (List.mem_append_left _ hc')]

/-- Nothing is under the root and no file is on the way to it. The way to a root that is yet to be
made does not lead through a place under it either. -/
structure EmptyRoot (s : DiskSystem) {limits : DiskLimits} (d : Disk limits) : Prop where
  passable : ∀ place ∈ Disk.way (Path.names s.root), d.Passable place
  bare : ∀ path, Path.check path = .ok () → d.node? (s.place path) = none
  outside : ∀ path, Path.check path = .ok () → s.place path ∉ Disk.way (Path.names s.root)

/-- On an empty disk every root that is reached by going down is an empty one. -/
theorem emptyRoot_empty (s : DiskSystem) (limits : DiskLimits)
    (h : ∀ c ∈ Path.names s.root, Path.isComponent c = true) :
    s.EmptyRoot (.empty : Disk limits) := by
  have hall {path : List String} (valid : Path.check path = .ok ()) :
      ∀ c ∈ Path.names s.root ++ path, Path.isComponent c = true :=
    List.forall_mem_append.mpr ⟨h, (Path.check_eq_ok_iff.mp valid).2⟩
  have hplace {path : List String} (valid : Path.check path = .ok ()) :
      s.place path = Location.below "" (Path.names s.root ++ path) :=
    Disk.reached_component [] (hall valid)
  constructor
  · intro place _ contents hfile
    rw [Disk.node?] at hfile
    split at hfile
    · cases hfile
    · cases hfile
  · intro path valid
    have hne : s.place path ≠ "" := by
      intro htop
      rw [hplace valid] at htop
      have hnone : Path.names s.root ++ path = [] :=
        Location.below_inj (hall valid) (fun _ h => absurd h List.not_mem_nil) htop
      exact (Path.check_eq_ok_iff.mp valid).1 (List.append_eq_nil_iff.mp hnone).2
    rw [Disk.node?, if_neg hne]
    rfl
  · intro path valid hway
    obtain ⟨front, rest, hnames, hsame⟩ := Disk.mem_way_component h hway
    rw [hplace valid] at hsame
    have hfront := Location.below_inj (hall valid)
      (fun c hc => h c (hnames ▸ List.mem_append_left _ hc)) hsame
    have hpos := List.length_pos_of_ne_nil (Path.check_eq_ok_iff.mp valid).1
    have hlength := congrArg List.length hnames
    rw [← hfront] at hlength
    simp only [List.length_append] at hlength
    omega

theorem EmptyRoot.ready {file : DeclaredFile} (empty : s.EmptyRoot d)
    (valid : Path.check file.path = .ok ()) : s.Ready d file where
  passable place hplace := by
    obtain ⟨-, hall⟩ := Path.check_eq_ok_iff.mp valid
    rcases mem_above valid hplace with hroot | ⟨front, rest, hpath, hne, -, rfl⟩
    · exact empty.passable place hroot
    · intro contents
      rw [hpath] at hall
      rw [empty.bare front (Path.check_eq_ok_iff.mpr
        ⟨hne, fun c hc => hall c (List.mem_append_left _ hc)⟩)]
      exact nofun
  free := by
    rw [empty.bare file.path valid]
    exact nofun
  short := by
    rw [Disk.file, empty.bare file.path valid]
    exact Nat.zero_le _

theorem EmptyRoot.houses (empty : s.EmptyRoot d) (preallocates : s.preallocate = true)
    (valid : ∀ file ∈ files, Path.check file.path = .ok ())
    (takes : ∀ file ∈ files, ∀ text, s.resolve file.path = .ok text →
      limits.Takes (Path.steps text))
    (fits : ∀ file ∈ files, file.length < positionBound)
    (distinct : (files.map DeclaredFile.path).Nodup)
    (apart : ∀ file ∈ files, ∀ other ∈ files, file.path <+: other.path → file.path = other.path) :
    s.Houses limits files where
  preallocates := preallocates
  valid := valid
  takes := takes
  fits := fits
  apart file hf other ho hplace := by
    obtain ⟨-, hall⟩ := Path.check_eq_ok_iff.mp (valid file hf)
    obtain ⟨-, hall'⟩ := Path.check_eq_ok_iff.mp (valid other ho)
    rcases mem_above (valid other ho) hplace with hroot | ⟨front, rest, hpath, -, hrest, hsame⟩
    · exact empty.outside file.path (valid file hf) hroot
    · rw [hpath] at hall'
      have hfront := place_inj hall (fun c hc => hall' c (List.mem_append_left _ hc)) hsame
      have hequal := apart file hf other ho ⟨rest, by rw [hfront, hpath]⟩
      rw [hequal, hpath] at hfront
      exact hrest (List.append_right_eq_self.mp hfront)
  distinct := by
    have hmap : files.map (fun file => s.place file.path) =
        (files.map DeclaredFile.path).map s.place := by
      rw [List.map_map]
      rfl
    rw [hmap]
    apply distinct.map_on
    intro path hpath path' hpath' hsame
    obtain ⟨file, hf, rfl⟩ := List.mem_map.mp hpath
    obtain ⟨file', hf', rfl⟩ := List.mem_map.mp hpath'
    exact place_inj (Path.check_eq_ok_iff.mp (valid file hf)).2
      (Path.check_eq_ok_iff.mp (valid file' hf')).2 hsame

/-- A volume that a manifest opens on a disk that has its files in their places. -/
structure Opens (s : DiskSystem) (limits : DiskLimits) (manifest : Manifest)
    (v : Volume Location Empty) : Prop where
  houses : s.Houses limits manifest.files
  lies : s.Lies manifest.files v
  uncached : v.cache = none
  run : ∀ d : Disk limits, (∀ file ∈ manifest.files, s.Ready d file) →
    ∃ after, (Volume.ofManifest manifest).run s.host d = (.ok v, after) ∧
      (∀ file ∈ manifest.files, s.Stands after file) ∧ backing.Same d after

theorem Opens.reopens (h : s.Opens limits manifest v) :
    backing.Reopens s.host manifest v fun d : Disk limits => ∀ file ∈ manifest.files, s.Stands d file where
  faultless := (solid h.houses h.lies).faultless
  distinct := nodup_handles h.houses h.lies
  uncached := h.uncached
  free := s.closesFreely limits
  opens d stands := h.run d fun file hf => (stands file hf).ready

/-- What the disk has at the text of a declared path is the part of the array that is the file's. -/
theorem Opens.contents?_eq (h : s.Opens limits manifest v) {opened : Disk limits} {a : Bytes}
    (agrees : backing.Agrees v (fun d => ∀ file ∈ manifest.files, s.Stands d file) opened a d)
    {index : Nat} {file : DeclaredFile} (hf : manifest.files[index]? = some file) :
    ∃ text, s.resolve file.path = .ok text ∧ d.contents? text =
      some (a.window (Manifest.lengths (manifest.files.take index)) file.length) := by
  have hmem := List.mem_of_getElem? hf
  obtain ⟨text, hresolve, hnames, hends⟩ := Path.resolve_names s.root (h.houses.valid file hmem)
  obtain ⟨hne, -⟩ := Path.check_eq_ok_iff.mp (h.houses.valid file hmem)
  have hstands := agrees.sound file hmem
  obtain ⟨contents, hnode, hsize⟩ := hstands.held
  have hdirectories := hstands.directories
  rw [above_eq s hne, ← hnames] at hdirectories
  have hlocate : d.locate (Path.steps text) = .ok (s.place file.path) := by
    rw [Disk.locate_ok (h.houses.takes file hmem text hresolve) hdirectories]
    exact congrArg (Except.ok <| Disk.reached [] ·) hnames
  have hhandle : (manifest.files.map fun file => s.place file.path)[index]? =
      some (s.place file.path) := by
    rw [List.getElem?_map, hf, Option.map_some]
  have hextent := Manifest.getElem?_placed 0 hf hhandle
  rw [← h.lies, Nat.zero_add] at hextent
  have hlength : contents.toBytes.length = file.length := by
    rw [Contents.length_toBytes, hsize]
  have hfit : 0 + file.length ≤ (d.file (s.place file.path)).toBytes.length := by
    rw [Disk.file_eq hnode]
    omega
  have hstretch := (solid h.houses h.lies).stretch_eq hfit
  rw [Disk.file_eq hnode, Bytes.window, List.drop_zero, ← hlength, List.take_length, hlength]
    at hstretch
  refine ⟨text, hresolve, ?_⟩
  rw [Disk.contents?, if_pos hends, hlocate]
  dsimp only
  rw [hnode, ← agrees.flat_eq]
  dsimp only
  rw [← hstretch]
  exact congrArg some (Backing.window_flat v d (List.mem_of_getElem? hextent)
    (Nat.le_of_eq (Nat.zero_add file.length))).symm

/-- Under an empty root every manifest that can be housed there opens, and all its bytes are
zeros. -/
theorem EmptyRoot.opens (empty : s.EmptyRoot d) (houses : s.Houses limits manifest.files)
    (sum : Manifest.lengths manifest.files < wordBound) :
    ∃ v opened, s.Opens limits manifest v ∧
      (Volume.ofManifest manifest).run s.host d = (.ok v, opened) ∧
      v.total = Manifest.lengths manifest.files ∧
      backing.Agrees v (fun d => ∀ file ∈ manifest.files, s.Stands d file) opened
        (Bytes.zeros (Manifest.lengths manifest.files)) opened := by
  obtain ⟨v, lies, uncached, htotal, hrun⟩ := run_ofManifest houses sum
  obtain ⟨opened, hopened, hstands, hsame⟩ :=
    hrun d fun file hf => empty.ready (houses.valid file hf)
  have hzeros : backing.flat v opened = Bytes.zeros (Manifest.lengths manifest.files) := by
    rw [Backing.flat_congr v hsame, ← htotal]
    apply Backing.flat_eq_zeros
    intro e he i
    obtain ⟨file, hf, hhandle, -⟩ := lies.exists_file he
    change (d.file e.handle).toBytes.getD i 0 = 0
    rw [hhandle, Disk.file, empty.bare file.path (houses.valid file hf)]
    rfl
  refine ⟨v, opened, ⟨houses, lies, uncached, hrun⟩, hopened, htotal, ?_⟩
  rw [← hzeros]
  exact .start hstands

end DiskSystem

namespace Memory

/-- On new files in memory all bytes are zeros. -/
theorem opens_empty {manifest : Manifest}
    (valid : ∀ file ∈ manifest.files, Path.check file.path = .ok ())
    (distinct : (manifest.files.map DeclaredFile.path).Nodup)
    (sum : Manifest.lengths manifest.files < wordBound)
    (fits : ∀ file ∈ manifest.files, file.length < positionBound) :
    ∃ v opened, Opens manifest v .empty opened ∧ v.total = Manifest.lengths manifest.files ∧
      Agrees opened v (Bytes.zeros (Manifest.lengths manifest.files)) opened := by
  obtain ⟨v, opens, htotal⟩ := opens_manifest valid distinct sum fits .empty
  refine ⟨v, _, opens, htotal, ?_⟩
  have hzeros : backing.flat v (openAll .empty manifest.files) =
      Bytes.zeros (Manifest.lengths manifest.files) := by
    rw [Backing.flat_congr v (same_openAll .empty manifest.files), ← htotal]
    exact Backing.flat_eq_zeros fun _ _ _ => rfl
  rw [← hzeros]
  exact Backing.Agrees.start (.refl _)

end Memory

namespace DiskSystem

/-- Files in memory and files on disk do for each other. Take declared paths of which none leads
through another, and a disk on which every path is looked up. Then, over new files in memory and
under an empty root on disk, the manifest opens, every run of actions is answered alike, as an array
of zeros answers it, and the last volumes close; every declared file holds the same bytes here and
there, which are its part of the array. -/
theorem interchangeable_with_memory {s : DiskSystem} {d : Disk .unlimited} {manifest : Manifest}
    (preallocates : s.preallocate = true)
    (valid : ∀ file ∈ manifest.files, Path.check file.path = .ok ())
    (distinct : (manifest.files.map DeclaredFile.path).Nodup)
    (apart : ∀ file ∈ manifest.files, ∀ other ∈ manifest.files,
      file.path <+: other.path → file.path = other.path)
    (sum : Manifest.lengths manifest.files < positionBound)
    (empty : s.EmptyRoot d) :
    ∃ v opened w laid, (Volume.ofManifest manifest).run Memory.host .empty = (.ok v, opened) ∧
      (Volume.ofManifest manifest).run s.host d = (.ok w, laid) ∧
      v.total = Manifest.lengths manifest.files ∧ w.total = Manifest.lengths manifest.files ∧
      ∀ patience actions,
        let inMemory := (Action.performAll manifest patience actions v).run Memory.host opened
        let onDisk := (Action.performAll manifest patience actions w).run s.host laid
        let array := Action.allOnArray actions (Bytes.zeros (Manifest.lengths manifest.files))
        inMemory.1.1 = onDisk.1.1 ∧ onDisk.1.1 = array.1 ∧
        inMemory.1.2.close.run Memory.host inMemory.2 = (.ok (), inMemory.2) ∧
        onDisk.1.2.close.run s.host onDisk.2 = (.ok (), onDisk.2) ∧
        ∀ index file, manifest.files[index]? = some file → ∃ text bytes,
          s.resolve file.path = .ok text ∧
          inMemory.2.contents? (Path.display file.path) = some bytes ∧
          onDisk.2.contents? text = some bytes ∧
          bytes = array.2.window (Manifest.lengths (manifest.files.take index)) file.length := by
  have hbound : Manifest.lengths manifest.files < wordBound :=
    Nat.lt_of_lt_of_le sum (Nat.div_le_self _ _)
  have fits : ∀ file ∈ manifest.files, file.length < positionBound := by
    intro file hf
    exact Nat.lt_of_le_of_lt (Manifest.length_le_lengths hf) sum
  have takes : ∀ file ∈ manifest.files, ∀ text, s.resolve file.path = .ok text →
      DiskLimits.unlimited.Takes (Path.steps text) :=
    fun _ _ text _ => DiskLimits.takes_unlimited (Path.steps text)
  have houses := empty.houses preallocates valid takes fits distinct apart
  obtain ⟨v, opened, opens, htotal, hnew⟩ := Memory.opens_empty valid distinct hbound fits
  obtain ⟨w, laid, opens', hlaid, htotal', hnew'⟩ := empty.opens houses hbound
  have hopened := opens.run .empty
  rw [← opens.opened_eq] at hopened
  refine ⟨v, opened, w, laid, hopened, hlaid, htotal, htotal', ?_⟩
  intro patience actions
  -- Both sides follow one array, so that neither has to be compared with the other step by step.
  obtain ⟨m, hm, hmemory⟩ := hnew.performAll opens patience actions
  obtain ⟨o, ho, hdisk⟩ := hnew'.performAll opens'.reopens patience actions
  simp only [hm, ho]
  refine ⟨trivial, trivial, Memory.closesFreely.run_close opens.cache m,
    (s.closesFreely _).run_close opens'.uncached o, ?_⟩
  intro index file hf
  obtain ⟨text, hresolve, hcontents⟩ := opens'.contents?_eq hdisk hf
  refine ⟨text, _, hresolve, ?_, hcontents, rfl⟩
  have hkept := hmemory.contents?_eq opens hf
  have hnone : (Memory.empty.bytes file.displayPath).drop file.length = [] := List.drop_nil
  rw [hnone, List.append_nil] at hkept
  exact hkept

/-- Three files, two of them in one directory, under a root that is yet to be made: a write over all
of them with a byte too many, and what is read of it after opening again. -/
theorem interchangeable_with_memory_reopened :
    let s : DiskSystem := ⟨"t", true⟩
    let manifest := Manifest.multi "v"
      [⟨["a"], 2, none⟩, ⟨["d", "b"], 0, none⟩, ⟨["d", "c"], 3, none⟩]
    let actions := [Action.write [5, 6, 7, 8, 9] 1, .close, .read [1, 1, 1, 1, 1, 1, 1] 0]
    let answers := [Answer.writing (.error (.error (.nonZeroTrailingData 5 4))), .closing (.ok ()),
      .reading ⟨[0, 5, 6, 7, 8, 0, 0], .ok 7⟩]
    let d : Disk .unlimited := .empty
    s.EmptyRoot d ∧
    ∃ v opened w laid, (Volume.ofManifest manifest).run Memory.host .empty = (.ok v, opened) ∧
      (Volume.ofManifest manifest).run s.host d = (.ok w, laid) ∧ ∀ patience,
        let inMemory := (Action.performAll manifest patience actions v).run Memory.host opened
        let onDisk := (Action.performAll manifest patience actions w).run s.host laid
        inMemory.1.1 = answers ∧ onDisk.1.1 = answers ∧
          inMemory.2.contents? "d/c" = some [6, 7, 8] ∧
          onDisk.2.contents? "t/d/c" = some [6, 7, 8] := by
  intro s manifest actions answers d
  have valid : ∀ file ∈ manifest.files, Path.check file.path = .ok () := by
    simp only [Path.check_eq_ok_iff]
    decide
  have empty : s.EmptyRoot d := emptyRoot_empty s .unlimited (by decide)
  obtain ⟨v, opened, w, laid, hopened, hlaid, -, -, h⟩ := interchangeable_with_memory rfl valid
    (by decide) (by decide) (by decide) empty
  refine ⟨empty, v, opened, w, laid, hopened, hlaid, ?_⟩
  intro patience
  obtain ⟨halike, hanswers, -, -, hfiles⟩ := h patience actions
  obtain ⟨text, bytes, hresolve, hmemory, hdisk, rfl⟩ := hfiles 2 ⟨["d", "c"], 3, none⟩ rfl
  rw [DiskSystem.resolve, Path.resolve, valid _ (by decide)] at hresolve
  have htext : ["d", "c"].foldl Path.join s.root = "t/d/c" := by decide
  cases htext.symm.trans (Except.ok.inj hresolve)
  exact ⟨(halike.trans hanswers).trans rfl, hanswers.trans rfl, hmemory.trans rfl,
    hdisk.trans rfl⟩

end DiskSystem

end FlatVolume
