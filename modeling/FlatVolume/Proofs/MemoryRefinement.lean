import FlatVolume.Proofs.MemoryVolume
import FlatVolume.Proofs.Reopening

/-!
# A volume in memory is one array

Reads and writes of a volume on files in memory, with any number of times that it is closed
or given up and opened again in between, answer as one array of bytes does. After every
run the files hold that array, cut where they end, and what they held behind their
declared lengths.
-/

namespace FlatVolume

namespace Memory

/-- The files of a volume in memory hold an array, and are as long as when it was opened. -/
abbrev Agrees (opened : Memory) (v : Volume String Empty) (a : Bytes) (m : Memory) : Prop :=
  backing.Agrees v opened.SameShape opened a m

/-- A volume that a manifest opens, and what it was opened on. -/
structure Opens (manifest : Manifest) (v : Volume String Empty) (before opened : Memory) : Prop where
  run : ∀ m, (Volume.ofManifest manifest).run host m = (.ok v, m.openAll manifest.files)
  extents : v.layout.extents = Manifest.extents 0 manifest.files
  cache : v.cache = none
  distinct : (manifest.files.map DeclaredFile.displayPath).Nodup
  opened_eq : opened = before.openAll manifest.files

variable {manifest : Manifest} {v : Volume String Empty} {before opened m m' : Memory} {a : Bytes}

theorem closesFreely : host.ClosesFreely :=
  ⟨fun _ _ => rfl, fun _ _ => rfl⟩

namespace Opens

theorem nodup_handles (h : Opens manifest v before opened) : backing.Distinct v := by
  have hdistinct := h.distinct
  rw [← map_handle_extents 0, ← h.extents] at hdistinct
  exact hdistinct

theorem covers (h : Opens manifest v before opened) : opened.Covers v := by
  intro e he
  rw [h.extents] at he
  obtain ⟨file, hf, hhandle, hlength⟩ := mem_extents he
  rw [hhandle, hlength, bytes_eq, h.opened_eq, contents?_openAll h.distinct hf, Option.getD_some,
    Bytes.length_extend]
  omega

theorem faultless (h : Opens manifest v before opened) :
    backing.Faultless host v opened.SameShape :=
  Memory.faultless h.covers

theorem contents?_openAll (h : Opens manifest v before opened) (shape : opened.SameShape m)
    (key : String) : (m.openAll manifest.files).contents? key = m.contents? key := by
  by_cases hkey : ∃ file ∈ manifest.files, file.displayPath = key
  · obtain ⟨file, hf, rfl⟩ := hkey
    have hshape := shape file.displayPath
    rw [h.opened_eq, Memory.contents?_openAll h.distinct hf] at hshape
    rw [Memory.contents?_openAll h.distinct hf, bytes_eq]
    cases hm : m.contents? file.displayPath with
    | none => simp [hm] at hshape
    | some bytes =>
      simp only [hm, Option.map_some, Option.some.injEq, Bytes.length_extend] at hshape
      rw [Option.getD_some, Bytes.extend_of_le (by omega)]
  · exact contents?_openAll_of_ne fun file hf hsame => hkey ⟨file, hf, hsame⟩

theorem reopens (h : Opens manifest v before opened) :
    backing.Reopens host manifest v opened.SameShape where
  faultless := h.faultless
  distinct := h.nodup_handles
  uncached := h.cache
  free := closesFreely
  opens m shape := by
    have hkept := h.contents?_openAll shape
    refine ⟨_, h.run m, fun key => ?_, fun key i => ?_⟩
    · rw [hkept key, shape key]
    · simp only [backing, bytes_eq, hkept]

theorem outside_behind (h : Opens manifest v before opened) {index i : Nat} {e : Extent String}
    (he : v.layout.extents[index]? = some e) (hi : e.length ≤ i) :
    backing.Outside v e.handle i := by
  intro e' he' hsame
  obtain ⟨k, hk⟩ := List.mem_iff_getElem?.mp he'
  obtain rfl := h.nodup_handles.index_unique hk he hsame
  obtain rfl := Option.some.inj (hk.symm.trans he)
  exact hi

end Opens

namespace Agrees

theorem start (h : Opens manifest v before opened) :
    Agrees opened v (before.image manifest.files) opened := by
  have himage : before.image manifest.files = backing.flat v opened := by
    rw [Backing.flat, h.extents, flatten_extents, h.opened_eq, image_openAll h.distinct]
  rw [himage]
  exact Backing.Agrees.start (.refl opened)

theorem length_eq (h : Agrees opened v a m) : a.length = v.total :=
  Backing.Agrees.length_eq h

theorem performAll (h : Agrees opened v a m) (opens : Opens manifest v before opened)
    (patience : Nat) (actions : List Action) :
    ∃ m', (Action.performAll manifest patience actions v).run host m =
        (((Action.allOnArray actions a).1, v), m') ∧
      Agrees opened v (Action.allOnArray actions a).2 m' :=
  Backing.Agrees.performAll h opens.reopens patience actions

theorem contents?_eq (h : Agrees opened v a m) (opens : Opens manifest v before opened) {index : Nat}
    {file : DeclaredFile} (hf : manifest.files[index]? = some file) :
    m.contents? file.displayPath =
      some (a.window (Manifest.lengths (manifest.files.take index)) file.length ++
        (before.bytes file.displayPath).drop file.length) := by
  have hmem := List.mem_of_getElem? hf
  have hopened := Memory.contents?_openAll (m := before) opens.distinct hmem
  rw [← opens.opened_eq] at hopened
  have hshape := h.sound file.displayPath
  rw [hopened, Option.map_some, Bytes.length_extend] at hshape
  obtain ⟨bytes, hbytes, hlength⟩ := Option.map_eq_some_iff.mp hshape
  have hextent := getElem?_extents 0 hf
  rw [← opens.extents, Nat.zero_add] at hextent
  generalize Manifest.lengths (manifest.files.take index) = start at hextent ⊢
  have he := List.mem_of_getElem? hextent
  have hbound := (v.layout.tiles.bounds he).2
  have htotal : a.length = v.layout.total := h.length_eq
  dsimp only at hbound
  rw [hbytes, Option.some.injEq]
  apply List.ext_getElem?
  intro i
  rw [List.getElem?_append, Bytes.length_window]
  by_cases hi : i < file.length
  · have hflat := Backing.getElem?_flat (b := backing) v m he (Nat.le_add_right start i)
      (Nat.add_lt_add_left hi start)
    rw [h.flat_eq, Nat.add_sub_cancel_left] at hflat
    rw [if_pos (by omega), Bytes.window, List.getElem?_take, if_pos hi, List.getElem?_drop, hflat,
      getElem?_of_contents? hbytes (by omega)]
    rfl
  · rw [if_neg (by omega), List.getElem?_drop,
      show file.length + (i - min file.length (a.length - start)) = i by omega]
    by_cases hin : i < bytes.length
    · have houtside := opens.outside_behind hextent (Nat.le_of_not_lt hi)
      have hbefore : i < (before.bytes file.displayPath).length := by omega
      rw [getElem?_of_contents? hbytes hin, h.outside _ i houtside, List.getElem?_eq_getElem hbefore]
      simp only [backing]
      rw [opened.bytes_eq, hopened, Option.getD_some, Bytes.extend, List.getD_eq_getElem?_getD,
        List.getElem?_append_left hbefore, List.getElem?_eq_getElem hbefore, Option.getD_some]
    · rw [List.getElem?_eq_none (by omega), List.getElem?_eq_none (by omega)]

theorem contents?_eq_of_ne (h : Agrees opened v a m) (opens : Opens manifest v before opened)
    {key : String} (hkey : ∀ file ∈ manifest.files, file.displayPath ≠ key) :
    m.contents? key = before.contents? key := by
  rw [← contents?_openAll_of_ne (m := before) hkey, ← opens.opened_eq]
  refine contents?_congr (h.sound key) fun i => h.outside key i fun e he hsame => ?_
  rw [opens.extents] at he
  obtain ⟨file, hf, hhandle, -⟩ := mem_extents he
  exact absurd (hhandle.symm.trans hsame) (hkey file hf)

end Agrees

theorem nodup_displayPath {files : List DeclaredFile}
    (valid : ∀ file ∈ files, Path.check file.path = .ok ())
    (distinct : (files.map DeclaredFile.path).Nodup) :
    (files.map DeclaredFile.displayPath).Nodup := by
  rw [List.nodup_iff_pairwise_ne, List.pairwise_map] at distinct ⊢
  refine distinct.imp_of_mem fun hx hy hne hsame => hne ?_
  exact Path.display_inj (valid _ hx) (valid _ hy) hsame

theorem opens_manifest {manifest : Manifest}
    (valid : ∀ file ∈ manifest.files, Path.check file.path = .ok ())
    (distinct : (manifest.files.map DeclaredFile.path).Nodup)
    (sum : Manifest.lengths manifest.files < wordBound)
    (fits : ∀ file ∈ manifest.files, file.length < positionBound) (before : Memory) :
    ∃ v, Opens manifest v before (before.openAll manifest.files) ∧
      v.total = Manifest.lengths manifest.files := by
  have hempty : (Layout.empty : Layout String).total = 0 := rfl
  obtain ⟨layout, hextents, htotal, hrun⟩ := run_openFiles valid fits Layout.empty
    (by rw [hempty, Nat.zero_add]; exact sum)
  refine ⟨⟨layout, none⟩, ⟨fun m => ?_, hextents, rfl, nodup_displayPath valid distinct, rfl⟩, ?_⟩
  · rw [Volume.ofManifest, Program.bind_eq, Program.run_bind, hrun]
    rfl
  · rw [hempty, Nat.zero_add] at htotal
    exact htotal

/-- A volume on files in memory is one array of bytes: every run of actions answers as it does
on the array, and leaves each file with its part of the array in front of what it held
behind its declared length. -/
theorem volume_is_array {manifest : Manifest}
    (valid : ∀ file ∈ manifest.files, Path.check file.path = .ok ())
    (distinct : (manifest.files.map DeclaredFile.path).Nodup)
    (sum : Manifest.lengths manifest.files < wordBound)
    (fits : ∀ file ∈ manifest.files, file.length < positionBound) (before : Memory) :
    ∃ v opened, (Volume.ofManifest manifest).run host before = (.ok v, opened) ∧
      v.total = Manifest.lengths manifest.files ∧
      (before.image manifest.files).length = v.total ∧
      ∀ patience actions,
        let last := (Action.performAll manifest patience actions v).run host opened
        let array := Action.allOnArray actions (before.image manifest.files)
        last.1.1 = array.1 ∧
        (∀ index file, manifest.files[index]? = some file →
          last.2.contents? file.displayPath =
            some (array.2.window (Manifest.lengths (manifest.files.take index))
              file.length ++ (before.bytes file.displayPath).drop file.length)) ∧
        ∀ key, (∀ file ∈ manifest.files, file.displayPath ≠ key) →
          last.2.contents? key = before.contents? key := by
  obtain ⟨v, opens, htotal⟩ := opens_manifest valid distinct sum fits before
  have hstart := Agrees.start opens
  refine ⟨v, _, opens.run before, htotal, hstart.length_eq, fun patience actions => ?_⟩
  obtain ⟨m, hrun, hagrees⟩ := hstart.performAll opens patience actions
  rw [hrun]
  exact ⟨rfl, fun index file hf => hagrees.contents?_eq opens hf,
    fun key hkey => hagrees.contents?_eq_of_ne opens hkey⟩

/-- Two files around an empty one, the first with more in it than is declared: a write over all
of them with a byte too many, and what is read of it after opening again. -/
theorem volume_is_array_reopened :
    let manifest := Manifest.multi "v" [⟨["a"], 2, none⟩, ⟨["d", "b"], 0, none⟩, ⟨["c"], 3, none⟩]
    let before := Memory.empty.put "a" (.ofBytes [1, 2, 3])
    ∃ v opened, (Volume.ofManifest manifest).run host before = (.ok v, opened) ∧
      ∀ patience, ((Action.performAll manifest patience
          [.write [5, 6, 7, 8, 9] 1, .close, .read [1, 1, 1, 1, 1, 1, 1] 0] v).run host
            opened).1.1 =
        [.writing (.error (.error (.nonZeroTrailingData 5 4))), .closing (.ok ()),
          .reading ⟨[1, 5, 6, 7, 8, 0, 0], .ok 7⟩] := by
  intro manifest before
  have valid : ∀ file ∈ manifest.files, Path.check file.path = .ok () := by
    simp only [Path.check_eq_ok_iff]
    decide
  obtain ⟨v, opened, hrun, -, -, h⟩ := volume_is_array valid (by decide) (by decide) (by decide) before
  exact ⟨v, opened, hrun, fun patience => (h patience _).1.trans rfl⟩

end Memory

end FlatVolume
