import FlatVolume.Proofs.MemoryFiles
import FlatVolume.Proofs.Opening

/-!
# Opening on files in memory

What opening the files of a manifest makes of a namespace: each file is there, with zeros
up to its declared length, and nothing else has changed.
-/

namespace FlatVolume

def Manifest.extents : (start : Nat) → List DeclaredFile → List (Extent String)
  | _, [] => []
  | start, file :: rest =>
    ⟨start, file.length, file.displayPath⟩ :: extents (start + file.length) rest

namespace Memory

def openAll (m : Memory) : List DeclaredFile → Memory
  | [] => m
  | file :: rest =>
    (m.put file.displayPath ((m.file file.displayPath).extend file.length)).openAll rest

/-- The declared bytes of the files end to end; a file that is shorter goes on with zeros. -/
def image (m : Memory) (files : List DeclaredFile) : Bytes :=
  files.flatMap fun file => ((m.bytes file.displayPath).extend file.length).take file.length

variable {m m' : Memory} {files : List DeclaredFile}

theorem openFile_eq {path : List String} {length : Nat} (valid : Path.check path = .ok ())
    (fits : length < positionBound) :
    m.openFile path length =
      (.ok (Path.display path),
        m.put (Path.display path) ((m.file (Path.display path)).extend length)) := by
  rw [openFile, valid]
  dsimp only
  rw [if_neg (by omega)]

/-- In memory the handle of a file is its path. -/
theorem extents_eq_placed (start : Nat) (files : List DeclaredFile) :
    Manifest.extents start files =
      Manifest.placed start files (files.map DeclaredFile.displayPath) := by
  induction files generalizing start with
  | nil => rfl
  | cons file rest ih => rw [Manifest.extents, ih, List.map_cons, Manifest.placed]

/-- Opening files that fit behind a layout appends them to it, whatever is in memory. -/
theorem run_openFiles (valid : ∀ file ∈ files, Path.check file.path = .ok ())
    (fits : ∀ file ∈ files, file.length < positionBound) (layout : Layout String)
    (sum : layout.total + Manifest.lengths files < wordBound) :
    ∃ layout' : Layout String,
      layout'.extents = layout.extents ++ Manifest.extents layout.total files ∧
      layout'.total = layout.total + Manifest.lengths files ∧
      ∀ m : Memory, (Volume.openFiles files layout).run host m = (.ok layout', m.openAll files) := by
  obtain ⟨layout', hextents, htotal, hrun⟩ :=
    Volume.run_openFiles DeclaredFile.displayPath files layout sum
  refine ⟨layout', by rw [hextents, extents_eq_placed], htotal, fun m => ?_⟩
  have hopens : host.Opens DeclaredFile.displayPath fun rest m' =>
      (∀ file ∈ rest, file ∈ files) ∧ m'.openAll rest = m.openAll files := by
    rintro file rest m' ⟨hsub, hsame⟩
    have hf := hsub file List.mem_cons_self
    exact ⟨_, openFile_eq (valid file hf) (fits file hf),
      fun f hrest => hsub f (List.mem_cons_of_mem _ hrest), hsame⟩
  obtain ⟨after, hopened, -, hafter⟩ := hrun host _ hopens m ⟨fun _ h => h, rfl⟩
  rw [hopened]
  exact congrArg _ hafter

theorem contents?_openAll_of_ne {key : String} (h : ∀ file ∈ files, file.displayPath ≠ key) :
    (m.openAll files).contents? key = m.contents? key := by
  induction files generalizing m with
  | nil => rfl
  | cons file rest ih =>
    rw [openAll, ih fun f hf => h f (List.mem_cons_of_mem _ hf), contents?_put,
      if_neg (h file List.mem_cons_self)]

theorem contents?_openAll (distinct : (files.map DeclaredFile.displayPath).Nodup)
    {file : DeclaredFile} (hf : file ∈ files) :
    (m.openAll files).contents? file.displayPath =
      some ((m.bytes file.displayPath).extend file.length) := by
  induction files generalizing m with
  | nil => simp at hf
  | cons first rest ih =>
    rw [List.map_cons, List.nodup_cons] at distinct
    rw [openAll]
    rcases List.mem_cons.mp hf with rfl | hf
    · rw [contents?_openAll_of_ne, contents?_put, if_pos rfl, Contents.toBytes_extend]
      · rfl
      · intro f hmem hsame
        exact distinct.1 (hsame ▸ List.mem_map_of_mem hmem)
    · have hne : first.displayPath ≠ file.displayPath := fun hsame =>
        distinct.1 (hsame ▸ List.mem_map_of_mem hf)
      rw [ih distinct.2 hf, bytes_eq, contents?_put, if_neg hne, ← bytes_eq]

theorem stretch_eq (m : Memory) (key : String) (length : Nat) :
    backing.stretch m key 0 length = ((m.bytes key).extend length).take length := by
  apply List.ext_getElem?
  intro i
  rw [Backing.getElem?_stretch, List.getElem?_take, Bytes.extend, List.getElem?_append, Bytes.zeros,
    List.getElem?_replicate, Nat.zero_add]
  simp only [backing, List.getD_eq_getElem?_getD]
  by_cases hi : i < length
  · rw [if_pos hi, if_pos hi]
    by_cases hin : i < (m.bytes key).length
    · rw [if_pos hin, List.getElem?_eq_getElem hin, Option.getD_some]
    · rw [if_neg hin, if_pos (by omega), List.getElem?_eq_none (by omega), Option.getD_none]
  · rw [if_neg hi, if_neg hi]

theorem flatten_extents (m : Memory) (start : Nat) :
    backing.flatten m (Manifest.extents start files) = m.image files := by
  induction files generalizing start with
  | nil => rfl
  | cons file rest ih =>
    have hrest := ih (start + file.length)
    rw [Backing.flatten] at hrest ⊢
    rw [Manifest.extents, List.flatMap_cons, hrest, image, image, List.flatMap_cons]
    congr 1
    exact m.stretch_eq file.displayPath file.length

theorem image_openAll (distinct : (files.map DeclaredFile.displayPath).Nodup) :
    (m.openAll files).image files = m.image files := by
  rw [image, image, List.flatMap_def, List.flatMap_def]
  congr 1
  refine List.map_congr_left fun file hf => ?_
  rw [bytes_eq, contents?_openAll distinct hf, Option.getD_some, Bytes.extend_of_le]
  rw [Bytes.length_extend]
  omega

theorem mem_extents {start : Nat} {e : Extent String} (he : e ∈ Manifest.extents start files) :
    ∃ file ∈ files, e.handle = file.displayPath ∧ e.length = file.length := by
  rw [extents_eq_placed] at he
  exact Manifest.mem_placed he

theorem getElem?_extents (start : Nat) {index : Nat} {file : DeclaredFile}
    (hf : files[index]? = some file) :
    (Manifest.extents start files)[index]? =
      some ⟨start + Manifest.lengths (files.take index), file.length,
        file.displayPath⟩ := by
  rw [extents_eq_placed]
  refine Manifest.getElem?_placed start hf ?_
  rw [List.getElem?_map, hf, Option.map_some]

theorem map_handle_extents (start : Nat) (files : List DeclaredFile) :
    (Manifest.extents start files).map Extent.handle = files.map DeclaredFile.displayPath := by
  rw [extents_eq_placed]
  exact Manifest.map_handle_placed start (List.length_map _)

end Memory

end FlatVolume
