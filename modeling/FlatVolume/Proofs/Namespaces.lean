import FlatVolume.Proofs.Ledger
import FlatVolume.Proofs.MemoryGrowth

/-!
# Namespaces in memory

Systems, clones of them and open files only refer to a namespace, and a namespace finds its files
by displayed paths. All of them together behave as the ledger says: every run of errands has its
answers, and leaves in every directory what it holds.
-/

namespace FlatVolume

/-- A namespace holds the files of `contents`, those of `paths` and no other. -/
structure Memory.Shows (m : Memory) (contents : List String → Option Bytes)
    (paths : Finset (List String)) : Prop where
  shown : ∀ text, m.contents? text = contents (Path.split text)
  mem_paths : ∀ path, path ∈ paths ↔ (contents path).isSome = true
  valid : ∀ path ∈ paths, Path.check path = .ok ()
  nodup : (m.files.map Prod.fst).Nodup

namespace Memory.Shows

variable {m : Memory} {contents : List String → Option Bytes} {paths : Finset (List String)}

theorem empty : Memory.empty.Shows (fun _ => none) ∅ where
  shown _ := rfl
  mem_paths path := by simp
  valid path h := absurd h (Finset.notMem_empty path)
  nodup := List.nodup_nil

theorem bytes_display (h : m.Shows contents paths) {path : List String}
    (valid : Path.check path = .ok ()) :
    m.bytes (Path.display path) = (contents path).getD [] := by
  rw [Memory.bytes_eq, h.shown, Path.split_display valid]

theorem size_eq (h : m.Shows contents paths) : m.size = paths.card := by
  have hkeys : (m.files.map Prod.fst).toFinset = paths.image Path.display := by
    ext text
    rw [List.mem_toFinset, ← Table.get?_isSome_iff, Finset.mem_image]
    have hsome : (m.files.get? text).isSome = (contents (Path.split text)).isSome := by
      rw [← h.shown, Memory.contents?, Option.isSome_map]
      rfl
    rw [hsome, ← h.mem_paths]
    constructor
    · intro hmem
      exact ⟨_, hmem, Path.display_split text⟩
    · rintro ⟨path, hmem, rfl⟩
      rw [Path.split_display (h.valid path hmem)]
      exact hmem
  have hcard := List.toFinset_card_of_nodup h.nodup
  rw [hkeys, Finset.card_image_of_injOn, List.length_map] at hcard
  · exact hcard.symm
  · intro path hmem path' hmem' heq
    exact Path.display_inj (h.valid path hmem) (h.valid path' hmem') heq

theorem put (h : m.Shows contents paths) {path : List String} (valid : Path.check path = .ok ())
    {contents' : List String → Option Bytes} {paths' : Finset (List String)} (new : Contents)
    (hcontents : ∀ path', contents' path' =
      if path' = path then some new.toBytes else contents path')
    (hpaths : ∀ path', path' ∈ paths' ↔ path' = path ∨ path' ∈ paths) :
    (m.put (Path.display path) new).Shows contents' paths' where
  shown text := by
    rw [Memory.contents?_put, hcontents, h.shown]
    by_cases htext : Path.split text = path
    · rw [if_pos htext, if_pos (htext ▸ Path.display_split text)]
    · rw [if_neg htext, if_neg]
      rintro rfl
      exact htext (Path.split_display valid)
  mem_paths path' := by
    rw [hpaths, h.mem_paths, hcontents]
    split
    · rename_i hpath
      simp [hpath]
    · rename_i hpath
      simp [hpath]
  valid path' hmem := by
    rcases (hpaths path').mp hmem with rfl | hmem
    · exact valid
    · exact h.valid path' hmem
  nodup := Table.nodup_set h.nodup _ _

end Memory.Shows

namespace Table

variable {κ ν β : Type} [DecidableEq κ] {t : Table κ ν} {f : κ → Option β} {g : β → ν}

theorem get?_set_update (h : ∀ k, t.get? k = (f k).map g) (key : κ) (x : β) (k : κ) :
    (t.set key (g x)).get? k = (Function.update f key (some x) k).map g := by
  rw [get?_set, Function.update_apply, h]
  by_cases hk : key = k
  · rw [if_pos hk, if_pos hk.symm, Option.map_some]
  · rw [if_neg hk, if_neg (Ne.symm hk)]

theorem get?_erase_update (h : ∀ k, t.get? k = (f k).map g) (key k : κ) :
    (t.erase key).get? k = (Function.update f key none k).map g := by
  rw [get?_erase, Function.update_apply, h]
  by_cases hk : key = k
  · rw [if_pos hk, if_pos hk.symm, Option.map_none]
  · rw [if_neg hk, if_neg (Ne.symm hk)]

theorem update_eq_some {key k : κ} {new : Option β} {x : β}
    (h : Function.update f key new k = some x) : new = some x ∨ f k = some x := by
  rw [Function.update_apply] at h
  split at h
  · exact .inl h
  · exact .inr h

end Table

namespace Archive

theorem find?_put (a : Archive) (directory directory' : String) (m : Memory) :
    (a.put directory m).find? directory' =
      if directory = directory' then some m else a.find? directory' :=
  Table.get?_set _ _ _ _

theorem put_find? {a : Archive} {directory : String} {m : Memory}
    (h : a.find? directory = some m) : a.put directory m = a := by
  rw [put, Table.set_get? h]

/-- A directory that is asked for keeps what it holds, and an accepted one is there from then on. -/
theorem require_ok (a : Archive) {directory : String}
    (valid : Path.checkComponent directory = .ok ()) :
    ∃ a', a.require directory = (.ok (), a') ∧ ∀ directory', a'.find? directory' =
      if directory = directory' then some ((a.find? directory).getD .empty)
      else a.find? directory' := by
  unfold require
  rw [valid]
  cases hfind : a.find? directory with
  | some m =>
    refine ⟨a, rfl, fun directory' => ?_⟩
    split
    · rename_i heq
      rw [← heq, hfind]
      rfl
    · rfl
  | none => exact ⟨_, rfl, fun directory' => a.find?_put directory directory' .empty⟩

end Archive

namespace Bench

variable {b : Bench} {id : Nat} {directory : String}

theorem archive_setArchive (b : Bench) (id : Nat) (a : Archive) :
    ({ b with archives := b.archives.set id a } : Bench).archive id = a := by
  rw [archive, Table.get?_set_self, Option.getD_some]

theorem memory_eq (b : Bench) (id : Nat) (directory : String) :
    b.memory (.inArchive id directory) = ((b.archive id).find? directory).getD .empty := rfl

/-- To put back what is there changes nothing. -/
theorem putMemory_self (archived : (b.archives.get? id).isSome = true)
    (made : ((b.archive id).find? directory).isSome = true) :
    b.putMemory (b.memory (.inArchive id directory)) (.inArchive id directory) = b := by
  obtain ⟨a, ha⟩ := Option.isSome_iff_exists.mp archived
  obtain ⟨m, hm⟩ := Option.isSome_iff_exists.mp made
  have harchive : b.archive id = a := by rw [archive, ha, Option.getD_some]
  rw [putMemory, memory_eq, hm, Option.getD_some, Archive.put_find? hm, harchive, Table.set_get? ha]

namespace Session

theorem takeEvents_quiet {s : Session} (quiet : s.bench.events = []) : s.takeEvents = ([], s) := by
  obtain ⟨bench, systems, providers, files, volumes, caches⟩ := s
  obtain ⟨memories, archives, disk, settings, scripts, tallies, benchCaches, next, events⟩ := bench
  obtain rfl : events = [] := quiet
  rfl

/-- A session in which a provider, its systems and its files are as the ledger says. -/
structure Follows (provider : String) (id : Nat) (l : Ledger) (s : Session) : Prop where
  provided : s.providers.get? provider = some (.archive id)
  archived : (s.bench.archives.get? id).isSome = true
  quiet : s.bench.events = []
  systems : ∀ name, s.systems.get? name =
    (l.systems name).map fun directory => .memory (.inArchive id directory)
  files : ∀ name, s.files.get? name =
    (l.files name).map fun file => .memory (.inArchive id file.1) (Path.display file.2)
  made : ∀ directory, ((s.bench.archive id).find? directory).isSome = true ↔ directory ∈ l.made
  shown : ∀ directory, (s.bench.memory (.inArchive id directory)).Shows (l.contents directory)
    (l.paths directory)
  system_made : ∀ name directory, l.systems name = some directory → directory ∈ l.made
  file_opened : ∀ name file, l.files name = some file → file.1 ∈ l.made ∧ file ∈ l.opened

namespace Follows

variable {provider : String} {l l' : Ledger} {s : Session} {path : List String}

theorem bindSystem (h : Follows provider id l s) (hmade : directory ∈ l.made) (name : String) :
    Follows provider id (l.bind name directory)
      (s.bindSystem name (.memory (.inArchive id directory))) where
  provided := h.provided
  archived := h.archived
  quiet := h.quiet
  systems := Table.get?_set_update h.systems name directory
  files := h.files
  made := h.made
  shown := h.shown
  system_made name' directory' hsystem := by
    rcases Table.update_eq_some hsystem with heq | hsystem
    · cases heq
      exact hmade
    · exact h.system_made name' directory' hsystem
  file_opened := h.file_opened

theorem bindFile (h : Follows provider id l s) {file : String × List String}
    (hmade : file.1 ∈ l.made) (hopened : file ∈ l.opened) (name : String) :
    Follows provider id { l with files := Function.update l.files name (some file) }
      { s with
        files := s.files.set name (.memory (.inArchive id file.1) (Path.display file.2)) } where
  provided := h.provided
  archived := h.archived
  quiet := h.quiet
  systems := h.systems
  files := Table.get?_set_update h.files name file
  made := h.made
  shown := h.shown
  system_made := h.system_made
  file_opened name' file' hfile := by
    rcases Table.update_eq_some hfile with heq | hfile
    · cases heq
      exact ⟨hmade, hopened⟩
    · exact h.file_opened name' file' hfile

theorem eraseFile (h : Follows provider id l s) (name : String) :
    Follows provider id { l with files := Function.update l.files name none }
      { s with files := s.files.erase name } where
  provided := h.provided
  archived := h.archived
  quiet := h.quiet
  systems := h.systems
  files := Table.get?_erase_update h.files name
  made := h.made
  shown := h.shown
  system_made := h.system_made
  file_opened name' file' hfile := by
    rcases Table.update_eq_some hfile with heq | hfile
    · cases heq
    · exact h.file_opened name' file' hfile

/-- Another archive in which the same files are. -/
theorem setArchive (h : Follows provider id l s) (a : Archive) (made : List String)
    (hmade : ∀ directory, (a.find? directory).isSome = true ↔ directory ∈ made)
    (hsub : ∀ directory ∈ l.made, directory ∈ made)
    (hshown : ∀ directory, (a.find? directory).getD .empty =
      s.bench.memory (.inArchive id directory)) :
    Follows provider id { l with made }
      { s with bench := { s.bench with archives := s.bench.archives.set id a } } where
  provided := h.provided
  archived := by
    rw [Table.get?_set_self]
    rfl
  quiet := h.quiet
  systems := h.systems
  files := h.files
  made directory := by
    rw [archive_setArchive]
    exact hmade directory
  shown directory := by
    rw [memory_eq, archive_setArchive, hshown]
    exact h.shown directory
  system_made name directory hsystem := hsub directory (h.system_made name directory hsystem)
  file_opened name file hfile := by
    obtain ⟨hmade, hopened⟩ := h.file_opened name file hfile
    exact ⟨hsub _ hmade, hopened⟩

/-- A file is put in place of one, or is new. -/
theorem put (h : Follows provider id l s) (opened : List (String × List String))
    (hmade : directory ∈ l.made) (valid : Path.check path = .ok ())
    (hopened : ∀ file, file ∈ opened ↔ file = (directory, path) ∨ file ∈ l.opened)
    (new : Contents) :
    let m := (s.bench.memory (.inArchive id directory)).put (Path.display path) new
    Follows provider id { l.put directory path new.toBytes with opened }
      { s with bench := s.bench.putMemory m (.inArchive id directory) } := by
  intro m
  have harchive : (s.bench.putMemory m (.inArchive id directory)).archive id =
      (s.bench.archive id).put directory m := archive_setArchive _ _ _
  have hmemory : ∀ directory', (s.bench.putMemory m (.inArchive id directory)).memory
      (.inArchive id directory') =
        if directory = directory' then m else s.bench.memory (.inArchive id directory') := by
    intro directory'
    rw [memory_eq, harchive, Archive.find?_put]
    split <;> rfl
  exact {
    provided := h.provided
    archived := by
      rw [putMemory, Table.get?_set_self]
      rfl
    quiet := h.quiet
    systems := h.systems
    files := h.files
    made := by
      intro directory'
      rw [harchive, Archive.find?_put]
      split
      · rename_i heq
        exact iff_of_true rfl (heq ▸ hmade)
      · exact h.made directory'
    shown := by
      intro directory'
      rw [hmemory]
      by_cases heq : directory = directory'
      · subst heq
        rw [if_pos rfl]
        apply (h.shown directory).put valid new
        · intro path'
          refine (l.contents_put directory path _ directory path').trans ?_
          simp
        · intro path'
          simp [hopened]
      · rw [if_neg heq]
        have hcontents : (l.put directory path new.toBytes).contents directory' =
            l.contents directory' := by
          funext path'
          rw [Ledger.contents_put, if_neg]
          rintro ⟨⟩
          exact heq rfl
        have hpaths : ({ l.put directory path new.toBytes with opened } : Ledger).paths directory' =
            l.paths directory' := by
          ext path'
          rw [Ledger.mem_paths, Ledger.mem_paths]
          simp [hopened, Ne.symm heq]
        rw [hpaths]
        exact hcontents ▸ h.shown directory'
    system_made := h.system_made
    file_opened := by
      intro name file hfile
      obtain ⟨hfmade, hfopened⟩ := h.file_opened name file hfile
      exact ⟨hfmade, (hopened file).mpr (.inr hfopened)⟩ }

/-- What is done about an errand in the session is what the ledger says. -/
def Done (provider : String) (id : Nat) (l : Ledger) (errand : Errand)
    (done : Answer × Session) : Prop :=
  done.1 = (l.perform errand).1 ∧ Follows provider id (l.perform errand).2 done.2

theorem newSystem_rejected (h : Follows provider id l s) {e : IoError}
    (invalid : Path.checkComponent directory = .error e) (name : String) :
    s.newSystem provider directory name = (.ioError e, s) := by
  have hrejected : (s.bench.archive id).require directory = (.error e, s.bench.archive id) := by
    rw [Archive.require, invalid]
  unfold Session.newSystem
  rw [h.provided]
  dsimp only
  rw [hrejected]

theorem openHandle_rejected (h : Follows provider id l s) {system : String}
    (hsystem : l.systems system = some directory) {e : IoError}
    (invalid : Path.check path = .error e) (length : Nat) (file : String) :
    s.openHandle system path length file = (.ioError e, s) := by
  have hmade := (h.made directory).mpr (h.system_made system directory hsystem)
  have hopen : s.bench.openFile path length (.memory (.inArchive id directory)) =
      (.error (.error e), s.bench) := by
    rw [openFile, Memory.openFile, invalid]
    dsimp only
    rw [putMemory_self h.archived hmade]
    rfl
  unfold Session.openHandle
  rw [h.systems, hsystem, Option.map_some]
  dsimp only
  rw [hopen]
  rfl

theorem newSystem (h : Follows provider id l s) (directory name : String) :
    Done provider id l (.make directory name) (s.newSystem provider directory name) := by
  unfold Done
  rw [Ledger.perform]
  rcases hvalid : Path.checkComponent directory with e | ⟨⟨⟩⟩
  · rw [h.newSystem_rejected hvalid]
    exact ⟨rfl, h⟩
  · obtain ⟨a, hrequire, hfind⟩ := (s.bench.archive id).require_ok hvalid
    unfold Session.newSystem
    rw [h.provided]
    dsimp only
    rw [hrequire]
    refine ⟨rfl, ?_⟩
    have hset := h.setArchive a (directory :: l.made) ?_ ?_ ?_
    · exact hset.bindSystem List.mem_cons_self name
    · intro directory'
      rw [hfind, List.mem_cons, ← h.made]
      split
      · rename_i heq
        exact iff_of_true rfl (.inl heq.symm)
      · rename_i heq
        simp [Ne.symm heq]
    · exact fun directory' hmade => List.mem_cons_of_mem _ hmade
    · intro directory'
      rw [hfind]
      split
      · rename_i heq
        rw [← heq]
        rfl
      · rfl

theorem findSystem (h : Follows provider id l s) (directory name : String) :
    Done provider id l (.find directory name) (s.findSystem provider directory name) := by
  unfold Done Session.findSystem Ledger.perform
  have hmade := h.made directory
  rw [h.provided]
  dsimp only
  cases hfind : (s.bench.archive id).find? directory with
  | none =>
    rw [hfind] at hmade
    rw [if_neg fun hmem => Bool.noConfusion (hmade.mpr hmem)]
    exact ⟨rfl, h⟩
  | some m =>
    rw [hfind] at hmade
    rw [if_pos (hmade.mp rfl)]
    exact ⟨rfl, h.bindSystem (hmade.mp rfl) name⟩

theorem share (h : Follows provider id l s) (other name : String) :
    Done provider id l (.share other name) (s.makeSystem name (.sharing other)) := by
  unfold Done makeSystem Ledger.perform
  dsimp only
  rw [h.systems]
  cases hsystem : l.systems other with
  | none => exact ⟨rfl, h⟩
  | some directory => exact ⟨rfl, h.bindSystem (h.system_made other directory hsystem) name⟩

theorem openHandle (h : Follows provider id l s) (system : String) (path : List String) {length : Nat}
    (fits : length < positionBound) (file : String) :
    Done provider id l (.openFile system path length file)
      (s.openHandle system path length file) := by
  unfold Done
  rw [Ledger.perform]
  cases hsystem : l.systems system with
  | none =>
    unfold Session.openHandle
    rw [h.systems, hsystem]
    exact ⟨rfl, h⟩
  | some directory =>
    have hmade := h.system_made system directory hsystem
    dsimp only
    rcases hvalid : Path.check path with e | ⟨⟨⟩⟩
    · rw [h.openHandle_rejected hsystem hvalid]
      exact ⟨rfl, h⟩
    · let new := ((s.bench.memory (.inArchive id directory)).file (Path.display path)).extend length
      have hopen : s.bench.openFile path length (.memory (.inArchive id directory)) =
          (.ok (.memory (.inArchive id directory) (Path.display path)),
            s.bench.putMemory
              ((s.bench.memory (.inArchive id directory)).put (Path.display path) new)
              (.inArchive id directory)) := by
        rw [openFile, Memory.openFile_eq hvalid fits]
        rfl
      have hbytes : new.toBytes = (l.bytes directory path).extend length := by
        rw [Contents.toBytes_extend, ← Memory.bytes, (h.shown directory).bytes_display hvalid]
        rfl
      have hput := h.put ((directory, path) :: l.opened) hmade hvalid
        (fun file => List.mem_cons) new
      rw [hbytes] at hput
      unfold Session.openHandle
      rw [h.systems, hsystem, Option.map_some]
      dsimp only
      rw [hopen]
      exact ⟨rfl, hput.bindFile hmade List.mem_cons_self file⟩

theorem readHandle (h : Follows provider id l s) (file : String) (offset length : Nat) :
    Done provider id l (.read file offset length) (s.readHandle file offset length) := by
  unfold Done Session.readHandle
  rw [Ledger.perform, h.files]
  cases hfile : l.files file with
  | none => exact ⟨rfl, h⟩
  | some opened =>
    obtain ⟨directory, path⟩ := opened
    obtain ⟨-, hopened⟩ := h.file_opened file _ hfile
    have hvalid := (h.shown directory).valid path (Ledger.mem_paths.mpr hopened)
    have hread : (s.bench.memory (.inArchive id directory)).read (Path.display path) length offset =
        (l.bytes directory path).window offset length := by
      rw [Memory.read_eq, (h.shown directory).bytes_display hvalid]
      rfl
    rw [Option.map_some]
    dsimp only
    rw [Bench.readHandle, hread]
    refine ⟨?_, h⟩
    have hlength : ((l.bytes directory path).window offset length).length ≤
        (List.replicate length filler).length := by
      rw [Bytes.length_window, List.length_replicate]
      exact Nat.min_le_left _ _
    have hlaid := Bytes.overlay_zero hlength
    rw [List.drop_replicate] at hlaid
    exact congrArg (fun buffer => Answer.fileReading buffer _) hlaid

theorem writeHandle (h : Follows provider id l s) (file : String) {offset : Nat} {data : Bytes}
    (fits : offset + data.length < positionBound) :
    Done provider id l (.write file offset data) (s.writeHandle file offset data) := by
  unfold Done Session.writeHandle
  rw [Ledger.perform, h.files]
  cases hfile : l.files file with
  | none => exact ⟨rfl, h⟩
  | some opened =>
    obtain ⟨directory, path⟩ := opened
    obtain ⟨hmade, hopened⟩ := h.file_opened file _ hfile
    have hvalid := (h.shown directory).valid path (Ledger.mem_paths.mpr hopened)
    let new := ((s.bench.memory (.inArchive id directory)).file (Path.display path)).write offset data
    have hwrite : s.bench.writeHandle data offset
        (.memory (.inArchive id directory) (Path.display path)) = (.ok data.length,
          s.bench.putMemory
            ((s.bench.memory (.inArchive id directory)).put (Path.display path) new)
            (.inArchive id directory)) := by
      have hword : positionBound ≤ wordBound := Nat.div_le_self _ _
      rw [Bench.writeHandle, Memory.write, Word.add?_eq_some_iff.mpr ⟨by omega, rfl⟩]
      dsimp only
      rw [if_neg (by omega)]
      rfl
    have hbytes : new.toBytes =
        ((l.bytes directory path).extend (offset + data.length)).overlay offset data := by
      rw [Contents.toBytes_write, ← Memory.bytes, (h.shown directory).bytes_display hvalid]
      rfl
    have hput := h.put l.opened hmade hvalid ?_ new
    · rw [hbytes] at hput
      rw [Option.map_some]
      dsimp only
      rw [hwrite]
      exact ⟨rfl, hput⟩
    · intro file
      constructor
      · exact .inr
      · rintro (rfl | hfile)
        · exact hopened
        · exact hfile

theorem closeHandle (h : Follows provider id l s) (file : String) :
    Done provider id l (.close file) (s.closeHandle file) := by
  unfold Done Session.closeHandle
  rw [Ledger.perform, h.files]
  cases hfile : l.files file with
  | none => exact ⟨rfl, h⟩
  | some opened => exact ⟨rfl, h.eraseFile file⟩

theorem memory_eq (h : Follows provider id l s) (system : String) :
    s.memory system = match l.systems system with
      | none => .error (.unknown .system system)
      | some directory => .ok (s.bench.memory (.inArchive id directory)) := by
  rw [Session.memory, h.systems]
  cases l.systems system <;> rfl

theorem contents (h : Follows provider id l s) (system text : String) :
    Done provider id l (.contents system text) (s.contents system text, s) := by
  unfold Done Session.contents
  rw [Ledger.perform, h.memory_eq, h.systems]
  cases hsystem : l.systems system with
  | none => exact ⟨rfl, h⟩
  | some directory =>
    refine ⟨?_, h⟩
    exact congrArg Answer.contents ((h.shown directory).shown text)

theorem perform (h : Follows provider id l s) {errand : Errand} (fits : errand.Fits) :
    Done provider id l errand (s.perform (errand.step provider)) := by
  cases errand with
  | make directory name => exact h.newSystem directory name
  | find directory name => exact h.findSystem directory name
  | share other name => exact h.share other name
  | openFile system path length file => exact h.openHandle system path fits file
  | read file offset length => exact h.readHandle file offset length
  | write file offset data => exact h.writeHandle file fits
  | close file => exact h.closeHandle file
  | contents system text => exact h.contents system text
  | contains system text =>
    unfold Done Errand.step Session.perform
    dsimp only
    rw [Ledger.perform, h.memory_eq]
    cases hsystem : l.systems system with
    | none => exact ⟨rfl, h⟩
    | some directory =>
      refine ⟨?_, h⟩
      have hshown := congrArg Option.isSome ((h.shown directory).shown text)
      rw [Memory.contents?, Option.isSome_map] at hshown
      exact congrArg Answer.contains hshown
  | size system =>
    unfold Done Errand.step Session.perform
    dsimp only
    rw [Ledger.perform, h.memory_eq]
    cases hsystem : l.systems system with
    | none => exact ⟨rfl, h⟩
    | some directory =>
      refine ⟨?_, h⟩
      exact congrArg Answer.size (h.shown directory).size_eq

/-- Only a directory or a path that is not accepted is rejected, before anything has changed. -/
theorem perform_ioError (h : Follows provider id l s) {errand : Errand} (fits : errand.Fits)
    {e : IoError} (rejected : (s.perform (errand.step provider)).1 = .ioError e) :
    (s.perform (errand.step provider)).2 = s := by
  have hledger := (h.perform fits).1.symm.trans rejected
  cases errand with
  | make directory name =>
    rw [Ledger.perform] at hledger
    rcases hvalid : Path.checkComponent directory with e | ⟨⟨⟩⟩
    · exact congrArg Prod.snd (h.newSystem_rejected hvalid name)
    · rw [hvalid] at hledger
      cases hledger
  | openFile system path length file =>
    rw [Ledger.perform] at hledger
    cases hsystem : l.systems system with
    | none =>
      rw [hsystem] at hledger
      cases hledger
    | some directory =>
      rw [hsystem] at hledger
      dsimp only at hledger
      rcases hvalid : Path.check path with e | ⟨⟨⟩⟩
      · exact congrArg Prod.snd (h.openHandle_rejected hsystem hvalid length file)
      · rw [hvalid] at hledger
        cases hledger
  | find | share | read | write | close | contents | contains | size =>
    rw [Ledger.perform] at hledger
    split at hledger <;> cases hledger

theorem step (h : Follows provider id l s) {errand : Errand} (fits : errand.Fits) :
    (s.step (errand.step provider)).1 = ((l.perform errand).1, []) ∧
      (s.step (errand.step provider)).2 = (s.perform (errand.step provider)).2 ∧
      Follows provider id (l.perform errand).2 (s.step (errand.step provider)).2 := by
  obtain ⟨hanswer, hfollows⟩ := h.perform fits
  have hevents := takeEvents_quiet hfollows.quiet
  have hordered : isUnordered (errand.step provider) = false := by
    cases errand <;> rfl
  unfold Session.step
  dsimp only
  rw [hevents, hordered, hanswer]
  exact ⟨rfl, rfl, hfollows⟩

theorem steps (h : Follows provider id l s) {errands : List Errand}
    (fits : ∀ errand ∈ errands, errand.Fits) :
    (s.steps (errands.map (Errand.step provider))).1 =
        (l.performAll errands).1.map (fun answer => (answer, [])) ∧
      Follows provider id (l.performAll errands).2
        (s.steps (errands.map (Errand.step provider))).2 := by
  induction errands generalizing l s with
  | nil => exact ⟨rfl, h⟩
  | cons errand rest ih =>
    obtain ⟨hanswer, -, hfollows⟩ := h.step (fits errand List.mem_cons_self)
    obtain ⟨hanswers, hlast⟩ := ih hfollows fun e he => fits e (List.mem_cons_of_mem _ he)
    refine ⟨?_, hlast⟩
    rw [List.map_cons, Session.steps, Ledger.performAll]
    dsimp only
    rw [hanswer, hanswers]
    rfl

theorem begin (provider : String) :
    Follows provider 0 .empty (Session.empty.step (.makeProvider provider .archive)).2 where
  provided := by
    change Table.get? [(provider, Provider.archive 0)] provider = _
    rw [Table.get?, if_pos rfl]
  archived := rfl
  quiet := rfl
  systems _ := rfl
  files _ := rfl
  made directory := iff_of_false nofun List.not_mem_nil
  shown directory := .empty
  system_made _ _ := nofun
  file_opened _ _ := nofun

end Follows

/-- What is held in a directory under a displayed path. -/
def stored (s : Session) (id : Nat) (directory text : String) : Option Bytes :=
  (s.bench.memory (.inArchive id directory)).contents? text

/-- Every run of errands on a provider in memory goes as the ledger says: its answers, the bytes
under every directory and path, the directories that are found and the number of files. One errand
more changes nothing that it is not about; unless it writes it changes no byte and shortens no file;
and nothing at all if it is rejected. -/
theorem namespaces_follow_ledger (provider : String) (errands : List Errand)
    (fits : ∀ errand ∈ errands, errand.Fits) :
    let begun := (Session.empty.step (.makeProvider provider .archive)).2
    let last := begun.steps (errands.map (Errand.step provider))
    let ledger := Ledger.empty.performAll errands
    last.1 = ledger.1.map (fun answer => (answer, [])) ∧
    (∀ directory text,
      last.2.stored 0 directory text = ledger.2.contents directory (Path.split text)) ∧
    (∀ directory, ((last.2.bench.archive 0).find? directory).isSome = true ↔
      Path.isComponent directory = true ∧ ∃ name, Errand.make directory name ∈ errands) ∧
    (∀ directory, (last.2.bench.memory (.inArchive 0 directory)).size =
      (ledger.2.paths directory).card) ∧
    ∀ next : Errand, next.Fits →
      let after := last.2.step (next.step provider)
      (∀ directory text, ledger.2.target? next ≠ some (directory, Path.split text) →
        after.2.stored 0 directory text = last.2.stored 0 directory text) ∧
      (¬ next.Writes → ∀ directory text bytes, last.2.stored 0 directory text = some bytes →
        ∃ length, after.2.stored 0 directory text = some (bytes.extend length)) ∧
      ∀ e, after.1.1 = .ioError e → after.2 = last.2 := by
  intro begun last ledger
  obtain ⟨hanswers, hfollows⟩ := (Follows.begin provider).steps fits
  have hstored : ∀ directory text,
      last.2.stored 0 directory text = ledger.2.contents directory (Path.split text) :=
    fun directory => (hfollows.shown directory).shown
  refine ⟨hanswers, hstored, ?_, fun directory => (hfollows.shown directory).size_eq, ?_⟩
  · intro directory
    rw [hfollows.made, Ledger.mem_made_performAll]
    constructor
    · rintro (hmade | hasked)
      · cases hmade
      · exact hasked
    · exact .inr
  · intro next hfits after
    obtain ⟨hanswer, hsame, hnext⟩ := hfollows.step hfits
    have hafter : ∀ directory text, after.2.stored 0 directory text =
        (ledger.2.perform next).2.contents directory (Path.split text) :=
      fun directory => (hnext.shown directory).shown
    refine ⟨?_, ?_, ?_⟩
    · intro directory text htarget
      rw [hafter, hstored, ledger.2.contents_perform next htarget]
    · intro hwrites directory text bytes hbytes
      rw [hstored] at hbytes
      obtain ⟨length, hgrown⟩ := ledger.2.contents_perform_grows hwrites hbytes
      exact ⟨length, (hafter directory text).trans hgrown⟩
    · intro e hrejected
      have hperformed := (hfollows.perform hfits).1.trans (congrArg Prod.fst hanswer).symm
      exact hsame.trans (hfollows.perform_ioError hfits (hperformed.trans hrejected))

/-- A directory and a path that are rejected, a file that is opened again through a clone with a
smaller length and written to behind its end, and what is then read of it and found. -/
theorem namespaces_follow_ledger_reopened :
    let errands : List Errand := [.make "d" "m", .make ".." "x", .openFile "m" ["a"] 2 "f",
      .openFile "m" ["a", ""] 2 "h", .share "m" "n", .openFile "n" ["a"] 1 "g", .write "g" 4 [7],
      .read "f" 1 6, .close "f", .find "d" "k", .contents "k" "a", .size "k"]
    let begun := (Session.empty.step (.makeProvider "p" .archive)).2
    (∀ errand ∈ errands, errand.Fits) ∧
      (begun.steps (errands.map (Errand.step "p"))).1 =
        [.done, .ioError (Path.badComponent ".."), .done, .ioError (Path.badComponent ""), .done,
          .done, .moved 1, .fileReading [0, 0, 0, 7, filler, filler] (.ok 4), .done, .found true,
          .contents (some [0, 0, 0, 0, 7]), .size 1].map (fun answer => (answer, [])) := by
  intro errands begun
  have fits : ∀ errand ∈ errands, errand.Fits := by
    have hbound : 5 < positionBound := by decide
    simp [errands, Errand.Fits]
    omega
  obtain ⟨hanswers, -⟩ := namespaces_follow_ledger "p" errands fits
  exact ⟨fits, hanswers.trans rfl⟩

end Session

end Bench

end FlatVolume
