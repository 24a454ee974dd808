import FlatVolume.Proofs.Closing

/-!
# Opening all files or none

The files of a manifest are opened in order, up to the first that does not fit behind the
others or that the file system refuses. If there is such a file, then what was opened before
it is closed again and the failure names it; if there is none, then the files lie end to end
in the volume.
-/

namespace FlatVolume

variable {Handle Cache σ : Type}

def DeclaredFile.opening (file : DeclaredFile) : Request Handle Cache :=
  .openFile file.path file.length

namespace Host

def openFile (host : Host Handle Cache σ) (file : DeclaredFile) (state : σ) :
    Except (Failure IoError) Handle × σ :=
  host.answer file.opening state

/-- What a file system replies when it is asked for one file after the other. -/
def openEach (host : Host Handle Cache σ) :
    List DeclaredFile → σ → List (Except (Failure IoError) Handle)
  | [], _ => []
  | file :: rest, state =>
    (host.openFile file state).1 :: host.openEach rest (host.openFile file state).2

/-- Every open gives a handle or an error. -/
def OpensOrRefuses (host : Host Handle Cache σ) : Prop :=
  ∀ file state fault, (host.openFile file state).1 ≠ .error (.fault fault)

/-- As long as the files that are still to be opened are ready, the first of them opens, with the
given handle, and the others are ready then. -/
def Opens (host : Host Handle Cache σ) (handle : DeclaredFile → Handle)
    (ready : List DeclaredFile → σ → Prop) : Prop :=
  ∀ file rest state, ready (file :: rest) state →
    ∃ after, host.openFile file state = (.ok (handle file), after) ∧ ready rest after

theorem length_openEach (host : Host Handle Cache σ) (files : List DeclaredFile) (state : σ) :
    (host.openEach files state).length = files.length := by
  induction files generalizing state with
  | nil => rfl
  | cons file rest ih => rw [openEach, List.length_cons, List.length_cons, ih]

theorem OpensOrRefuses.not_mem {host : Host Handle Cache σ} (opens : host.OpensOrRefuses)
    (files : List DeclaredFile) (state : σ) (fault : Fault) :
    .error (.fault fault) ∉ host.openEach files state := by
  induction files generalizing state with
  | nil => exact List.not_mem_nil
  | cons file rest ih =>
    rw [openEach, List.mem_cons, not_or]
    exact ⟨fun heq => opens _ _ fault heq.symm, ih _⟩

end Host

namespace Manifest

def lengths : List DeclaredFile → Nat
  | [] => 0
  | file :: rest => file.length + lengths rest

/-- The files end to end, the first of them at `start`. -/
def placed : (start : Nat) → List DeclaredFile → List Handle → List (Extent Handle)
  | start, file :: files, handle :: handles =>
    ⟨start, file.length, handle⟩ :: placed (start + file.length) files handles
  | _, _, _ => []

/-- File number `k` is an obstacle: with its length the sum is no longer a word, or the file
system refuses it. -/
def Obstacle (files : List DeclaredFile) (replies : List (Except (Failure IoError) Handle))
    (k : Nat) : Prop :=
  wordBound ≤ lengths (files.take (k + 1)) ∨ ∃ e, replies[k]? = some (.error (.error e))

def FirstObstacle (files : List DeclaredFile) (replies : List (Except (Failure IoError) Handle))
    (k : Nat) : Prop :=
  Obstacle files replies k ∧ ∀ j < k, ¬ Obstacle files replies j

variable {files : List DeclaredFile} {handles : List Handle}

theorem lengths_append (files files' : List DeclaredFile) :
    lengths (files ++ files') = lengths files + lengths files' := by
  induction files with
  | nil => exact (Nat.zero_add _).symm
  | cons file rest ih => rw [List.cons_append, lengths, lengths, ih, Nat.add_assoc]

theorem lengths_take_le (files : List DeclaredFile) (k : Nat) :
    lengths (files.take k) ≤ lengths files := by
  have hsplit := lengths_append (files.take k) (files.drop k)
  rw [List.take_append_drop] at hsplit
  omega

theorem length_le_lengths {file : DeclaredFile} (hf : file ∈ files) : file.length ≤ lengths files := by
  obtain ⟨before, rest, rfl⟩ := List.append_of_mem hf
  rw [lengths_append, lengths]
  omega

theorem addLengths_eq {total : Nat} (h : total < wordBound) :
    addLengths total files =
      if total + lengths files < wordBound then .ok (total + lengths files)
      else .error .overflow := by
  induction files generalizing total with
  | nil => rw [addLengths, lengths, Nat.add_zero, if_pos h]
  | cons file rest ih =>
    rw [addLengths, lengths, Word.add?, ← Nat.add_assoc]
    by_cases hfile : total + file.length < wordBound
    · rw [if_pos hfile]
      exact ih hfile
    · rw [if_neg hfile, if_neg (by omega)]

theorem totalLength_eq (m : Manifest) :
    m.totalLength = if lengths m.files < wordBound then .ok (lengths m.files)
      else .error .overflow := by
  rw [totalLength, addLengths_eq (by decide), Nat.zero_add]

theorem getElem?_placed {i : Nat} {file : DeclaredFile} {handle : Handle} (start : Nat)
    (hfile : files[i]? = some file) (hhandle : handles[i]? = some handle) :
    (placed start files handles)[i]? =
      some ⟨start + lengths (files.take i), file.length, handle⟩ := by
  induction files generalizing start handles i with
  | nil => simp at hfile
  | cons first rest ih =>
    cases handles with
    | nil => simp at hhandle
    | cons firstHandle handles =>
      cases i with
      | zero =>
        obtain rfl : first = file := by simpa using hfile
        obtain rfl : firstHandle = handle := by simpa using hhandle
        rfl
      | succ i =>
        rw [List.getElem?_cons_succ] at hfile hhandle
        rw [placed, List.getElem?_cons_succ, ih _ hfile hhandle, List.take_succ_cons, lengths,
          Nat.add_assoc]

theorem map_handle_placed (start : Nat) (h : handles.length = files.length) :
    (placed start files handles).map Extent.handle = handles := by
  induction files generalizing start handles with
  | nil => rw [List.length_eq_zero_iff.mp h]; rfl
  | cons file rest ih =>
    cases handles with
    | nil => cases h
    | cons handle handles => rw [placed, List.map_cons, ih _ (Nat.succ.inj h)]

theorem mem_placed {start : Nat} {handle : DeclaredFile → Handle} {e : Extent Handle}
    (he : e ∈ placed start files (files.map handle)) :
    ∃ file ∈ files, e.handle = handle file ∧ e.length = file.length := by
  induction files generalizing start with
  | nil => cases he
  | cons first rest ih =>
    rw [List.map_cons, placed] at he
    rcases List.mem_cons.mp he with rfl | he
    · exact ⟨first, List.mem_cons_self, rfl, rfl⟩
    · obtain ⟨file, hf, hsame⟩ := ih he
      exact ⟨file, List.mem_cons_of_mem _ hf, hsame⟩

theorem length_placed (start : Nat) (h : handles.length = files.length) :
    (placed start files handles).length = files.length := by
  rw [← List.length_map (f := Extent.handle), map_handle_placed start h, h]

theorem lengths_take_append (before rest : List DeclaredFile) (file : DeclaredFile) :
    lengths ((before ++ file :: rest).take (before.length + 1)) = lengths before + file.length := by
  rw [List.take_length_add_append, lengths_append]
  rfl

/-- The file behind those that were opened and fit is the first obstacle, if it is one. -/
theorem firstObstacle {before rest : List DeclaredFile} {file : DeclaredFile}
    {more : List (Except (Failure IoError) Handle)} (hlength : handles.length = before.length)
    (hfits : lengths before < wordBound)
    (hfile : wordBound ≤ lengths before + file.length ∨
      ∃ e, more.head? = some (.error (.error e))) :
    FirstObstacle (before ++ file :: rest) (handles.map .ok ++ more) before.length := by
  constructor
  · rw [Obstacle, lengths_take_append, ← hlength, List.getElem?_append_right (by simp),
      List.length_map, Nat.sub_self, ← List.head?_eq_getElem?]
    exact hfile
  · rintro j hj (hover | ⟨e, he⟩)
    · rw [List.take_append_of_le_length (show j + 1 ≤ before.length from hj)] at hover
      have := lengths_take_le before (j + 1)
      omega
    · rw [List.getElem?_append_left (by rw [List.length_map]; omega), List.getElem?_map] at he
      cases hhandle : handles[j]? with
      | none => simp [hhandle] at he
      | some handle => simp [hhandle] at he

theorem FirstObstacle.unique {replies : List (Except (Failure IoError) Handle)} {j k : Nat}
    (hj : FirstObstacle files replies j) (hk : FirstObstacle files replies k) : j = k := by
  rcases Nat.lt_trichotomy j k with hlt | heq | hlt
  · exact absurd hj.1 (hk.2 j hlt)
  · exact heq
  · exact absurd hk.1 (hj.2 k hlt)

end Manifest

/-- A file system that numbers what it opens. Which numbers it refuses, and which do not close,
is laid down beforehand; writes fail. -/
structure Desk where
  refuses : Nat → Option IoError
  sticks : Nat → Option IoError
  cacheSticks : Nat → Option IoError

namespace Desk

def host (d : Desk) : Host Nat Nat Nat where
  answer
    | .openFile _ _, next =>
      ((d.refuses next).elim (.ok next) fun e => .error (.error e), next + 1)
    | .readHandle _ window _, next => (.found window, next)
    | .writeHandle _ _ _, next => (.error (.error ⟨.storageFull, "no space left"⟩), next)
    | .closeHandle handle, next => ((d.sticks handle).elim (.ok ()) .error, next)
    | .readCache _ buffer _, next => (⟨buffer, .ok []⟩, next)
    | .writeCache _ data offset, next => ([⟨offset, data⟩], next)
    | .markCommitted _ _, next => ((), next)
    | .closeCache cache, next => ((d.cacheSticks cache).elim (.ok ()) .error, next)
    | .log _, next => ((), next)

theorem opensOrRefuses (d : Desk) : d.host.OpensOrRefuses := by
  intro file next fault
  simp only [Host.openFile, DeclaredFile.opening, host]
  cases d.refuses next with
  | none => exact nofun
  | some e => exact nofun

end Desk

namespace Volume

open Manifest (lengths placed)

/-- How opening files behind a layout ends, and what it has asked for. -/
inductive OpenEnds (layout : Layout Handle) (files : List DeclaredFile)
    (replies : List (Except (Failure IoError) Handle)) :
    Except (Failure VolumeError) (Layout Handle) → List (Request Handle Cache) → Prop where
  | opened {handles : List Handle} {layout' : Layout Handle} :
      replies = handles.map .ok →
      layout'.extents = layout.extents ++ placed layout.total files handles →
      layout'.total = layout.total + lengths files →
      OpenEnds layout files replies (.ok layout') (files.map DeclaredFile.opening)
  | tooLarge {before rest : List DeclaredFile} {file : DeclaredFile} {handles : List Handle}
      {more : List (Except (Failure IoError) Handle)} :
      files = before ++ file :: rest → replies = handles.map .ok ++ more →
      handles.length = before.length → layout.total + lengths before < wordBound →
      wordBound ≤ layout.total + lengths before + file.length →
      OpenEnds layout files replies (.error (.error (.tooLarge file.displayPath)))
        (before.map DeclaredFile.opening ++
          (layout.extents.map Extent.closing ++ handles.map .closeHandle))
  | refused {before rest : List DeclaredFile} {file : DeclaredFile} {handles : List Handle}
      {e : IoError} {more : List (Except (Failure IoError) Handle)} :
      files = before ++ file :: rest → replies = handles.map .ok ++ .error (.error e) :: more →
      handles.length = before.length →
      layout.total + lengths before + file.length < wordBound →
      OpenEnds layout files replies (.error (.error (.openFailed file.displayPath e)))
        ((before ++ [file]).map DeclaredFile.opening ++
          (layout.extents.map Extent.closing ++ handles.map .closeHandle))
  | faulted {fault : Fault} {requests : List (Request Handle Cache)} :
      .error (.fault fault) ∈ replies →
      OpenEnds layout files replies (.error (.fault fault)) requests

theorem closings_append (layout : Layout Handle) (length : Nat) (handle : Handle)
    (handles : List Handle) (fits : layout.total + length < wordBound) :
    (layout.append length handle fits).extents.map Extent.closing ++ handles.map .closeHandle =
      (layout.extents.map Extent.closing ++ (handle :: handles).map .closeHandle :
        List (Request Handle Cache)) := by
  simp [Layout.append, Extent.closing]

/-- One more file in front of those that are opened. -/
theorem OpenEnds.cons {layout : Layout Handle} {file : DeclaredFile} {rest : List DeclaredFile}
    {handle : Handle} {replies : List (Except (Failure IoError) Handle)}
    (fits : layout.total + file.length < wordBound)
    {outcome : Except (Failure VolumeError) (Layout Handle)}
    {requests : List (Request Handle Cache)}
    (h : OpenEnds (layout.append file.length handle fits) rest replies outcome requests) :
    OpenEnds layout (file :: rest) (.ok handle :: replies) outcome (file.opening :: requests) := by
  cases h with
  | @opened handles layout' hreplies hextents htotal =>
    have hreplies' : .ok handle :: replies = (handle :: handles).map .ok := by
      rw [hreplies, List.map_cons]
    refine .opened hreplies' ?_ ?_
    · rw [hextents, placed]
      simp [Layout.append]
    · rw [htotal, lengths]
      exact Nat.add_assoc _ _ _
  | @tooLarge before after last handles more hfiles hreplies hlength hbefore hover =>
    have hfiles' : file :: rest = (file :: before) ++ last :: after := by
      rw [hfiles, List.cons_append]
    have hreplies' : .ok handle :: replies = (handle :: handles).map .ok ++ more := by
      rw [hreplies, List.map_cons, List.cons_append]
    have hsum : layout.total + lengths (file :: before) =
        layout.total + file.length + lengths before := by rw [lengths, Nat.add_assoc]
    rw [closings_append]
    exact .tooLarge hfiles' hreplies' (congrArg Nat.succ hlength) (hsum ▸ hbefore) (hsum ▸ hover)
  | @refused before after last handles e more hfiles hreplies hlength hfits =>
    have hfiles' : file :: rest = (file :: before) ++ last :: after := by
      rw [hfiles, List.cons_append]
    have hreplies' : .ok handle :: replies =
        (handle :: handles).map .ok ++ .error (.error e) :: more := by
      rw [hreplies, List.map_cons, List.cons_append]
    have hsum : layout.total + lengths (file :: before) =
        layout.total + file.length + lengths before := by rw [lengths, Nat.add_assoc]
    rw [closings_append]
    exact .refused hfiles' hreplies' (congrArg Nat.succ hlength) (hsum ▸ hfits)
  | faulted hfault => exact .faulted (List.mem_cons_of_mem _ hfault)

theorem openFiles_ends (host : Host Handle Cache σ) (files : List DeclaredFile)
    (layout : Layout Handle) (state : σ) :
    OpenEnds layout files (host.openEach files state) ((openFiles files layout).run host state).1
      (((openFiles files layout).calls host state).map Exchange.request) := by
  -- What is open already is in `layout`, which is closed with the files of `handles` behind it.
  induction files generalizing layout state with
  | nil =>
    have hplaced : layout.extents = layout.extents ++ placed layout.total [] ([] : List Handle) :=
      (List.append_nil _).symm
    exact .opened rfl hplaced rfl
  | cons file rest ih =>
    rw [openFiles, Host.openEach]
    by_cases fits : layout.total + file.length < wordBound
    · rw [dif_pos fits, Program.bind_eq, Program.run_request_bind,
        Program.calls_request_bind host (by simp [Request.kind])]
      change OpenEnds _ _ ((host.answer (.openFile file.path file.length) state).1 ::
        host.openEach rest (host.answer (.openFile file.path file.length) state).2) _ _
      generalize host.answer (.openFile file.path file.length) state = last
      obtain ⟨reply, after⟩ := last
      rcases reply with (failure | fault) | handle
      · obtain ⟨hcloses, -⟩ := closeFiles_calls host 0 layout.extents after
        simp only [Program.bind_eq, Program.calls_bind, Program.run_bind, Program.pure_eq,
          Program.calls_done, Program.run_done, List.append_nil, List.map_cons, hcloses]
        rw [← List.append_nil (layout.extents.map Extent.closing)]
        have hfiles : file :: rest = [] ++ file :: rest := rfl
        have hreplies : .error (.error failure) :: host.openEach rest after =
            ([] : List Handle).map .ok ++ .error (.error failure) :: host.openEach rest after := rfl
        exact .refused hfiles hreplies rfl fits
      · exact .faulted List.mem_cons_self
      · exact (ih (layout.append file.length handle fits) after).cons fits
    · obtain ⟨hcloses, -⟩ := closeFiles_calls host 0 layout.extents state
      rw [dif_neg fits, Program.bind_eq, Program.run_bind, Program.calls_bind, Program.pure_eq,
        Program.calls_done, Program.run_done, List.append_nil, hcloses,
        ← List.append_nil (layout.extents.map Extent.closing)]
      have hfiles : file :: rest = [] ++ file :: rest := rfl
      have hreplies : (host.openFile file state).1 :: host.openEach rest (host.openFile file state).2 =
          ([] : List Handle).map .ok ++
            (host.openFile file state).1 :: host.openEach rest (host.openFile file state).2 := rfl
      exact .tooLarge hfiles hreplies rfl layout.total_lt (Nat.le_of_not_lt fits)

/-- Ready files whose lengths fit behind a layout are opened, and which layout they end up in does
not depend on the state. -/
theorem run_openFiles (handle : DeclaredFile → Handle) (files : List DeclaredFile)
    (layout : Layout Handle) (sum : layout.total + lengths files < wordBound) :
    ∃ layout' : Layout Handle,
      layout'.extents = layout.extents ++ placed layout.total files (files.map handle) ∧
      layout'.total = layout.total + lengths files ∧
      ∀ (host : Host Handle Cache σ) (ready : List DeclaredFile → σ → Prop),
        host.Opens handle ready → ∀ state, ready files state →
          ∃ after, (openFiles files layout).run host state = (.ok layout', after) ∧
            ready [] after := by
  induction files generalizing layout with
  | nil =>
    have hplaced : layout.extents = layout.extents ++ placed layout.total [] ([] : List Handle) :=
      (List.append_nil _).symm
    exact ⟨layout, hplaced, rfl, fun _ _ _ state hready => ⟨state, rfl, hready⟩⟩
  | cons file rest ih =>
    rw [lengths, ← Nat.add_assoc] at sum
    have fits : layout.total + file.length < wordBound := by omega
    obtain ⟨layout', hextents, htotal, hrun⟩ := ih (layout.append file.length (handle file) fits) sum
    refine ⟨layout', ?_, ?_, fun host ready opens state hready => ?_⟩
    · rw [hextents, List.map_cons, placed]
      simp [Layout.append]
    · rw [htotal, lengths, Layout.append, Nat.add_assoc]
    · obtain ⟨middle, hopen, hmiddle⟩ := opens file rest state hready
      obtain ⟨after, hrest, hafter⟩ := hrun host ready opens middle hmiddle
      refine ⟨after, ?_, hafter⟩
      change host.answer (.openFile file.path file.length) state = _ at hopen
      rw [openFiles, dif_pos fits, Program.bind_eq, Program.run_request_bind, hopen]
      exact hrest

theorem total_empty : (Layout.empty : Layout Handle).total = 0 := rfl

theorem OpenEnds.of_unobstructed {files : List DeclaredFile}
    {replies : List (Except (Failure IoError) Handle)}
    {outcome : Except (Failure VolumeError) (Layout Handle)}
    {requests : List (Request Handle Cache)} (h : OpenEnds .empty files replies outcome requests)
    (hlength : replies.length = files.length) (hfault : ∀ fault, .error (.fault fault) ∉ replies)
    (hfree : ∀ k < files.length, ¬ Manifest.Obstacle files replies k) :
    requests = files.map DeclaredFile.opening ∧ ∃ layout : Layout Handle, outcome = .ok layout ∧
      layout.extents.length = files.length ∧
      (∀ i file, files[i]? = some file → ∃ handle, replies[i]? = some (Except.ok handle) ∧
        layout.extents[i]? = some (Extent.mk (lengths (files.take i)) file.length handle)) ∧
      layout.total = lengths files := by
  cases h with
  | @opened handles layout hreplies hextents htotal =>
    rw [hreplies, List.length_map] at hlength
    refine ⟨rfl, layout, rfl, ?_, fun i file hfile => ?_, ?_⟩
    · rw [hextents]
      exact Manifest.length_placed _ hlength
    · have hi := (List.getElem?_eq_some_iff.mp hfile).1
      have hhandle : handles[i]? = some handles[i] := List.getElem?_eq_getElem (by omega)
      have hplaced := Manifest.getElem?_placed 0 hfile hhandle
      rw [Nat.zero_add] at hplaced
      refine ⟨handles[i], ?_, ?_⟩
      · rw [hreplies, List.getElem?_map, hhandle]
        rfl
      · rw [hextents]
        exact hplaced
    · rw [htotal]
      exact Nat.zero_add _
  | tooLarge hfiles hreplies hcount hbefore hover =>
    rw [hfiles, hreplies] at hfree
    rw [total_empty, Nat.zero_add] at hbefore hover
    exact absurd (Manifest.firstObstacle hcount hbefore (.inl hover)).1 (hfree _ (by simp))
  | refused hfiles hreplies hcount hfits =>
    rw [hfiles, hreplies] at hfree
    rw [total_empty, Nat.zero_add] at hfits
    refine absurd (Manifest.firstObstacle hcount ?_ (.inr ⟨_, List.head?_cons⟩)).1
      (hfree _ (by simp))
    omega
  | faulted hmem => exact absurd hmem (hfault _)

theorem OpenEnds.of_firstObstacle {files : List DeclaredFile}
    {replies : List (Except (Failure IoError) Handle)}
    {outcome : Except (Failure VolumeError) (Layout Handle)}
    {requests : List (Request Handle Cache)} (h : OpenEnds .empty files replies outcome requests)
    (hfault : ∀ fault, .error (.fault fault) ∉ replies) {k : Nat} {file : DeclaredFile}
    (hfile : files[k]? = some file) (hfirst : Manifest.FirstObstacle files replies k) :
    ∃ handles : List Handle, replies.take k = handles.map .ok ∧
      (wordBound ≤ lengths (files.take (k + 1)) →
        outcome = .error (.error (.tooLarge file.displayPath)) ∧
        requests = (files.take k).map DeclaredFile.opening ++ handles.map .closeHandle) ∧
      (lengths (files.take (k + 1)) < wordBound → ∃ e, replies[k]? = some (.error (.error e)) ∧
        outcome = .error (.error (.openFailed file.displayPath e)) ∧
        requests = (files.take (k + 1)).map DeclaredFile.opening ++ handles.map .closeHandle) := by
  cases h with
  | @opened handles layout hreplies hextents htotal =>
    have hfits := layout.total_lt
    rw [htotal, total_empty, Nat.zero_add] at hfits
    rcases hfirst.1 with hover | ⟨e, he⟩
    · have := Manifest.lengths_take_le files (k + 1)
      omega
    · rw [hreplies, List.getElem?_map] at he
      cases hhandle : handles[k]? with
      | none => simp [hhandle] at he
      | some handle => simp [hhandle] at he
  | @tooLarge before rest last handles more hfiles hreplies hcount hbefore hover =>
    rw [total_empty, Nat.zero_add] at hbefore hover
    subst hfiles hreplies
    obtain rfl := hfirst.unique (Manifest.firstObstacle hcount hbefore (.inl hover))
    obtain rfl : last = file := by simpa using hfile
    rw [Manifest.lengths_take_append]
    refine ⟨handles, ?_, fun _ => ⟨rfl, ?_⟩, fun hfits => absurd hover (Nat.not_le_of_lt hfits)⟩
    · rw [← hcount, ← List.length_map (f := Except.ok), List.take_left]
    · rw [List.take_left]
      rfl
  | @refused before rest last handles e more hfiles hreplies hcount hfits =>
    rw [total_empty, Nat.zero_add] at hfits
    subst hfiles hreplies
    obtain rfl := hfirst.unique (Manifest.firstObstacle hcount
      (Nat.lt_of_le_of_lt (Nat.le_add_right _ _) hfits) (.inr ⟨e, List.head?_cons⟩))
    obtain rfl : last = file := by simpa using hfile
    rw [Manifest.lengths_take_append]
    refine ⟨handles, ?_, fun hover => absurd hover (Nat.not_le_of_lt hfits), fun _ =>
      ⟨e, ?_, rfl, ?_⟩⟩
    · rw [← hcount, ← List.length_map (f := Except.ok), List.take_left]
    · simp [← hcount]
    · rw [List.take_length_add_append]
      rfl
  | faulted hmem => exact absurd hmem (hfault _)

theorem ofManifest_ends (host : Host Handle Cache σ) (m : Manifest) (state : σ) :
    ∃ outcome, OpenEnds .empty m.files (host.openEach m.files state) outcome
        (((ofManifest m).calls host state).map Exchange.request) ∧
      ((ofManifest m : Program Handle Cache _).run host state).1 =
        outcome.map fun layout => ⟨layout, none⟩ := by
  have hend := openFiles_ends host m.files .empty state
  rw [ofManifest, Program.bind_eq, Program.calls_bind, Program.run_bind]
  generalize (openFiles m.files .empty).run host state = last at hend
  obtain ⟨outcome, after⟩ := last
  refine ⟨outcome, ?_, ?_⟩
  · cases outcome with
    | ok layout => simpa [Program.calls_log_bind] using hend
    | error failure => simpa using hend
  · cases outcome with
    | ok layout => rfl
    | error failure => rfl

/-- Either no file is an obstacle, and all of them are opened and lie end to end in the volume;
or the first obstacle is named, and what was opened before it is closed again. -/
theorem opens_all_or_none (host : Host Handle Cache σ) (opens : host.OpensOrRefuses) (m : Manifest)
    (state : σ) :
    let replies := host.openEach m.files state
    let outcome := ((ofManifest m).run host state).1
    let requests := ((ofManifest m).calls host state).map Exchange.request
    ((∀ k < m.files.length, ¬ Manifest.Obstacle m.files replies k) →
      requests = m.files.map DeclaredFile.opening ∧
      ∃ v : Volume Handle Cache, outcome = .ok v ∧ v.cache = none ∧
        v.fileCount = m.files.length ∧
        (∀ i file, m.files[i]? = some file → ∃ handle, replies[i]? = some (Except.ok handle) ∧
          v.layout.extents[i]? =
            some (Extent.mk (lengths (m.files.take i)) file.length handle)) ∧
        v.total = lengths m.files ∧ m.totalLength = .ok v.total) ∧
    (∀ k file, m.files[k]? = some file → Manifest.FirstObstacle m.files replies k →
      ∃ handles : List Handle, replies.take k = handles.map .ok ∧
        (wordBound ≤ lengths (m.files.take (k + 1)) →
          outcome = .error (.error (.tooLarge file.displayPath)) ∧
          requests = (m.files.take k).map DeclaredFile.opening ++ handles.map .closeHandle) ∧
        (lengths (m.files.take (k + 1)) < wordBound →
          ∃ e, replies[k]? = some (.error (.error e)) ∧
            outcome = .error (.error (.openFailed file.displayPath e)) ∧
            requests =
              (m.files.take (k + 1)).map DeclaredFile.opening ++ handles.map .closeHandle)) ∧
    m.totalLength =
      if lengths m.files < wordBound then .ok (lengths m.files) else .error .overflow := by
  intro replies outcome requests
  have hlength := host.length_openEach m.files state
  have hfault := opens.not_mem m.files state
  obtain ⟨layout?, hends, houtcome⟩ := ofManifest_ends host m state
  change outcome = _ at houtcome
  refine ⟨fun hfree => ?_, fun k file hfile hfirst => ?_, m.totalLength_eq⟩
  · obtain ⟨hrequests, layout, rfl, hcount, hplaced, htotal⟩ :=
      hends.of_unobstructed hlength hfault hfree
    refine ⟨hrequests, ⟨layout, none⟩, houtcome, rfl, hcount, hplaced, htotal, ?_⟩
    rw [m.totalLength_eq, ← htotal]
    exact if_pos layout.total_lt
  · obtain ⟨handles, hopened, hlarge, hrefused⟩ := hends.of_firstObstacle hfault hfile hfirst
    refine ⟨handles, hopened, fun hover => ?_, fun hfits => ?_⟩
    · obtain ⟨rfl, hrequests⟩ := hlarge hover
      exact ⟨houtcome, hrequests⟩
    · obtain ⟨e, hreply, rfl, hrequests⟩ := hrefused hfits
      exact ⟨e, hreply, houtcome, hrequests⟩

/-- The third of three files is refused, and the second does not close: both that are open are
closed. -/
theorem opens_none_of_three :
    let refusal : IoError := ⟨.storageFull, "no space left"⟩
    let desk : Desk := ⟨fun n => if n = 2 then some refusal else none,
      fun n => if n = 1 then some refusal else none, fun _ => none⟩
    let files : List DeclaredFile :=
      [⟨["a"], 3, none⟩, ⟨["b"], 0, none⟩, ⟨["c"], 5, none⟩]
    let opening : Program Nat Nat _ := ofManifest (.multi "abc" files)
    desk.host.OpensOrRefuses ∧ Manifest.FirstObstacle files (desk.host.openEach files 0) 2 ∧
      (opening.run desk.host 0).1 =
        .error (.error (.openFailed (DeclaredFile.displayPath ⟨["c"], 5, none⟩) refusal)) ∧
      (opening.calls desk.host 0).map Exchange.request =
        files.map DeclaredFile.opening ++ [.closeHandle 0, .closeHandle 1] := by
  intro refusal desk files opening
  have hopens : desk.host.OpensOrRefuses := desk.opensOrRefuses
  have hfirst : Manifest.FirstObstacle files (desk.host.openEach files 0) 2 :=
    Manifest.firstObstacle (show [0, 1].length = (files.take 2).length from rfl) (by decide)
      (.inr ⟨refusal, List.head?_cons⟩)
  have hreplies : desk.host.openEach files 0 = [.ok 0, .ok 1, .error (.error refusal)] := rfl
  refine ⟨hopens, hfirst, ?_⟩
  obtain ⟨-, hobstacle, -⟩ := opens_all_or_none desk.host hopens (.multi "abc" files) 0
  obtain ⟨handles, hhandles, -, hrefused⟩ := hobstacle 2 ⟨["c"], 5, none⟩ rfl hfirst
  obtain ⟨e, hreply, houtcome, hrequests⟩ := hrefused (by decide)
  change (desk.host.openEach files 0)[2]? = _ at hreply
  change (desk.host.openEach files 0).take 2 = _ at hhandles
  rw [hreplies] at hreply hhandles
  obtain rfl : refusal = e := by simpa using hreply
  obtain rfl : [0, 1] = handles :=
    (List.map_inj_right fun _ _ heq => Except.ok.inj heq).mp hhandles
  exact ⟨houtcome, hrequests⟩

end Volume

end FlatVolume
