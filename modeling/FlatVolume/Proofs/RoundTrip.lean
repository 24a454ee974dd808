import FlatVolume.Proofs.MemoryGrowth
import FlatVolume.Proofs.MemoryRefinement

/-!
# What is written is read back

Opening never asks whether two declared paths are the same, and files in memory are found by their
paths. So what is written to a volume in memory comes back, and nothing else changes, exactly for
the manifests that list no path twice for files that have bytes.
-/

namespace FlatVolume

variable {Handle Cache File σ : Type}

namespace Backing

variable {b : Backing Handle File σ} {host : Host Handle Cache σ} {v : Volume Handle Cache}
  {sound : σ → Prop} {s s' s'' : σ} {e : Extent Handle} {offset : Nat} {data : Bytes}

theorem Lays.trans {file : File} {place : Nat} {new : Bytes} (h : b.Lays s s' file place data)
    (h' : b.Lays s' s'' file (place + data.length) new) :
    b.Lays s s'' file place (data ++ new) where
  laid i hi := by
    rw [List.length_append] at hi
    rcases Nat.lt_or_ge i data.length with hlt | hle
    · rw [List.getElem?_append_left hlt, h.laid i hlt, h'.kept]
      exact fun _ => .inl (by omega)
    · rw [List.getElem?_append_right hle, h'.laid (i - data.length) (by omega)]
      congr 2
      omega
  kept other i hout := by
    rw [List.length_append] at hout
    rw [h'.kept other i fun hsame => by have := hout hsame; omega,
      h.kept other i fun hsame => by have := hout hsame; omega]

/-- A write inside one extent lays its data in the file of that extent. Other extents may have the
same file. -/
theorem Faultless.lead_inside (faultless : b.Faultless host v sound) (he : e ∈ v.layout.extents)
    (hle : e.start ≤ offset) (hfit : offset + data.length ≤ e.start + e.length) (before : σ) :
    Volume.CallsLead host .writing v.layout.extents data.length offset
      (fun moved buffer state => buffer = data ∧ moved ≤ data.length ∧ sound state ∧
        b.Lays before state (b.file e.handle) (offset - e.start) (data.take moved))
      (fun _ _ _ _ => False) := by
  rintro e' he' moved buffer state - hm hle' hlt' ⟨rfl, -, hs, hlaid⟩ window reply
  obtain ⟨i, hi⟩ := List.mem_iff_getElem?.mp he
  obtain ⟨j, hj⟩ := List.mem_iff_getElem?.mp he'
  obtain rfl := v.layout.tiles.index_unique (q := offset + moved) hi hj (by omega) (by omega)
  obtain rfl : e = e' := Option.some.inj (hi.symm.trans hj)
  have backs : v.Backs e (offset + moved - e.start) window.length := .window he hm hle' hlt'
  obtain ⟨count, hreply, hpos, hcount, hlays, hafter⟩ := faultless.write e window _ state backs hs
  have houtcome : reply.1.2 = .ok count := hreply
  have hwindow : window.length ≤ buffer.length - moved := Bytes.length_window_le buffer moved _
  have hfits := backs.fits
  have htake : window.take count = (buffer.drop moved).take count := by
    apply List.take_take.trans
    congr 1
    omega
  rw [show buffer.overlay moved reply.1.1 = buffer from Bytes.overlay_window buffer moved _]
  refine .of_counted (fun _ => ⟨rfl, ?_, hafter, ?_⟩) fun hstops => ?_
  · rw [houtcome]
    change moved + count ≤ buffer.length
    omega
  · rw [houtcome]
    change b.Lays before reply.2 _ _ (buffer.take (moved + count))
    rw [List.take_add]
    apply hlaid.trans
    rw [List.length_take_of_le (Nat.le_of_lt hm), ← htake,
      show offset - e.start + moved = offset + moved - e.start by omega]
    exact hlays
  · rw [houtcome] at hstops
    exact absurd (of_decide_eq_true hstops) (Nat.ne_of_gt hpos)

theorem Faultless.run_writeFiles_inside (faultless : b.Faultless host v sound)
    (he : e ∈ v.layout.extents) (hle : e.start ≤ offset)
    (hfit : offset + data.length ≤ e.start + e.length) (patience : Nat) (hs : sound s) :
    ∃ after, (v.writeFiles patience data offset).run host s = (.ok data.length, after) ∧
      sound after ∧ b.Lays s after (b.file e.handle) (offset - e.start) data := by
  have hnone : b.Lays s s (b.file e.handle) (offset - e.start) (data.take 0) :=
    ⟨fun i hi => absurd hi (Nat.not_lt_zero i), fun _ _ _ => rfl⟩
  have hend := v.request_ends data (faultless.lead_inside he hle hfit s) patience
    ⟨rfl, Nat.zero_le _, hs, hnone⟩
  have hstalled := walk_ne_stalled (faultless.steady .writing) patience data offset hs
  have hbound := (v.layout.tiles.bounds he).2
  have htotal := v.layout.total_lt
  rw [Volume.run_writeFiles]
  generalize (Volume.walk .writing patience (v.extentsFrom offset) (.start data offset)).run host s
    = last at hend hstalled ⊢
  obtain ⟨w, after⟩ := last
  cases hend with
  | @complete p _ at_p hreach hgoing =>
    obtain ⟨hbuffer, hmoved, hsound, hlaid⟩ := hgoing
    have hall : p.moved = data.length := by
      unfold Volume.total at hreach
      omega
    rw [hall, List.take_length] at hlaid
    refine ⟨after, ?_, hsound, hlaid⟩
    dsimp only
    rw [WalkEnd.writing_of_le (by rw [at_p.length_buffer]; exact hmoved), hbuffer, hall,
      List.drop_length]
    rfl
  | failed _ _ _ _ _ _ _ hstopped => exact hstopped.elim
  | refused _ _ hstopped => exact hstopped.elim
  | stalled _ => exact absurd rfl hstalled
  | overflowed hgoing hpos hover =>
    obtain ⟨-, hmoved, -, -⟩ := hgoing
    omega

end Backing

/-- Every write that stays inside the volume succeeds, is read back, and changes nothing that is
read elsewhere. -/
def Volume.RoundTrips (host : Host Handle Cache σ) (v : Volume Handle Cache) (state : σ) : Prop :=
  ∀ patience data offset, offset + data.length ≤ v.total →
    let written := (v.write patience data offset).run host state
    written.1 = .ok data.length ∧
    (∀ buffer, buffer.length = data.length →
      ((v.read patience buffer offset).run host written.2).1 = ⟨data, .ok data.length⟩) ∧
    ∀ buffer offset', offset' + buffer.length ≤ offset ∨ offset + data.length ≤ offset' →
      ((v.read patience buffer offset').run host written.2).1 =
        ((v.read patience buffer offset').run host state).1

namespace Memory

variable {manifest : Manifest} {files : List DeclaredFile} {v : Volume String Empty}
  {opened m : Memory}

theorem openFile_accepted {path : List String} {length : Nat} {key : String} {m' : Memory}
    (small : (m.bytes (Path.display path)).length < positionBound)
    (h : m.openFile path length = (.ok key, m')) :
    Path.check path = .ok () ∧ length < positionBound ∧
      m' = m.put (Path.display path) ((m.file (Path.display path)).extend length) := by
  rw [bytes, Contents.length_toBytes] at small
  unfold openFile at h
  rcases hcheck : Path.check path with e | ⟨⟨⟩⟩
  · rw [hcheck] at h
    cases h
  · rw [hcheck] at h
    dsimp only at h
    split at h
    · cases h
    · cases h
      refine ⟨rfl, ?_, rfl⟩
      omega

/-- Opening succeeds only with paths that are accepted, with lengths that fit in memory and with a
sum that is a word. -/
theorem openFiles_accepted {layout layout' : Layout String}
    (small : ∀ key, (m.bytes key).length < positionBound)
    (h : (Volume.openFiles files layout).run host m = (.ok layout', opened)) :
    (∀ file ∈ files, Path.check file.path = .ok () ∧ file.length < positionBound) ∧
      layout.total + Manifest.lengths files < wordBound := by
  induction files generalizing layout m with
  | nil => exact ⟨fun file hf => absurd hf List.not_mem_nil, layout.total_lt⟩
  | cons file rest ih =>
    rw [Volume.openFiles] at h
    by_cases hfits : layout.total + file.length < wordBound
    · rw [dif_pos hfits, Program.bind_eq, Program.run_bind, Program.request, Program.run_ask,
        Program.run_done] at h
      have hanswer : host.answer (.openFile file.path file.length) m =
        m.openFile file.path file.length := rfl
      rw [hanswer] at h
      rcases hopen : m.openFile file.path file.length with ⟨(e | fault) | key, m'⟩
      · rw [hopen] at h
        dsimp only at h
        rw [Program.bind_eq, Program.run_bind] at h
        cases congrArg Prod.fst h
      · rw [hopen] at h
        cases congrArg Prod.fst h
      · rw [hopen] at h
        obtain ⟨hcheck, hlength, rfl⟩ := openFile_accepted (small _) hopen
        have hsmall : ∀ key, ((m.put (Path.display file.path)
            ((m.file (Path.display file.path)).extend file.length)).bytes key).length <
              positionBound := by
          intro key
          have hbefore := small key
          rw [bytes_put]
          split
          · rename_i hkey
            rw [Contents.toBytes_extend, Bytes.length_extend, ← bytes, hkey]
            omega
          · exact hbefore
        obtain ⟨hrest, hsum⟩ := ih hsmall h
        refine ⟨fun f hf => ?_, ?_⟩
        · rcases List.mem_cons.mp hf with rfl | hf
          · exact ⟨hcheck, hlength⟩
          · exact hrest f hf
        · rw [Manifest.lengths]
          change layout.total + file.length + _ < _ at hsum
          omega
    · rw [dif_neg hfits, Program.bind_eq, Program.run_bind] at h
      cases congrArg Prod.fst h

/-- What it takes for a manifest to be opened in an empty memory, and what that makes. -/
theorem ofManifest_accepted (h : (Volume.ofManifest manifest).run host .empty = (.ok v, opened)) :
    (∀ file ∈ manifest.files, Path.check file.path = .ok ()) ∧
      v.layout.extents = Manifest.extents 0 manifest.files ∧ v.cache = none ∧
      opened = openAll .empty manifest.files ∧
      ∀ m, (Volume.ofManifest manifest).run host m = (.ok v, m.openAll manifest.files) := by
  have hempty : ∀ key, (empty.bytes key).length < positionBound := by
    intro key
    change 0 < positionBound
    decide
  have haccepted := h
  rw [Volume.ofManifest, Program.bind_eq, Program.run_bind] at haccepted
  rcases hopen : (Volume.openFiles manifest.files .empty).run host .empty with ⟨e | layout, m⟩
  · rw [hopen] at haccepted
    cases congrArg Prod.fst haccepted
  · obtain ⟨hfiles, hsum⟩ := openFiles_accepted hempty hopen
    obtain ⟨layout', hextents, -, hrun⟩ := run_openFiles (fun f hf => (hfiles f hf).1)
      (fun f hf => (hfiles f hf).2) Layout.empty hsum
    have hreopen : ∀ m, (Volume.ofManifest manifest).run host m =
        (.ok ⟨layout', none⟩, m.openAll manifest.files) := by
      intro m
      rw [Volume.ofManifest, Program.bind_eq, Program.run_bind, hrun]
      rfl
    cases h.symm.trans (hreopen .empty)
    exact ⟨fun f hf => (hfiles f hf).1, hextents, rfl, rfl, hreopen⟩

theorem covers_openAll (hextents : v.layout.extents = Manifest.extents 0 files) (m : Memory) :
    (m.openAll files).Covers v := by
  intro e he
  rw [hextents] at he
  obtain ⟨file, hf, hhandle, hlength⟩ := mem_extents he
  rw [hhandle, hlength]
  exact length_le_bytes_openAll hf

theorem roundTrips_of_independent (covers : m.Covers v) (uncached : v.cache = none)
    (independent : backing.Independent v) : v.RoundTrips host m := by
  intro patience data offset hfit written
  have faultless := Memory.faultless covers
  obtain ⟨after, hrun, hshape, hlaid⟩ :=
    faultless.run_writeFiles_independent independent patience data offset (.refl m)
  have hwritten : written = ((FlatArray.answer v.total data offset).mapError .error, after) := by
    rw [← hrun]
    change (v.write patience data offset).run host m = _
    rw [Volume.write, uncached]
  have hread : ∀ buffer offset' m', m.SameShape m' →
      ((v.read patience buffer offset').run host m').1 =
        ⟨FlatArray.read (backing.flat v m') buffer.length offset', .ok buffer.length⟩ := by
    intro buffer offset' m' hshape
    obtain ⟨_, hrun, -⟩ := faultless.run_readFiles patience buffer offset' hshape
    rw [Volume.read, uncached]
    rw [hrun]
  have hall : FlatArray.trailing? v.total data offset = none := by
    apply FlatArray.trailing?_eq_none_iff.mpr
    intro i hi hpast
    omega
  rw [hwritten]
  refine ⟨?_, fun buffer hbuffer => ?_, fun buffer offset' hapart => ?_⟩
  · rw [FlatArray.answer, hall]
    rfl
  · rw [hread buffer offset after hshape, hlaid.flat_eq, hbuffer, FlatArray.read_overlay_self]
    rw [Backing.length_flat]
    exact hfit
  · rw [hread buffer offset' after hshape, hread buffer offset' m (.refl m), hlaid.flat_eq,
      FlatArray.read_overlay_apart _ hapart]

/-- Where two extents have the same file, a byte written through one of them is read through the
other. -/
theorem not_roundTrips_of_shared (covers : m.Covers v) (uncached : v.cache = none)
    (zeros : ∀ key i, backing.byte m key i = 0) {i j : Nat} {e e' : Extent String}
    (he : v.layout.extents[i]? = some e) (he' : v.layout.extents[j]? = some e') (hne : i ≠ j)
    (hpos : 0 < e.length) (hpos' : 0 < e'.length) (hshared : e.handle = e'.handle) :
    ¬ v.RoundTrips host m := by
  intro h
  have hmem := List.mem_of_getElem? he
  have hmem' := List.mem_of_getElem? he'
  have hbound := (v.layout.tiles.bounds hmem).2
  have faultless := Memory.faultless covers
  obtain ⟨after, hwritten, hshape, hlaid⟩ := faultless.run_writeFiles_inside hmem
    (Nat.le_refl e.start) (show e.start + [1].length ≤ _ from Nat.add_le_add_left hpos _) 0 (.refl m)
  have hread : ∀ m', m.SameShape m' → ((v.read 0 [0] e'.start).run host m').1 =
      ⟨[backing.byte m' e'.handle 0], .ok 1⟩ := by
    intro m' hshape
    obtain ⟨_, hrun, -⟩ := faultless.run_readFiles 0 [0] e'.start hshape
    have hbyte := Backing.getElem?_flat (b := backing) v m' hmem' (Nat.le_refl _)
      (Nat.lt_add_of_pos_right hpos')
    rw [Nat.sub_self] at hbyte
    rw [Volume.read, uncached]
    rw [hrun]
    change Reading.mk [(backing.flat v m').getD e'.start 0] (.ok 1) = _
    rw [List.getD_eq_getElem?_getD, hbyte]
    rfl
  have hapart : e'.start + 1 ≤ e.start ∨ e.start + 1 ≤ e'.start := by
    rcases Nat.lt_trichotomy e.start e'.start with hlt | heq | hlt
    · exact .inr hlt
    · exact absurd (v.layout.tiles.index_unique (q := e.start) he he' (by omega) (by omega)) hne
    · exact .inl hlt
  obtain ⟨-, -, hkept⟩ := h 0 [1] e.start (show e.start + 1 ≤ v.layout.total by omega)
  have hsame := hkept [0] e'.start hapart
  rw [Volume.write, uncached] at hsame
  rw [hwritten, hread after hshape, hread m (.refl m), zeros, ← hshared] at hsame
  have hone := hlaid.laid 0 Nat.one_pos
  rw [Nat.sub_self] at hone
  cases hone.trans (congrArg (fun r : Reading => r.buffer[0]?) hsame)

theorem volume_performAll
    (hopen : ∀ m, ((Volume.ofManifest manifest).run host m).1 = .ok v) (patience : Nat)
    (actions : List Action) (m : Memory) :
    ((Action.performAll manifest patience actions v).run host m).1.2 = v := by
  have hreopen : ∀ answer m, ((Action.reopen manifest answer).run host m).1.2 = v := by
    intro answer m
    rw [Action.reopen, Program.bind_eq, Program.run_bind, hopen]
    rfl
  induction actions generalizing m with
  | nil => rfl
  | cons action rest ih =>
    have haction : ((action.perform manifest patience v).run host m).1.2 = v := by
      cases action with
      | readFiles buffer offset | writeFiles data offset | read buffer offset | write data offset =>
        rw [Action.perform, Program.bind_eq, Program.run_bind]
        rfl
      | close | drop =>
        rw [Action.perform, Program.bind_eq, Program.run_bind]
        exact hreopen _ _
    rw [Action.performAll, Program.bind_eq, Program.run_bind]
    generalize (action.perform manifest patience v).run host m = middle at haction ⊢
    obtain ⟨⟨answer, v'⟩, m'⟩ := middle
    obtain rfl : v' = v := haction
    dsimp only
    rw [Program.bind_eq, Program.run_bind]
    exact ih m'

theorem independent_iff (valid : ∀ file ∈ files, Path.check file.path = .ok ())
    (hextents : v.layout.extents = Manifest.extents 0 files) :
    backing.Independent v ↔
      ((files.filter fun file => 0 < file.length).map DeclaredFile.path).Nodup := by
  rw [List.Nodup, List.pairwise_map, List.pairwise_filter, List.pairwise_iff_getElem]
  constructor
  · intro h i j hi hj hlt hpos hpos' hsame
    have he := getElem?_extents 0 (List.getElem?_eq_getElem hi)
    have he' := getElem?_extents 0 (List.getElem?_eq_getElem hj)
    rw [← hextents] at he he'
    have hij := h i j _ _ he he' (of_decide_eq_true hpos) (of_decide_eq_true hpos')
      (congrArg Path.display hsame)
    omega
  · intro h
    have hfile : ∀ (i : Nat) (e : Extent String), v.layout.extents[i]? = some e →
        ∃ hi : i < files.length, e.length = files[i].length ∧ e.handle = files[i].displayPath := by
      intro i e he
      have hi := (List.getElem?_eq_some_iff.mp he).1
      rw [hextents, extents_eq_placed, Manifest.length_placed 0 (List.length_map _)] at hi
      rw [hextents, getElem?_extents 0 (List.getElem?_eq_getElem hi)] at he
      cases he
      exact ⟨hi, rfl, rfl⟩
    have hlater : ∀ (i j : Nat) (e e' : Extent String), v.layout.extents[i]? = some e →
        v.layout.extents[j]? = some e' → 0 < e.length → 0 < e'.length →
          e.handle = e'.handle → ¬ i < j := by
      intro i j e e' he he' hpos hpos' hsame hlt
      obtain ⟨hi, hlength, hhandle⟩ := hfile i e he
      obtain ⟨hj, hlength', hhandle'⟩ := hfile j e' he'
      apply h i j hi hj hlt (decide_eq_true (by omega)) (decide_eq_true (by omega))
      apply Path.display_inj (valid _ (List.getElem_mem hi)) (valid _ (List.getElem_mem hj))
      exact hhandle.symm.trans (hsame.trans hhandle')
    intro i j e e' he he' hpos hpos' hsame
    have hle := hlater i j e e' he he' hpos hpos' hsame
    have hge := hlater j i e' e he' he hpos' hpos hsame.symm
    omega

/-- In an empty memory, writes to a volume that a manifest opens are read back and change nothing
else, through any run that goes before, exactly if no two of the declared files that have bytes
have the same path. -/
theorem round_trips_iff (accepted : (Volume.ofManifest manifest).run host .empty = (.ok v, opened)) :
    (∀ patience actions,
      let last := (Action.performAll manifest patience actions v).run host opened
      last.1.2.RoundTrips host last.2) ↔
    ((manifest.files.filter fun file => 0 < file.length).map DeclaredFile.path).Nodup := by
  obtain ⟨hvalid, hextents, huncached, rfl, hopen⟩ := ofManifest_accepted accepted
  have hcovers := covers_openAll hextents .empty
  rw [← independent_iff hvalid hextents]
  constructor
  · intro h i j e e' he he' hpos hpos' hshared
    apply Classical.byContradiction
    intro hne
    have hzeros : ∀ key i, backing.byte (openAll .empty manifest.files) key i = 0 :=
      fun key i => same_openAll .empty manifest.files key i
    exact not_roundTrips_of_shared hcovers huncached hzeros he he' hne hpos hpos' hshared (h 0 [])
  · intro hindependent patience actions last
    have hvolume : last.1.2 = v :=
      volume_performAll (fun m => by rw [hopen]) patience actions (openAll .empty manifest.files)
    rw [hvolume]
    apply roundTrips_of_independent ?_ huncached hindependent
    exact hcovers.run _

/-- A path may be listed again for a file without bytes. -/
theorem round_trips_iff_empty_file :
    let manifest := Manifest.multi "v" [⟨["a"], 0, none⟩, ⟨["a"], 2, none⟩, ⟨["b"], 3, none⟩]
    ∃ v opened, (Volume.ofManifest manifest).run host .empty = (.ok v, opened) ∧
      ∀ patience actions,
        let last := (Action.performAll manifest patience actions v).run host opened
        last.1.2.RoundTrips host last.2 := by
  intro manifest
  have accepted : ∃ v opened, (Volume.ofManifest manifest).run host .empty = (.ok v, opened) :=
    ⟨_, _, rfl⟩
  obtain ⟨v, opened, haccepted⟩ := accepted
  exact ⟨v, opened, haccepted, (round_trips_iff haccepted).mpr (by decide)⟩

/-- A manifest that lists one path for two files is opened, and both have the same bytes. -/
theorem equal_paths_do_not_round_trip :
    let manifest := Manifest.multi "v" [⟨["a"], 2, none⟩, ⟨["a"], 2, none⟩]
    ∃ v opened, (Volume.ofManifest manifest).run host .empty = (.ok v, opened) ∧ v.total = 4 ∧
      (let written := (v.write 0 [1, 2, 3, 4] 0).run host opened
      written.1 = .ok 4 ∧
        ((v.read 0 [0, 0, 0, 0] 0).run host written.2).1 = ⟨[3, 4, 3, 4], .ok 4⟩) ∧
      ¬ v.RoundTrips host opened := by
  intro manifest
  refine ⟨_, _, rfl, rfl, ⟨rfl, rfl⟩, fun h => ?_⟩
  obtain ⟨-, hback, -⟩ := h 0 [1, 2, 3, 4] 0 (by decide)
  have hread := hback [0, 0, 0, 0] rfl
  cases congrArg (fun r : Reading => r.buffer.head?) hread

end Memory

end FlatVolume
