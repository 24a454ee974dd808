import FlatVolume.Disk.System
import FlatVolume.Proofs.PathTexts

/-!
# Places on a disk

Where the names of a path lead from the top of a disk, and which places they are taken from on
the way. If none of these is a file, making the directories of a path succeeds, and makes just
those that are missing.
-/

namespace FlatVolume

namespace Location

/-- Where a way down from a place leads. -/
def below (place : Location) (path : List String) : Location :=
  path.foldl entry place

/-- The names that lead to a place from the top. -/
def parts (place : Location) : List String :=
  if place = "" then [] else Path.split place

theorem parts_entry (place : Location) {c : String} (h : Path.isComponent c = true) :
    (place.entry c).parts = place.parts ++ [c] := by
  have hne : c ≠ "" := by
    rintro rfl
    cases h
  by_cases htop : place = ""
  · rw [entry, if_pos htop, parts, if_neg hne, parts, if_pos htop, Path.split_component h,
      List.nil_append]
  · have hentry : place ++ "/" ++ c ≠ "" := by
      intro heq
      have hlist := congrArg String.toList heq
      simp [String.toList_append] at hlist
    rw [entry, if_neg htop, parts, if_neg hentry, parts, if_neg htop, Path.split_append_slash,
      Path.split_component h]

theorem parts_below (place : Location) {path : List String}
    (h : ∀ c ∈ path, Path.isComponent c = true) : (place.below path).parts = place.parts ++ path := by
  induction path generalizing place with
  | nil => simp [below]
  | cons c rest ih =>
    have hrest := ih (place.entry c) fun c' hc' => h c' (List.mem_cons_of_mem _ hc')
    rw [parts_entry place (h c List.mem_cons_self), List.append_assoc] at hrest
    exact hrest

theorem below_inj {place : Location} {path path' : List String}
    (h : ∀ c ∈ path, Path.isComponent c = true) (h' : ∀ c ∈ path', Path.isComponent c = true)
    (heq : place.below path = place.below path') : path = path' := by
  have hparts := congrArg parts heq
  rw [parts_below place h, parts_below place h'] at hparts
  exact List.append_cancel_left hparts

end Location

/-- Every name and every length in a path is within the limits. -/
def DiskLimits.Takes (limits : DiskLimits) (path : List Path.Step) : Prop :=
  ∀ step ∈ path, limits.takesChars step.name = true ∧ limits.takesName step.name = true ∧
    limits.takesText step.stop = true

theorem DiskLimits.Takes.mono {limits : DiskLimits} {path path' : List Path.Step}
    (takes : limits.Takes path) (sub : path' ⊆ path) : limits.Takes path' :=
  fun step hstep => takes step (sub hstep)

theorem DiskLimits.takes_unlimited (path : List Path.Step) : unlimited.Takes path :=
  fun _ _ => ⟨rfl, rfl, rfl⟩

namespace Disk

/-- One step from the last of the places that have been entered, which come last one first. -/
def enter (entered : List Location) (name : String) : List Location :=
  if name = ".." then entered.tail else (entered.headD "").entry name :: entered

/-- The places that steps are taken from. -/
def visits (entered : List Location) : List String → List Location
  | [] => []
  | name :: rest => entered.headD "" :: visits (enter entered name) rest

/-- Where the last step leads. -/
def reached (entered : List Location) (names : List String) : Location :=
  (names.foldl enter entered).headD ""

/-- Every place on the way from the top, the last one included. -/
def way (names : List String) : List Location :=
  visits [] names ++ [reached [] names]

variable {limits : DiskLimits} {d : Disk limits} {entered : List Location} {names more : List String} {place : Location}

theorem visits_append (entered : List Location) (names more : List String) :
    visits entered (names ++ more) = visits entered names ++ visits (names.foldl enter entered) more := by
  induction names generalizing entered with
  | nil => rfl
  | cons name rest ih => rw [List.cons_append, visits, ih, visits, List.cons_append, List.foldl_cons]

theorem reached_append (entered : List Location) (names more : List String) :
    reached entered (names ++ more) = reached (names.foldl enter entered) more := by
  rw [reached, reached, List.foldl_append]

/-- The last step of a path is taken from where the way up to it ends. -/
theorem visits_concat (names : List String) (last : String) :
    visits [] (names ++ [last]) = way names := by
  rw [visits_append]
  rfl

theorem way_concat (names : List String) (last : String) :
    way (names ++ [last]) = way names ++ [reached [] (names ++ [last])] := by
  rw [way, visits_concat]

theorem reached_component (entered : List Location) {path : List String}
    (h : ∀ c ∈ path, Path.isComponent c = true) :
    reached entered path = Location.below (entered.headD "") path := by
  induction path generalizing entered with
  | nil => rfl
  | cons c rest ih =>
    have hrest := ih (enter entered c) fun c' hc' => h c' (List.mem_cons_of_mem _ hc')
    rw [enter, if_neg (Path.ne_parent (h c List.mem_cons_self))] at hrest
    rw [reached, List.foldl_cons, enter, if_neg (Path.ne_parent (h c List.mem_cons_self))]
    exact hrest

/-- Components lead down, so that every step of theirs is taken from a place above the last. -/
theorem mem_visits_component {path : List String} (h : ∀ c ∈ path, Path.isComponent c = true)
    (hplace : place ∈ visits entered path) :
    ∃ front rest, path = front ++ rest ∧ rest ≠ [] ∧
      place = Location.below (entered.headD "") front := by
  induction path generalizing entered with
  | nil => cases hplace
  | cons c rest ih =>
    rw [visits, enter, if_neg (Path.ne_parent (h c List.mem_cons_self))] at hplace
    rcases List.mem_cons.mp hplace with hhere | hlater
    · exact ⟨[], c :: rest, rfl, List.cons_ne_nil _ _, hhere⟩
    · obtain ⟨front, behind, hrest, hne, hbelow⟩ :=
        ih (fun c' hc' => h c' (List.mem_cons_of_mem _ hc')) hlater
      refine ⟨c :: front, behind, ?_, hne, hbelow⟩
      rw [hrest, List.cons_append]

theorem mem_way_component {path : List String} (h : ∀ c ∈ path, Path.isComponent c = true)
    (hplace : place ∈ way path) :
    ∃ front rest, path = front ++ rest ∧ place = Location.below "" front := by
  rw [way, List.mem_append, List.mem_singleton] at hplace
  rcases hplace with hvisited | hlast
  · obtain ⟨front, rest, hpath, -, hbelow⟩ := mem_visits_component h hvisited
    exact ⟨front, rest, hpath, hbelow⟩
  · refine ⟨path, [], (List.append_nil path).symm, ?_⟩
    rw [hlast]
    exact reached_component [] h

/-- There is no file at a place. A directory is there, or may be made. -/
def Passable (d : Disk limits) (place : Location) : Prop :=
  ∀ contents, d.node? place ≠ some (.file contents)

theorem node?_put (d : Disk limits) {place : Location} (h : place ≠ "") (node : DiskNode)
    (other : Location) :
    (d.put place node).node? other = if other = place then some node else d.node? other := by
  rw [node?, node?, put]
  dsimp only
  rw [Table.get?_set]
  by_cases htop : other = ""
  · rw [if_pos htop, if_pos htop, if_neg (htop ▸ Ne.symm h)]
  · rw [if_neg htop, if_neg htop]
    exact ite_congr (propext eq_comm) (fun _ => rfl) fun _ => rfl

theorem ne_top (h : d.node? place ≠ some .directory) : place ≠ "" := by
  rintro rfl
  exact h (if_pos rfl)

theorem file_eq {contents : Contents} (h : d.node? place = some (.file contents)) :
    d.file place = contents := by
  rw [file, h]

theorem Passable.file_eq (h : d.Passable place) : d.file place = .empty := by
  rw [file]
  match hnode : d.node? place with
  | none => rfl
  | some .directory => rfl
  | some (.file contents) => exact absurd hnode (h contents)

theorem file_congr {d' : Disk limits} (h : d'.node? place = d.node? place) : d'.file place = d.file place := by
  rw [file, file, h]

/-- If no file is on the way, then steps lead where they lead by their names, unless a directory
is missing on the way. -/
theorem follow_cases (small : ∀ name ∈ names, limits.takesName name = true)
    (passable : ∀ place ∈ visits entered names, d.Passable place) :
    (d.follow entered names = .ok (reached entered names) ∧
        ∀ place ∈ visits entered names, d.node? place = some .directory) ∨
      (d.follow entered names = .error noSuchEntry ∧
        ∃ place ∈ visits entered names, d.node? place = none) := by
  induction names generalizing entered with
  | nil => exact .inl ⟨rfl, fun _ h => nomatch h⟩
  | cons name rest ih =>
    have hnode := passable _ List.mem_cons_self
    rw [follow]
    match hhere : d.node? (entered.headD "") with
    | none => exact .inr ⟨rfl, _, List.mem_cons_self, hhere⟩
    | some (.file contents) => exact absurd hhere (hnode contents)
    | some .directory =>
      have hstep : (if name = ".." then d.follow entered.tail rest
          else if limits.takesName name then d.follow ((entered.headD "").entry name :: entered) rest
          else .error nameTooLong) = d.follow (enter entered name) rest := by
        by_cases hparent : name = ".."
        · rw [if_pos hparent, enter, if_pos hparent]
        · rw [if_neg hparent, if_pos (small name List.mem_cons_self), enter, if_neg hparent]
      dsimp only
      rw [hstep, visits]
      rcases ih (fun n hn => small n (List.mem_cons_of_mem _ hn))
        fun p hp => passable p (List.mem_cons_of_mem _ hp) with ⟨hok, hall⟩ | ⟨herror, p, hp, hmissing⟩
      · exact .inl ⟨hok, List.forall_mem_cons.mpr ⟨hhere, hall⟩⟩
      · exact .inr ⟨herror, p, List.mem_cons_of_mem _ hp, hmissing⟩

theorem locate_eq {path : List Path.Step} (takes : limits.Takes path) :
    d.locate path = d.follow [] (path.map Path.Step.name) := by
  have hchars : (path.map Path.Step.name).all limits.takesChars = true := by
    rw [List.all_map, List.all_eq_true]
    exact fun step hstep => (takes step hstep).1
  have htext : path.getLast?.all (limits.takesText ·.stop) = true := by
    rw [Option.all_eq_true]
    exact fun step hlast => (takes step (List.mem_of_getLast? hlast)).2.2
  rw [locate, hchars, htext]
  rfl

theorem locate_cases {path : List Path.Step} (takes : limits.Takes path)
    (passable : ∀ place ∈ visits [] (path.map Path.Step.name), d.Passable place) :
    (d.locate path = .ok (reached [] (path.map Path.Step.name)) ∧
        ∀ place ∈ visits [] (path.map Path.Step.name), d.node? place = some .directory) ∨
      d.locate path = .error noSuchEntry ∧
        ∃ place ∈ visits [] (path.map Path.Step.name), d.node? place = none := by
  rw [locate_eq takes]
  refine follow_cases (fun name hname => ?_) passable
  obtain ⟨step, hstep, rfl⟩ := List.mem_map.mp hname
  exact (takes step hstep).2.1

theorem locate_ok {path : List Path.Step} (takes : limits.Takes path)
    (h : ∀ place ∈ visits [] (path.map Path.Step.name), d.node? place = some .directory) :
    d.locate path = .ok (reached [] (path.map Path.Step.name)) := by
  have hpassable : ∀ place ∈ visits [] (path.map Path.Step.name), d.Passable place := by
    intro place hplace contents
    rw [h place hplace]
    exact nofun
  rcases locate_cases takes hpassable with ⟨hok, -⟩ | ⟨-, place, hplace, hmissing⟩
  · exact hok
  · rw [h place hplace] at hmissing
    cases hmissing

theorem isDirectory_of_locate {path : List Path.Step} (hlocate : d.locate path = .ok place)
    (hnode : d.node? place = some .directory) : d.isDirectory path = true := by
  rw [isDirectory, hlocate]
  dsimp only
  rw [hnode]

/-- The later disk has directories at all of the places, and is the same elsewhere. -/
def MakesWay (d d' : Disk limits) (places : List Location) : Prop :=
  ∀ place, d'.node? place = if place ∈ places then some .directory else d.node? place

theorem MakesWay.of_directories {places : List Location}
    (h : ∀ place ∈ places, d.node? place = some .directory) : d.MakesWay d places := by
  intro place
  split
  · exact h place ‹_›
  · rfl

theorem MakesWay.trans {d' d'' : Disk limits} {places further : List Location} (h : d.MakesWay d' places)
    (h' : d'.MakesWay d'' further) (sub : ∀ place ∈ places, place ∈ further) :
    d.MakesWay d'' further := by
  intro place
  rw [h' place]
  by_cases hplace : place ∈ further
  · rw [if_pos hplace, if_pos hplace]
  · rw [if_neg hplace, if_neg hplace, h place, if_neg (mt (sub place) hplace)]

/-- Making the last directory of a path all other places on whose way are directories. -/
theorem makeDirectory_last {path : List Path.Step} {names : List String} {last : String}
    (hnames : path.map Path.Step.name = names ++ [last]) (takes : limits.Takes path)
    (above : ∀ place ∈ way names, d.node? place = some .directory)
    (passable : d.Passable (reached [] (names ++ [last]))) :
    (d.makeDirectory path = (.error entryExists, d) ∧ d.isDirectory path = true ∧
        d.MakesWay d (way (names ++ [last]))) ∨
      ∃ d', d.makeDirectory path = (.ok (), d') ∧ d.MakesWay d' (way (names ++ [last])) := by
  have hlocate : d.locate path = .ok (reached [] (names ++ [last])) := by
    rw [← hnames]
    refine locate_ok takes ?_
    rw [hnames, visits_concat]
    exact above
  match hnode : d.node? (reached [] (names ++ [last])) with
  | some (.file contents) => exact absurd hnode (passable contents)
  | some .directory =>
    refine .inl ⟨?_, isDirectory_of_locate hlocate hnode, .of_directories ?_⟩
    · rw [makeDirectory, hlocate]
      dsimp only
      rw [hnode]
    · rw [way_concat]
      exact List.forall_mem_append.mpr ⟨above, List.forall_mem_singleton.mpr hnode⟩
  | none =>
    refine .inr ⟨d.put (reached [] (names ++ [last])) .directory, ?_, fun place => ?_⟩
    · rw [makeDirectory, hlocate]
      dsimp only
      rw [hnode]
    · rw [node?_put _ (ne_top (by rw [hnode]; exact nofun)), way_concat]
      by_cases hlast : place = reached [] (names ++ [last])
      · rw [if_pos hlast, if_pos (by simp [hlast])]
      · rw [if_neg hlast]
        by_cases habove : place ∈ way names
        · rw [if_pos (List.mem_append_left _ habove), above place habove]
        · rw [if_neg (by simp [habove, hlast])]

theorem map_name_reverse_cons (step : Path.Step) (above : List Path.Step) :
    (step :: above).reverse.map Path.Step.name = above.reverse.map Path.Step.name ++ [step.name] := by
  simp

section MakeDirectories

variable {step : Path.Step} {above : List Path.Step}

theorem makeDirectories_of_above (takes : limits.Takes (step :: above).reverse)
    (directories : ∀ place ∈ way (above.reverse.map Path.Step.name),
      d.node? place = some .directory)
    (passable : d.Passable (reached [] ((step :: above).reverse.map Path.Step.name))) :
    ∃ d', d.makeDirectories (step :: above) = (.ok (), d') ∧
      d.MakesWay d' (way ((step :: above).reverse.map Path.Step.name)) := by
  have hnames := map_name_reverse_cons step above
  rw [hnames] at passable ⊢
  rw [makeDirectories]
  rcases makeDirectory_last hnames takes directories passable with
    ⟨hexists, hdirectory, hway⟩ | ⟨d', hmade, hway⟩
  · refine ⟨d, ?_, hway⟩
    rw [hexists]
    dsimp only
    rw [if_neg (by decide), if_pos hdirectory]
  · refine ⟨d', ?_, hway⟩
    rw [hmade]

/-- The first attempt fails where a place further up is missing; the second one finds it made. -/
theorem makeDirectories_of_missing {middle : Disk limits} (takes : limits.Takes (step :: above).reverse)
    (missing : d.locate (step :: above).reverse = .error noSuchEntry)
    (made : d.makeDirectories above = (.ok (), middle))
    (hway : d.MakesWay middle (way (above.reverse.map Path.Step.name)))
    (passable : d.Passable (reached [] ((step :: above).reverse.map Path.Step.name))) :
    ∃ d', d.makeDirectories (step :: above) = (.ok (), d') ∧
      d.MakesWay d' (way ((step :: above).reverse.map Path.Step.name)) := by
  have hnames := map_name_reverse_cons step above
  have hfirst : d.makeDirectory (step :: above).reverse = (.error noSuchEntry, d) := by
    rw [makeDirectory, missing]
  have hkind : noSuchEntry.kind = .notFound := rfl
  have hdirectories : ∀ place ∈ way (above.reverse.map Path.Step.name),
      middle.node? place = some .directory := by
    intro place hplace
    rw [hway, if_pos hplace]
  have hpassable : middle.Passable (reached [] ((step :: above).reverse.map Path.Step.name)) := by
    intro contents
    rw [hway]
    split
    · exact nofun
    · exact passable contents
  have hfurther : ∀ place ∈ way (above.reverse.map Path.Step.name),
      place ∈ way ((step :: above).reverse.map Path.Step.name) := by
    intro place hplace
    rw [hnames, way_concat]
    exact List.mem_append_left _ hplace
  rw [hnames] at hpassable hfurther ⊢
  rw [makeDirectories, hfirst]
  dsimp only
  rw [if_pos hkind, made]
  rcases makeDirectory_last hnames takes hdirectories hpassable with
    ⟨hexists, hdirectory, hlast⟩ | ⟨d', hmade, hlast⟩
  · refine ⟨middle, ?_, hway.trans hlast hfurther⟩
    dsimp only
    rw [hexists]
    dsimp only
    rw [if_pos hdirectory]
  · refine ⟨d', ?_, hway.trans hlast hfurther⟩
    dsimp only
    rw [hmade]

end MakeDirectories

/-- If no place on the way is a file, then all of them are directories afterwards. -/
theorem makeDirectories_ok {reversed : List Path.Step} (takes : limits.Takes reversed.reverse)
    (passable : ∀ place ∈ way (reversed.reverse.map Path.Step.name), d.Passable place) :
    ∃ d', d.makeDirectories reversed = (.ok (), d') ∧
      d.MakesWay d' (way (reversed.reverse.map Path.Step.name)) := by
  induction reversed with
  | nil =>
    refine ⟨d, rfl, .of_directories ?_⟩
    exact List.forall_mem_singleton.mpr (if_pos rfl)
  | cons step above ih =>
    have hnames := map_name_reverse_cons step above
    have htakes : limits.Takes above.reverse := by
      rw [List.reverse_cons] at takes
      exact takes.mono (List.subset_append_left _ _)
    have hlast : d.Passable (reached [] ((step :: above).reverse.map Path.Step.name)) :=
      passable _ (List.mem_append_right _ (List.mem_singleton_self _))
    have habove : ∀ place ∈ way (above.reverse.map Path.Step.name), d.Passable place := by
      intro place hplace
      rw [hnames, way_concat] at passable
      exact passable place (List.mem_append_left _ hplace)
    have hvisits := visits_concat (above.reverse.map Path.Step.name) step.name
    rw [← hnames] at hvisits
    rcases locate_cases takes (d := d) (by rw [hvisits]; exact habove) with
      ⟨-, hall⟩ | ⟨hmissing, -⟩
    · rw [hvisits] at hall
      exact makeDirectories_of_above takes hall hlast
    · obtain ⟨middle, hmade, hway⟩ := ih htakes habove
      exact makeDirectories_of_missing takes hmissing hmade hway hlast

/-- The later disk has a file at a place, directories on the way there, and is the same
elsewhere. -/
def MakesFile (d d' : Disk limits) (places : List Location) (place : Location) (contents : Contents) :
    Prop :=
  ∀ other, d'.node? other =
    if other = place then some (.file contents)
    else if other ∈ places then some .directory
    else d.node? other

theorem openFile_ok {path : List Path.Step} {names : List String} {last : String}
    (hnames : path.map Path.Step.name = names ++ [last])
    (hreached : reached [] (path.map Path.Step.name) = place) (takes : limits.Takes path)
    (passable : ∀ place ∈ way names, d.Passable place) (apart : place ∉ way names)
    (free : d.node? place ≠ some .directory) :
    ∃ d', d.openFile path = (.ok place, d') ∧
      d.MakesFile d' (way names) place (d.file place) := by
  have habove : path.dropLast.map Path.Step.name = names := by
    rw [List.map_dropLast, hnames, List.dropLast_concat]
  have htakes : limits.Takes path.dropLast := takes.mono (List.dropLast_sublist path).subset
  have hmade : ∃ middle, d.makeDirectories path.dropLast.reverse = (.ok (), middle) ∧
      d.MakesWay middle (way names) := by
    rw [← List.reverse_reverse path.dropLast] at habove htakes
    rw [← habove] at passable ⊢
    exact makeDirectories_ok htakes passable
  obtain ⟨middle, hmade, hway⟩ := hmade
  have hlocate : middle.locate path = .ok place := by
    rw [← hreached]
    refine locate_ok takes fun place hplace => ?_
    rw [hnames, visits_concat] at hplace
    rw [hway, if_pos hplace]
  have hkept : middle.node? place = d.node? place := by
    rw [hway, if_neg apart]
  rw [openFile, hmade]
  dsimp only
  rw [hlocate]
  dsimp only
  match hnode : middle.node? place with
  | some .directory => exact absurd (hkept.symm.trans hnode) free
  | some (.file contents) =>
    refine ⟨middle, rfl, fun other => ?_⟩
    by_cases hother : other = place
    · rw [if_pos hother, hother, hnode, file_eq (hkept.symm.trans hnode)]
    · rw [if_neg hother, hway]
  | none =>
    refine ⟨middle.put place (.file .empty), rfl, fun other => ?_⟩
    rw [node?_put _ (ne_top (by rw [hnode]; exact nofun)), hway, file, ← hkept, hnode]

theorem MakesFile.lengthen {d' : Disk limits} {places : List Location} {contents : Contents} {length : Nat}
    (h : d.MakesFile d' places place contents) (fits : length < positionBound) :
    ∃ d'', d'.lengthen place length = (.ok (), d'') ∧
      d.MakesFile d'' places place (contents.extend length) := by
  have hnode : d'.node? place = some (.file contents) := by
    rw [h place, if_pos rfl]
  rw [Disk.lengthen, file_eq hnode]
  by_cases hshort : contents.size < length
  · rw [if_pos hshort, if_neg (Nat.not_le_of_lt fits)]
    refine ⟨_, rfl, fun other => ?_⟩
    rw [node?_put _ (ne_top (by rw [hnode]; exact nofun))]
    by_cases hother : other = place
    · rw [if_pos hother, if_pos hother]
    · rw [if_neg hother, if_neg hother, h other, if_neg hother]
  · rw [if_neg hshort, Contents.extend_of_le (Nat.le_of_not_lt hshort)]
    exact ⟨d', rfl, h⟩

theorem write_ok {contents : Contents} {data : Bytes} {offset : Nat}
    (hnode : d.node? place = some (.file contents)) (hpos : 0 < data.length)
    (hrange : offset + data.length < positionBound) :
    ∃ d', d.write place data offset = (.ok data.length, d') ∧
      d.MakesFile d' [] place (contents.write offset data) := by
  have hbound : isRange offset data.length = true := decide_eq_true hrange
  have hsome : ¬ data = [] := List.ne_nil_of_length_pos hpos
  refine ⟨d.put place (.file (contents.write offset data)), ?_, fun other => ?_⟩
  · rw [write, hbound, file_eq hnode]
    exact if_neg hsome
  · rw [node?_put _ (ne_top (by rw [hnode]; exact nofun)), if_neg List.not_mem_nil]

end Disk

end FlatVolume
