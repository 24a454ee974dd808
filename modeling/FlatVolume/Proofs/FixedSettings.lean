import FlatVolume.Disk.System

/-!
# Settings that are fixed once

The settings of a process are fixed by the first who touches them, be it to set or to read them.
So it depends on the first touch alone what all who come later see. To be told a name that is no
component is not to touch them.
-/

namespace FlatVolume

namespace Settings

def Choice.directory? : Choice → Option String
  | downloadDirectory directory => some directory
  | preallocate _ => none

def Choice.enabled? : Choice → Option Bool
  | downloadDirectory _ => none
  | preallocate enabled => some enabled

theorem foldl_choose (choices : List Choice) (draft : Draft) :
    choices.foldl Draft.choose draft =
      ⟨(choices.filterMap Choice.directory?).getLast?.or draft.downloadDirectory,
        (choices.filterMap Choice.enabled?).getLast?.or draft.preallocate⟩ := by
  induction choices generalizing draft with
  | nil => rfl
  | cons choice rest ih =>
    rw [List.foldl_cons, ih]
    cases choice with
    | downloadDirectory directory =>
      simp only [List.filterMap_cons, Choice.directory?, Choice.enabled?, List.getLast?_cons]
      cases (rest.filterMap Choice.directory?).getLast? <;> rfl
    | preallocate enabled =>
      simp only [List.filterMap_cons, Choice.directory?, Choice.enabled?, List.getLast?_cons]
      cases (rest.filterMap Choice.enabled?).getLast? <;> rfl

theorem ofChoices_eq (choices : List Choice) :
    ofChoices choices =
      ⟨(choices.filterMap Choice.directory?).getLast?.getD ".",
        (choices.filterMap Choice.enabled?).getLast?.getD true⟩ := by
  rw [ofChoices, foldl_choose]
  simp [Draft.empty, Draft.build, standard]

end Settings

theorem DiskSystem.foldl_withPreallocate (overrides : List Bool) (s : DiskSystem) :
    overrides.foldl withPreallocate s = ⟨s.root, overrides.getLast?.getD s.preallocate⟩ := by
  induction overrides generalizing s with
  | nil => rfl
  | cons enabled rest ih =>
    rw [List.foldl_cons, ih, List.getLast?_cons]
    rfl

/-- What is done in a process that has to do with its settings. -/
inductive Visit where
  | init (choices : List Settings.Choice)
  | initStandard
  | read
  /-- A file system under a root, with what is then said about preallocation. -/
  | openSystem (root : String) (overrides : List Bool)
  | openDownloads
  | openVolume (downloads : DownloadDirectory) (name : String)

namespace Visit

/-- What is seen of the settings. -/
inductive Seen where
  | fixed (done : Bool)
  | settings (settings : Settings)
  | system (system : DiskSystem)
  | downloads (downloads : DownloadDirectory)
  | refused (e : IoError)

def perform (p : ProcessSettings) : Visit → Seen × ProcessSettings
  | init choices =>
    let (done, p) := p.init choices
    (.fixed done, p)
  | initStandard =>
    let (done, p) := p.initStandard
    (.fixed done, p)
  | read =>
    let (settings, p) := p.read
    (.settings settings, p)
  | openSystem root overrides =>
    let (system, p) := DiskSystem.under root p
    (.system (overrides.foldl DiskSystem.withPreallocate system), p)
  | openDownloads =>
    let (downloads, p) := DownloadDirectory.configured p
    (.downloads downloads, p)
  | openVolume downloads name =>
    match downloads.systemFor name p with
    | (.ok system, p) => (.system system, p)
    | (.error e, p) => (.refused e, p)

def performAll (p : ProcessSettings) : List Visit → List Seen × ProcessSettings
  | [] => ([], p)
  | visit :: rest =>
    let (seen, p) := visit.perform p
    let (more, p) := performAll p rest
    (seen :: more, p)

/-- What is seen by a process that has not been touched before. -/
def seen (visits : List Visit) : List Seen :=
  (performAll .untouched visits).1

/-- The settings that a visit wants to be fixed. -/
def proposal? : Visit → Option Settings
  | init choices => some (.ofChoices choices)
  | initStandard => some .standard
  | _ => none

/-- The visit reads the settings. A name that is no component is refused before that. -/
def Reads : Visit → Prop
  | init _ | initStandard => False
  | read | openSystem _ _ | openDownloads => True
  | openVolume _ name => Path.isComponent name = true

def Sets (visit : Visit) : Prop :=
  visit.proposal?.isSome

/-- What a visit that reads sees where these are the settings. -/
def shows (settings : Settings) : Visit → Seen
  | init _ | initStandard | read => .settings settings
  | openSystem root overrides => .system ⟨root, overrides.getLast?.getD settings.preallocate⟩
  | openDownloads => .downloads ⟨settings.downloadDirectory⟩
  | openVolume downloads name =>
    .system ⟨Path.join downloads.directory name, settings.preallocate⟩

/-- The visit at `i` is told that it has fixed the settings. -/
def Wins (visits : List Visit) (i : Nat) : Prop :=
  (seen visits)[i]? = some (.fixed true)

/-- Nobody has set or read the settings before `i`. -/
def Untouched (visits : List Visit) (i : Nat) : Prop :=
  ∀ (j : Nat) (visit : Visit), j < i → visits[j]? = some visit → ¬ visit.Sets ∧ ¬ visit.Reads

/-- The settings are fixed once, and by someone who sets them where that is before anyone reads
them. All who read them see the same: what was set, or else the standard settings. -/
structure FixedOnce (visits : List Visit) : Prop where
  built : ∀ choices, Settings.ofChoices choices =
    ⟨(choices.filterMap Settings.Choice.directory?).getLast?.getD ".",
      (choices.filterMap Settings.Choice.enabled?).getLast?.getD true⟩
  once : ∀ i j, Wins visits i → Wins visits j → i = j
  wins_iff : (∃ i, Wins visits i) ↔
    ∃ (i : Nat) (visit : Visit), visits[i]? = some visit ∧ visit.Sets ∧
      ∀ (j : Nat) (reader : Visit), visits[j]? = some reader → reader.Reads → i < j
  settled : ∃ settings : Settings,
    (∀ (i : Nat) (visit : Visit), visits[i]? = some visit → visit.Reads →
      (seen visits)[i]? = some (visit.shows settings)) ∧
    (∀ i, Wins visits i → ∃ visit : Visit, visits[i]? = some visit ∧
      visit.proposal? = some settings ∧ Untouched visits i) ∧
    ((¬ ∃ i, Wins visits i) → settings = .standard)
  refused : ∀ (i : Nat) (downloads : DownloadDirectory) (name : String),
    visits[i]? = some (.openVolume downloads name) → Path.isComponent name = false →
      (seen visits)[i]? = some (.refused (Path.badComponent name)) ∧
        seen (visits.eraseIdx i) = (seen visits).eraseIdx i

/-- What a visit fixes where nothing is fixed yet. -/
def fixes? : Visit → Option Settings
  | init choices => some (.ofChoices choices)
  | initStandard | read | openSystem _ _ | openDownloads => some .standard
  | openVolume _ name => if Path.isComponent name then some .standard else none

/-- What a visit sees that comes when these settings are fixed, or none. -/
def answer (fixed : Option Settings) (visit : Visit) : Seen :=
  match visit with
  | init _ | initStandard => .fixed fixed.isNone
  | openVolume _ name =>
    if Path.isComponent name then visit.shows (fixed.getD .standard)
    else .refused (Path.badComponent name)
  | _ => visit.shows (fixed.getD .standard)

variable {p : ProcessSettings} {visits : List Visit} {visit : Visit} {i : Nat}

theorem perform_eq (p : ProcessSettings) (visit : Visit) :
    visit.perform p = (visit.answer p.fixed, ⟨p.fixed.or visit.fixes?⟩) := by
  obtain ⟨fixed⟩ := p
  cases visit with
  | openSystem root overrides =>
    simp only [perform, DiskSystem.under, ProcessSettings.read, DiskSystem.foldl_withPreallocate]
    cases fixed <;> rfl
  | openVolume downloads name =>
    rw [perform, DownloadDirectory.systemFor, Path.checkComponent, answer, fixes?]
    by_cases hname : Path.isComponent name = true
    · simp only [if_pos hname]
      cases fixed <;> rfl
    · simp only [if_neg hname]
      cases fixed <;> rfl
  | _ => cases fixed <;> rfl

/-- What is fixed after a row of visits is what the first of them fixes that fixes something. -/
theorem performAll_fixed (p : ProcessSettings) (visits : List Visit) :
    (performAll p visits).2.fixed = p.fixed.or (visits.findSome? fixes?) := by
  induction visits generalizing p with
  | nil => simp [performAll]
  | cons visit rest ih =>
    rw [performAll, perform_eq]
    dsimp only
    rw [ih, List.findSome?_cons]
    cases p.fixed <;> cases visit.fixes? <;> rfl

theorem getElem?_performAll (p : ProcessSettings) (visits : List Visit) (i : Nat) :
    (performAll p visits).1[i]? =
      visits[i]?.map (answer (performAll p (visits.take i)).2.fixed) := by
  induction visits generalizing p i with
  | nil => simp [performAll]
  | cons visit rest ih =>
    cases i with
    | zero =>
      rw [performAll, perform_eq]
      rfl
    | succ i => exact ih (visit.perform p).2 i

/-- What is fixed when the visit at `i` comes. -/
def before (visits : List Visit) (i : Nat) : Option Settings :=
  (visits.take i).findSome? fixes?

theorem getElem?_seen (visits : List Visit) (i : Nat) :
    (seen visits)[i]? = visits[i]?.map (answer (before visits i)) := by
  rw [seen, getElem?_performAll, performAll_fixed]
  rfl

theorem fixes?_of_sets (h : visit.Sets) : visit.fixes? = visit.proposal? := by
  cases visit <;> first | rfl | simp [Sets, proposal?] at h

theorem fixes?_of_reads (h : visit.Reads) : visit.fixes? = some .standard := by
  cases visit with
  | init _ | initStandard => exact h.elim
  | openVolume _ name => exact if_pos h
  | _ => rfl

theorem fixes?_eq_none_iff : visit.fixes? = none ↔ ¬ visit.Sets ∧ ¬ visit.Reads := by
  cases visit <;> simp [fixes?, Sets, proposal?, Reads]

theorem sets_or_reads {settings : Settings} (h : visit.fixes? = some settings) :
    visit.Sets ∨ visit.Reads := by
  by_cases hsets : visit.Sets
  · exact .inl hsets
  · by_cases hreads : visit.Reads
    · exact .inr hreads
    · rw [fixes?_eq_none_iff.mpr ⟨hsets, hreads⟩] at h
      cases h

theorem answer_of_reads (fixed : Option Settings) (h : visit.Reads) :
    visit.answer fixed = visit.shows (fixed.getD .standard) := by
  cases visit with
  | init _ | initStandard => exact h.elim
  | openVolume _ name => exact if_pos h
  | _ => rfl

theorem answer_eq_fixed_iff {fixed : Option Settings} :
    visit.answer fixed = .fixed true ↔ visit.Sets ∧ fixed = none := by
  cases visit with
  | openVolume downloads name =>
    rw [answer]
    split <;> simp [shows, Sets, proposal?]
  | _ => simp [answer, shows, Sets, proposal?]

theorem before_eq_none_iff : before visits i = none ↔ Untouched visits i := by
  rw [before, List.findSome?_eq_none_iff]
  constructor
  · intro h j visit hj hvisit
    apply fixes?_eq_none_iff.mp
    apply h
    apply List.mem_of_getElem? (i := j)
    rw [List.getElem?_take, if_pos hj]
    exact hvisit
  · intro h visit hvisit
    obtain ⟨j, hj⟩ := List.mem_iff_getElem?.mp hvisit
    rw [List.getElem?_take] at hj
    split at hj
    · rename_i hlt
      exact fixes?_eq_none_iff.mpr (h j visit hlt hj)
    · cases hj

theorem wins_iff_untouched :
    Wins visits i ↔ ∃ visit, visits[i]? = some visit ∧ visit.Sets ∧ Untouched visits i := by
  rw [Wins, getElem?_seen, Option.map_eq_some_iff]
  simp only [answer_eq_fixed_iff, before_eq_none_iff]

theorem before_succ (h : visits[i]? = some visit) :
    before visits (i + 1) = (before visits i).or visit.fixes? := by
  rw [before, List.take_add_one, h, List.findSome?_append]
  simp [before]

theorem findSome?_of_before {settings : Settings} (h : before visits i = some settings) :
    visits.findSome? fixes? = some settings := by
  rw [← List.take_append_drop i visits, List.findSome?_append, ← before, h]
  rfl

theorem exists_first {settings : Settings} (h : visits.findSome? fixes? = some settings) :
    ∃ i visit, visits[i]? = some visit ∧ Untouched visits i ∧ visit.fixes? = some settings := by
  obtain ⟨front, visit, later, rfl, hvisit, hfront⟩ := List.findSome?_eq_some_iff.mp h
  refine ⟨front.length, visit, by simp, ?_, hvisit⟩
  rw [← before_eq_none_iff, before, List.take_left, List.findSome?_eq_none_iff]
  exact hfront

/-- All who read see the settings that are fixed by the first touch. -/
theorem seen_of_reads (hi : visits[i]? = some visit) (h : visit.Reads) :
    (seen visits)[i]? = some (visit.shows ((visits.findSome? fixes?).getD .standard)) := by
  rw [getElem?_seen, hi, Option.map_some, answer_of_reads _ h]
  have hsucc := before_succ hi
  cases hbefore : before visits i with
  | none =>
    rw [hbefore, fixes?_of_reads h, Option.none_or] at hsucc
    rw [findSome?_of_before hsucc]
    rfl
  | some settings => rw [findSome?_of_before hbefore]

theorem performAll_eraseIdx {downloads : DownloadDirectory} {name : String}
    (h : Path.isComponent name = false) (hi : visits[i]? = some (.openVolume downloads name)) :
    (performAll p (visits.eraseIdx i)).1 = (performAll p visits).1.eraseIdx i := by
  induction visits generalizing p i with
  | nil => rfl
  | cons visit rest ih =>
    cases i with
    | zero =>
      obtain rfl : visit = .openVolume downloads name := by simpa using hi
      rw [performAll, perform_eq, fixes?, h]
      simp
    | succ i =>
      have hrest := ih (p := (perform p visit).2) (by simpa using hi)
      exact congrArg (List.cons (perform p visit).1) hrest

theorem Wins.unique {j : Nat} (hi : Wins visits i) (hj : Wins visits j) : i = j := by
  obtain ⟨visit, hvisit, hsets, huntouched⟩ := wins_iff_untouched.mp hi
  obtain ⟨visit', hvisit', hsets', huntouched'⟩ := wins_iff_untouched.mp hj
  rcases Nat.lt_trichotomy i j with hlt | heq | hlt
  · exact absurd hsets (huntouched' i visit hlt hvisit).1
  · exact heq
  · exact absurd hsets' (huntouched j visit' hlt hvisit').1

theorem exists_wins_of_sets (hi : visits[i]? = some visit) (hsets : visit.Sets)
    (hreads : ∀ (j : Nat) (reader : Visit), visits[j]? = some reader → reader.Reads → i < j) :
    ∃ k, Wins visits k := by
  cases hfirst : visits.findSome? fixes? with
  | none =>
    have hnone := List.findSome?_eq_none_iff.mp hfirst visit (List.mem_of_getElem? hi)
    exact absurd hsets (fixes?_eq_none_iff.mp hnone).1
  | some settings =>
    obtain ⟨k, first, hk, huntouched, hfixes⟩ := exists_first hfirst
    rcases sets_or_reads hfixes with hwins | hreader
    · exact ⟨k, wins_iff_untouched.mpr ⟨first, hk, hwins, huntouched⟩⟩
    · exact absurd hsets (huntouched i visit (hreads k first hk hreader) hi).1

theorem Wins.before_readers (hi : Wins visits i) :
    ∃ visit : Visit, visits[i]? = some visit ∧ visit.Sets ∧
      ∀ (j : Nat) (reader : Visit), visits[j]? = some reader → reader.Reads → i < j := by
  obtain ⟨visit, hvisit, hsets, huntouched⟩ := wins_iff_untouched.mp hi
  refine ⟨visit, hvisit, hsets, ?_⟩
  intro j reader hreader hreads
  rcases Nat.lt_trichotomy i j with hlt | rfl | hlt
  · exact hlt
  · obtain rfl := Option.some.inj (hvisit.symm.trans hreader)
    cases visit <;> simp [Sets, proposal?, Reads] at hsets hreads
  · exact absurd hreads (huntouched j reader hlt hreader).2

theorem Wins.proposal (hi : Wins visits i) :
    ∃ visit : Visit, visits[i]? = some visit ∧
      visit.proposal? = some ((visits.findSome? fixes?).getD .standard) ∧ Untouched visits i := by
  obtain ⟨visit, hvisit, hsets, huntouched⟩ := wins_iff_untouched.mp hi
  obtain ⟨settings, hproposal⟩ := Option.isSome_iff_exists.mp hsets
  have hsucc := before_succ hvisit
  rw [before_eq_none_iff.mpr huntouched, fixes?_of_sets hsets, hproposal] at hsucc
  rw [findSome?_of_before hsucc]
  exact ⟨visit, hvisit, hproposal, huntouched⟩

theorem standard_of_not_wins (h : ¬ ∃ i, Wins visits i) :
    (visits.findSome? fixes?).getD .standard = .standard := by
  cases hfirst : visits.findSome? fixes? with
  | none => rfl
  | some settings =>
    obtain ⟨k, first, hk, huntouched, hfixes⟩ := exists_first hfirst
    rcases sets_or_reads hfixes with hsets | hreads
    · exact absurd ⟨k, wins_iff_untouched.mpr ⟨first, hk, hsets, huntouched⟩⟩ h
    · rw [fixes?_of_reads hreads] at hfixes
      exact (Option.some.inj hfixes).symm

/-- Whatever is done in a process, its settings are fixed once. -/
theorem settings_fixed_once (visits : List Visit) : FixedOnce visits where
  built := Settings.ofChoices_eq
  once i j hi hj := hi.unique hj
  wins_iff := by
    constructor
    · rintro ⟨i, hi⟩
      exact ⟨i, hi.before_readers⟩
    · rintro ⟨i, visit, hvisit, hsets, hreads⟩
      exact exists_wins_of_sets hvisit hsets hreads
  settled := by
    refine ⟨(visits.findSome? fixes?).getD .standard, ?_, ?_, ?_⟩
    · intro i visit hi hreads
      exact seen_of_reads hi hreads
    · intro i hi
      exact hi.proposal
    · exact standard_of_not_wins
  refused i downloads name hi hname := by
    constructor
    · rw [getElem?_seen, hi, Option.map_some, answer, hname]
      rfl
    · exact performAll_eraseIdx hname hi

end Visit

end FlatVolume
