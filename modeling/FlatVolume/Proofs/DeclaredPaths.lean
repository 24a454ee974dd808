import FlatVolume.Disk.System
import FlatVolume.Memory
import FlatVolume.Proofs.PathTexts

/-!
# Where declared paths lead

A file system on disk and one in memory accept the same declared paths and refuse the others for
the same reason. Under a root an accepted path becomes the text of the root with the components
behind it, and its components can be read off that text. So no two paths lead to one file, and
none leads out of the root.
-/

namespace FlatVolume.Path

/-- A component that leads one level down and no other way. -/
structure Plain (c : String) : Prop where
  ne_empty : c ≠ ""
  ne_here : c ≠ "."
  ne_above : c ≠ ".."
  free : ∀ x ∈ c.toList, x ≠ '/' ∧ x ≠ '\\' ∧ x ≠ '\x00'

def Accepted (path : List String) : Prop :=
  path ≠ [] ∧ ∀ c ∈ path, Plain c

/-- The error that a path is refused with: it is empty, or this is its first bad component. -/
inductive Refused : List String → IoError → Prop where
  | empty : Refused [] ⟨.invalidInput, "empty path"⟩
  | component {before after : List String} {c : String} : (∀ b ∈ before, Plain b) → ¬ Plain c →
      Refused (before ++ c :: after) ⟨.invalidInput, "invalid path component: " ++ quoted c⟩

/-- The text of a root with the slash that goes between it and what is below it. -/
def slashed (root : String) : String :=
  if root = "" ∨ root.toList.getLast? = some '/' then root else root ++ "/"

/-- What is left of the text of a path when the root is taken off, as the slashes cut it. -/
def below (root text : String) : List String :=
  split (String.ofList (text.toList.drop (slashed root).toList.length))

section Components

variable {c : String} {path : List String} {e : IoError}

theorem isComponent_iff : isComponent c = true ↔ Plain c := by
  simp only [isComponent, isReserved, Bool.and_eq_true, decide_eq_true_eq, Bool.not_eq_true',
    List.any_eq_false, Bool.or_eq_true, not_or]
  constructor
  · rintro ⟨⟨⟨hempty, hhere⟩, habove⟩, hfree⟩
    refine ⟨hempty, hhere, habove, ?_⟩
    intro x hx
    obtain ⟨⟨hslash, hback⟩, hnul⟩ := hfree x hx
    exact ⟨hslash, hback, hnul⟩
  · rintro ⟨hempty, hhere, habove, hfree⟩
    refine ⟨⟨⟨hempty, hhere⟩, habove⟩, ?_⟩
    intro x hx
    obtain ⟨hslash, hback, hnul⟩ := hfree x hx
    exact ⟨⟨hslash, hback⟩, hnul⟩

theorem check_eq_ok_iff_accepted : check path = .ok () ↔ Accepted path := by
  rw [check_eq_ok_iff, Accepted]
  simp only [isComponent_iff]

theorem checkComponents_eq_error_iff :
    checkComponents path = .error e ↔ ∃ before c after, path = before ++ c :: after ∧
      (∀ b ∈ before, Plain b) ∧ ¬ Plain c ∧ e = badComponent c := by
  induction path with
  | nil => simp [checkComponents]
  | cons first rest ih =>
    rw [checkComponents, checkComponent]
    by_cases hfirst : isComponent first = true
    · rw [if_pos hfirst]
      constructor
      · intro h
        obtain ⟨before, c, after, rfl, hbefore, hc, he⟩ := ih.mp h
        refine ⟨first :: before, c, after, rfl, ?_, hc, he⟩
        intro b hb
        rcases List.mem_cons.mp hb with rfl | hb
        · exact isComponent_iff.mp hfirst
        · exact hbefore b hb
      · rintro ⟨before, c, after, hpath, hbefore, hc, he⟩
        apply ih.mpr
        cases before with
        | nil =>
          obtain ⟨rfl, -⟩ := List.cons.inj hpath
          exact absurd (isComponent_iff.mp hfirst) hc
        | cons b before =>
          obtain ⟨rfl, hrest⟩ := List.cons.inj hpath
          exact ⟨before, c, after, hrest, fun b hb => hbefore b (List.mem_cons_of_mem _ hb), hc, he⟩
    · rw [if_neg hfirst]
      have hbad : ¬ Plain first := fun h => hfirst (isComponent_iff.mpr h)
      constructor
      · intro h
        exact ⟨[], first, rest, rfl, by simp, hbad, (Except.error.inj h).symm⟩
      · rintro ⟨before, c, after, hpath, hbefore, -, rfl⟩
        cases before with
        | nil =>
          obtain ⟨rfl, -⟩ := List.cons.inj hpath
          rfl
        | cons b before =>
          obtain ⟨rfl, -⟩ := List.cons.inj hpath
          exact absurd (hbefore first List.mem_cons_self) hbad

theorem check_eq_error_iff : check path = .error e ↔ Refused path e := by
  constructor
  · intro h
    cases path with
    | nil =>
      obtain rfl := Except.error.inj h
      exact .empty
    | cons first rest =>
      obtain ⟨before, c, after, hpath, hbefore, hc, rfl⟩ := checkComponents_eq_error_iff.mp h
      rw [hpath]
      exact .component hbefore hc
  · intro h
    cases h with
    | empty => rfl
    | @component before after c hbefore hc =>
      have hchecked := checkComponents_eq_error_iff.mpr ⟨before, c, after, rfl, hbefore, hc, rfl⟩
      cases before <;> exact hchecked

/-- Every path that is not accepted is refused for a reason. -/
theorem exists_refused (h : ¬ Accepted path) : ∃ e, Refused path e := by
  cases hcheck : check path with
  | ok => exact absurd (check_eq_ok_iff_accepted.mp hcheck) h
  | error e => exact ⟨e, check_eq_error_iff.mp hcheck⟩

end Components

section Texts

variable {c root : String} {path : List String}

theorem Plain.head?_ne (h : Plain c) : c.toList.head? ≠ some '/' := by
  intro hhead
  exact (h.free '/' (List.mem_of_head? hhead)).1 rfl

theorem Plain.getLast?_ne (h : Plain c) : c.toList.getLast? ≠ some '/' := by
  intro hlast
  exact (h.free '/' (List.mem_of_getLast? hlast)).1 rfl

theorem join_eq (root : String) (h : Plain c) : join root c = slashed root ++ c := by
  rw [join, if_neg h.head?_ne, slashed]
  split <;> rfl

/-- Behind a component there is always a slash. -/
theorem slashed_append (front : String) (h : Plain c) : slashed (front ++ c) = front ++ c ++ "/" := by
  have hchars : c.toList ≠ [] := by
    simpa using h.ne_empty
  apply if_neg
  rintro (hempty | hlast)
  · apply hchars
    have htext := congrArg String.toList hempty
    rw [String.toList_append] at htext
    exact (List.append_eq_nil_iff.mp htext).2
  · obtain ⟨x, hx⟩ := Option.ne_none_iff_exists'.mp (mt List.getLast?_eq_none_iff.mp hchars)
    rw [String.toList_append, List.getLast?_append, hx, Option.some_or, ← hx] at hlast
    exact h.getLast?_ne hlast

theorem display_cons (c : String) (h : path ≠ []) : display (c :: path) = c ++ "/" ++ display path := by
  cases path with
  | nil => exact absurd rfl h
  | cons first rest => exact String.intercalate_cons_cons

/-- The text of a path under a root is that of the root and behind it the components. -/
theorem foldl_join_eq (root : String) (h : Accepted path) :
    path.foldl join root = slashed root ++ display path := by
  obtain ⟨hne, hplain⟩ := h
  induction path generalizing root with
  | nil => exact absurd rfl hne
  | cons c rest ih =>
    have hc := hplain c List.mem_cons_self
    rw [List.foldl_cons, join_eq root hc]
    by_cases hrest : rest = []
    · subst hrest
      simp [display]
    · rw [ih _ hrest fun c' hc' => hplain c' (List.mem_cons_of_mem _ hc'), slashed_append _ hc,
        display_cons c hrest]
      simp only [String.append_assoc]

/-- The components can be read off the text. -/
theorem below_eq (root : String) (h : Accepted path) :
    below root (slashed root ++ display path) = path := by
  rw [below, String.toList_append, List.drop_left, String.ofList_toList]
  exact split_display (check_eq_ok_iff_accepted.mpr h)

theorem names_eq_append (root : String) (h : Accepted path) :
    names (slashed root ++ display path) = names root ++ path := by
  rw [← foldl_join_eq root h]
  exact names_foldl_join root fun c hc => isComponent_iff.mpr (h.2 c hc)

theorem resolve_of_accepted (root : String) (h : Accepted path) :
    resolve root path = .ok (slashed root ++ display path) := by
  rw [resolve, check_eq_ok_iff_accepted.mpr h, ← foldl_join_eq root h]

theorem resolve_eq_ok_iff (root : String) {text : String} :
    resolve root path = .ok text ↔ Accepted path ∧ text = slashed root ++ display path := by
  constructor
  · intro h
    rw [resolve] at h
    split at h
    · rename_i hcheck
      have haccepted := check_eq_ok_iff_accepted.mp hcheck
      rw [foldl_join_eq root haccepted] at h
      exact ⟨haccepted, (Except.ok.inj h).symm⟩
    · cases h
  · rintro ⟨haccepted, rfl⟩
    exact resolve_of_accepted root haccepted

theorem resolve_of_refused (root : String) {e : IoError} (h : Refused path e) :
    resolve root path = .error e := by
  rw [resolve, check_eq_error_iff.mpr h]

theorem resolve_eq_iff (root : String) {path' : List String} (h : Accepted path)
    (h' : Accepted path') : resolve root path = resolve root path' ↔ path = path' := by
  constructor
  · intro hsame
    rw [resolve_of_accepted root h, resolve_of_accepted root h'] at hsame
    have hread := congrArg (below root) (Except.ok.inj hsame)
    rwa [below_eq root h, below_eq root h'] at hread
  · rintro rfl
    rfl

end Texts

theorem openFile_of_accepted (m : Memory) {path : List String} {length : Nat} (h : Accepted path)
    (fits : length < positionBound) : (m.openFile path length).1 = .ok (display path) := by
  rw [Memory.openFile, check_eq_ok_iff_accepted.mpr h]
  dsimp only
  rw [if_neg fun hlong => Nat.not_le.mpr fits hlong.2]

theorem openFile_of_refused (m : Memory) {path : List String} {e : IoError} (length : Nat)
    (h : Refused path e) : m.openFile path length = (.error (.error e), m) := by
  rw [Memory.openFile, check_eq_error_iff.mpr h]

/-- A system on disk and one in memory treat declared paths alike. An accepted path has a text
under the root and a key in memory that no other accepted path has, and its components can be read
off that text. The other paths are refused and change nothing. -/
structure Confined (s : DiskSystem) (m : Memory) (length : Nat) : Prop where
  accepted : ∀ path, Accepted path →
    s.resolve path = .ok (slashed s.root ++ display path) ∧
      (m.openFile path length).1 = .ok (display path)
  refused : ∀ path, ¬ Accepted path → ∃ e, Refused path e ∧ s.resolve path = .error e ∧
    m.openFile path length = (.error (.error e), m)
  read_back : ∀ path text, s.resolve path = .ok text → below s.root text = path ∧
    names text = names s.root ++ path ∧ ∀ c ∈ below s.root text, c ≠ "." ∧ c ≠ ".."
  apart : ∀ path path', Accepted path → Accepted path' →
    (s.resolve path = s.resolve path' ↔ path = path') ∧
      ∀ (m' : Memory) (length' : Nat), length' < positionBound →
        ((m.openFile path length).1 = (m'.openFile path' length').1 ↔ path = path')

/-- Declared paths neither lead out of the root nor to one another's files. -/
theorem paths_confined (s : DiskSystem) (m : Memory) {length : Nat}
    (fits : length < positionBound) : Confined s m length where
  accepted path h := ⟨resolve_of_accepted s.root h, openFile_of_accepted m h fits⟩
  refused path h := by
    obtain ⟨e, he⟩ := exists_refused h
    exact ⟨e, he, resolve_of_refused s.root he, openFile_of_refused m length he⟩
  read_back path text h := by
    obtain ⟨haccepted, rfl⟩ := (resolve_eq_ok_iff s.root).mp h
    rw [below_eq s.root haccepted]
    refine ⟨rfl, names_eq_append s.root haccepted, ?_⟩
    intro c hc
    have hplain := haccepted.2 c hc
    exact ⟨hplain.ne_here, hplain.ne_above⟩
  apart path path' h h' := by
    constructor
    · exact resolve_eq_iff s.root h h'
    · intro m' length' fits'
      rw [openFile_of_accepted m h fits, openFile_of_accepted m' h' fits']
      constructor
      · intro hsame
        exact display_inj (check_eq_ok_iff_accepted.mpr h) (check_eq_ok_iff_accepted.mpr h')
          (Except.ok.inj hsame)
      · rintro rfl
        rfl

theorem paths_confined_downloads :
    4 < positionBound ∧ Confined ⟨"downloads", true⟩ .empty 4 :=
  have hfits : 4 < positionBound := by decide
  ⟨hfits, paths_confined ⟨"downloads", true⟩ .empty hfits⟩

end FlatVolume.Path
