import FlatVolume.Proofs.Opening
import FlatVolume.Proofs.Tiling

/-!
# Looking up an offset

A file of length zero starts where the file behind it starts, so that several extents can start
at one offset. The search by halving ends at the last extent that starts at or before the offset,
which is where trying them one by one ends. Below the total this is the only extent that has the
offset, and so never one of length zero.
-/

namespace FlatVolume

variable {Handle Cache σ : Type}

namespace Layout

/-- The index of the last extent to start at or before `offset`, where one after the other is
tried. -/
def scan (offset : Nat) : List (Extent Handle) → Option Nat
  | [] => none
  | e :: rest =>
    match scan offset rest with
    | some i => some (i + 1)
    | none => if e.start ≤ offset then some 0 else none

/-- The span at `index` has the offset. -/
def HasAt (layout : Layout Handle) (index offset : Nat) : Prop :=
  ∃ start length, layout.span? index = some (start, length) ∧
    start ≤ offset ∧ offset < start + length

/-- The spans are those of the files, end to end in their order, and cover the offsets below the
total, each of them once. -/
structure EndToEnd (layout : Layout Handle) (files : List DeclaredFile) : Prop where
  total_eq : layout.total = Manifest.lengths files
  span?_eq : ∀ i file, files[i]? = some file →
    layout.span? i = some (Manifest.lengths (files.take i), file.length)
  span?_none : ∀ i, files.length ≤ i → layout.span? i = none
  first : ∀ start length, layout.span? 0 = some (start, length) → start = 0
  next : ∀ i start length start' length', layout.span? i = some (start, length) →
    layout.span? (i + 1) = some (start', length') → start' = start + length
  last : ∀ start length, layout.span? (files.length - 1) = some (start, length) →
    start + length = layout.total
  covers : ∀ offset, (∃ i, layout.HasAt i offset) ↔ offset < layout.total
  apart : ∀ i j offset, layout.HasAt i offset → layout.HasAt j offset → i = j

/-- The search ends where a scan does: below the total at the only span that has the offset, and
behind it at the last one. -/
structure Finds (layout : Layout Handle) : Prop where
  scan_eq : ∀ offset, scan offset layout.extents = some (layout.find offset)
  inside : ∀ offset, offset < layout.total →
    layout.HasAt (layout.find offset) offset ∧
      ∀ i, layout.HasAt i offset → i = layout.find offset
  behind : ∀ offset, layout.total ≤ offset → layout.find offset = layout.extents.length - 1
  mono : ∀ offset offset', offset ≤ offset' → layout.find offset ≤ layout.find offset'

variable {layout : Layout Handle} {extents : List (Extent Handle)} {offset : Nat}

theorem scan_eq_none (h : ∀ e ∈ extents, offset < e.start) : scan offset extents = none := by
  induction extents with
  | nil => rfl
  | cons e rest ih =>
    have hrest : scan offset rest = none := ih fun e he => h e (List.mem_cons_of_mem _ he)
    have he := h e List.mem_cons_self
    rw [scan, hrest]
    exact if_neg (by omega)

theorem scan_eq_some {i : Nat} {e : Extent Handle} (he : extents[i]? = some e)
    (hle : e.start ≤ offset)
    (hlater : ∀ (j : Nat) (e' : Extent Handle), i < j → extents[j]? = some e' → offset < e'.start) :
    scan offset extents = some i := by
  induction extents generalizing i with
  | nil => simp at he
  | cons first rest ih =>
    rw [scan]
    cases i with
    | zero =>
      obtain rfl : first = e := by simpa using he
      have hrest : scan offset rest = none := by
        apply scan_eq_none
        intro e' he'
        obtain ⟨j, hj⟩ := List.mem_iff_getElem?.mp he'
        exact hlater (j + 1) e' (Nat.succ_pos j) (by simpa using hj)
      rw [hrest]
      exact if_pos hle
    | succ i =>
      have hrest : scan offset rest = some i := by
        apply ih (by simpa using he)
        intro j e' hj he'
        exact hlater (j + 1) e' (Nat.succ_lt_succ hj) (by simpa using he')
      rw [hrest]

theorem span?_eq_some_iff {i start length : Nat} :
    layout.span? i = some (start, length) ↔
      ∃ e, layout.extents[i]? = some e ∧ e.start = start ∧ e.length = length := by
  simp [span?]

theorem hasAt_iff {i : Nat} :
    layout.HasAt i offset ↔
      ∃ e, layout.extents[i]? = some e ∧ e.start ≤ offset ∧ offset < e.start + e.length := by
  constructor
  · rintro ⟨start, length, hspan, hle, hlt⟩
    obtain ⟨e, he, rfl, rfl⟩ := span?_eq_some_iff.mp hspan
    exact ⟨e, he, hle, hlt⟩
  · rintro ⟨e, he, hle, hlt⟩
    exact ⟨e.start, e.length, span?_eq_some_iff.mpr ⟨e, he, rfl, rfl⟩, hle, hlt⟩

theorem HasAt.unique {i j : Nat} (hi : layout.HasAt i offset) (hj : layout.HasAt j offset) :
    i = j := by
  obtain ⟨e, he, hin⟩ := hasAt_iff.mp hi
  obtain ⟨e', he', hin'⟩ := hasAt_iff.mp hj
  exact layout.tiles.index_unique he he' hin hin'

theorem exists_hasAt_iff : (∃ i, layout.HasAt i offset) ↔ offset < layout.total := by
  constructor
  · rintro ⟨i, hi⟩
    obtain ⟨e, he, -, hlt⟩ := hasAt_iff.mp hi
    have := (layout.tiles.bounds (List.mem_of_getElem? he)).2
    omega
  · intro hlt
    obtain ⟨i, e, he, hin⟩ := layout.tiles.covers ⟨Nat.zero_le offset, hlt⟩
    exact ⟨i, hasAt_iff.mpr ⟨e, he, hin⟩⟩

/-- Below the total the search ends at the extent that has the offset: the extents before it have
ended, and those behind it start later. -/
theorem find_hasAt (h : layout.extents ≠ []) (hlt : offset < layout.total) :
    layout.HasAt (layout.find offset) offset := by
  obtain ⟨e, he, hle, hlater⟩ := layout.find_spec h offset
  obtain ⟨i, hi⟩ := exists_hasAt_iff.mpr hlt
  obtain ⟨e', he', hle', hlt'⟩ := hasAt_iff.mp hi
  rcases Nat.lt_trichotomy i (layout.find offset) with hbefore | rfl | hbehind
  · have := layout.tiles.stop_le_start hbefore he' he
    omega
  · exact hi
  · have := hlater i e' hbehind he'
    omega

theorem find_of_total_le (h : layout.extents ≠ []) (hle : layout.total ≤ offset) :
    layout.find offset = layout.extents.length - 1 := by
  obtain ⟨e, he, -, hlater⟩ := layout.find_spec h offset
  have hfind := (List.getElem?_eq_some_iff.mp he).1
  apply Nat.le_antisymm (by omega)
  apply Nat.le_of_not_lt
  intro hlt
  have hlast : layout.extents[layout.extents.length - 1]? =
      some layout.extents[layout.extents.length - 1] := List.getElem?_eq_getElem (by omega)
  have hstart := hlater _ _ hlt hlast
  have hstop := (layout.tiles.bounds (List.mem_of_getElem? hlast)).2
  omega

theorem find_mono (h : layout.extents ≠ []) {offset' : Nat} (hle : offset ≤ offset') :
    layout.find offset ≤ layout.find offset' := by
  obtain ⟨e, he, hstart, -⟩ := layout.find_spec h offset
  obtain ⟨-, -, -, hlater⟩ := layout.find_spec h offset'
  apply Nat.le_of_not_lt
  intro hlt
  have := hlater _ e hlt he
  omega

theorem finds (h : layout.extents ≠ []) : layout.Finds where
  scan_eq offset := by
    obtain ⟨e, he, hle, hlater⟩ := layout.find_spec h offset
    exact scan_eq_some he hle hlater
  inside offset hlt := ⟨find_hasAt h hlt, fun i hi => hi.unique (find_hasAt h hlt)⟩
  behind offset hle := find_of_total_le h hle
  mono offset offset' hle := find_mono h hle

/-- The first span starts at zero, each other one where the span before it ends, and the last one
ends at the total. -/
theorem endToEnd {files : List DeclaredFile} (hcount : layout.extents.length = files.length)
    (hspan : ∀ i file, files[i]? = some file →
      layout.span? i = some (Manifest.lengths (files.take i), file.length))
    (htotal : layout.total = Manifest.lengths files) : layout.EndToEnd files where
  total_eq := htotal
  span?_eq := hspan
  span?_none i hi := by
    rw [span?, List.getElem?_eq_none (by omega)]
    rfl
  first start length h := by
    obtain ⟨e, he, rfl, rfl⟩ := span?_eq_some_iff.mp h
    obtain ⟨hi, rfl⟩ := List.getElem?_eq_some_iff.mp he
    have hstart := layout.tiles
    rw [← List.drop_zero (l := layout.extents), List.drop_eq_getElem_cons hi] at hstart
    exact hstart.1
  next i start length start' length' h h' := by
    obtain ⟨e, he, rfl, rfl⟩ := span?_eq_some_iff.mp h
    obtain ⟨e', he', rfl, rfl⟩ := span?_eq_some_iff.mp h'
    have hrest := layout.tiles.drop_succ he
    obtain ⟨hi, rfl⟩ := List.getElem?_eq_some_iff.mp he'
    rw [List.drop_eq_getElem_cons hi] at hrest
    exact hrest.1
  last start length h := by
    obtain ⟨e, he, rfl, rfl⟩ := span?_eq_some_iff.mp h
    have hlt := (List.getElem?_eq_some_iff.mp he).1
    have hrest := layout.tiles.drop_succ he
    rw [List.drop_eq_nil_of_le (by omega)] at hrest
    exact hrest
  covers offset := exists_hasAt_iff
  apart i j offset hi hj := hi.unique hj

end Layout

namespace Volume

/-- The spans of a volume lie end to end in the order of its manifest, and the search for an offset
ends at the only span that has it, as trying one span after the other does. -/
theorem finds_the_only_span {host : Host Handle Cache σ} (m : Manifest) {state : σ}
    (opens : ∀ reply ∈ host.openEach m.files state, ∃ handle, reply = .ok handle)
    (fits : Manifest.lengths m.files < wordBound) :
    ∃ v : Volume Handle Cache, ((ofManifest m).run host state).1 = .ok v ∧
      v.layout.EndToEnd m.files ∧ v.layout.Finds := by
  have hlength := host.length_openEach m.files state
  have hfault : ∀ fault, .error (.fault fault) ∉ host.openEach m.files state := by
    intro fault hmem
    obtain ⟨handle, hreply⟩ := opens _ hmem
    cases hreply
  have hfree : ∀ k < m.files.length,
      ¬ Manifest.Obstacle m.files (host.openEach m.files state) k := by
    rintro k - (hover | ⟨e, he⟩)
    · have := Manifest.lengths_take_le m.files (k + 1)
      omega
    · obtain ⟨handle, hreply⟩ := opens _ (List.mem_of_getElem? he)
      cases hreply
  obtain ⟨outcome, hends, hrun⟩ := ofManifest_ends host m state
  obtain ⟨-, layout, rfl, hcount, hplaced, htotal⟩ := hends.of_unobstructed hlength hfault hfree
  have hspan : ∀ i file, m.files[i]? = some file →
      layout.span? i = some (Manifest.lengths (m.files.take i), file.length) := by
    intro i file hfile
    obtain ⟨handle, -, hextent⟩ := hplaced i file hfile
    exact Layout.span?_eq_some_iff.mpr ⟨_, hextent, rfl, rfl⟩
  have hne : layout.extents ≠ [] := by
    intro hnil
    apply m.files_ne_nil
    rw [hnil] at hcount
    exact List.length_eq_zero_iff.mp hcount.symm
  exact ⟨⟨layout, none⟩, hrun, Layout.endToEnd hcount hspan htotal, Layout.finds hne⟩

/-- Files of length zero in front, between the others and at the end: the search passes all that
start where it looks. -/
theorem finds_the_only_span_among_empty_files :
    let desk : Desk := ⟨fun _ => none, fun _ => none, fun _ => none⟩
    let m : Manifest := .multi "empty" [⟨["a"], 0, none⟩, ⟨["b"], 0, none⟩, ⟨["c"], 3, none⟩,
      ⟨["d"], 0, none⟩, ⟨["e"], 2, none⟩, ⟨["f"], 0, none⟩]
    (∀ reply ∈ desk.host.openEach m.files 0, ∃ handle, reply = .ok handle) ∧
      Manifest.lengths m.files < wordBound ∧
      ∃ v : Volume Nat Nat, ((ofManifest m).run desk.host 0).1 = .ok v ∧
        v.layout.EndToEnd m.files ∧ v.layout.Finds := by
  intro desk m
  have hopens : ∀ reply ∈ desk.host.openEach m.files 0, ∃ handle, reply = .ok handle := by
    have hreplies : desk.host.openEach m.files 0 = (List.range 6).map .ok := rfl
    rw [hreplies]
    intro reply hreply
    obtain ⟨handle, -, rfl⟩ := List.mem_map.mp hreply
    exact ⟨handle, rfl⟩
  have hfits : Manifest.lengths m.files < wordBound := by decide
  exact ⟨hopens, hfits, finds_the_only_span m hopens hfits⟩

end Volume

end FlatVolume
