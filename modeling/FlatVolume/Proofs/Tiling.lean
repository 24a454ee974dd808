import FlatVolume.Layout

/-!
# Extents end to end

Where the extents of a layout lie: in order, apart, and without a hole between the
first offset and the total. The search by halving ends at an extent that starts at or
before the offset it looks for, so that a walk from there on never begins too late.
-/

namespace FlatVolume

variable {Handle : Type}

namespace Tiles

theorem le {start stop : Nat} {extents : List (Extent Handle)} (h : Tiles start extents stop) :
    start ≤ stop := by
  induction extents generalizing start with
  | nil => exact Nat.le_of_eq h
  | cons e rest ih =>
    have := ih h.2
    omega

theorem bounds {start stop : Nat} {extents : List (Extent Handle)} (h : Tiles start extents stop)
    {e : Extent Handle} (he : e ∈ extents) : start ≤ e.start ∧ e.start + e.length ≤ stop := by
  induction extents generalizing start with
  | nil => simp at he
  | cons first rest ih =>
    obtain ⟨hs, hr⟩ := h
    rcases List.mem_cons.mp he with rfl | he
    · have := hr.le
      omega
    · have := ih hr he
      omega

theorem drop {start stop : Nat} {extents : List (Extent Handle)} (h : Tiles start extents stop)
    {i : Nat} {e : Extent Handle} (he : extents[i]? = some e) :
    Tiles e.start (extents.drop i) stop := by
  induction extents generalizing start i with
  | nil => simp at he
  | cons first rest ih =>
    cases i with
    | zero =>
      obtain rfl : first = e := by simpa using he
      obtain ⟨rfl, hr⟩ := h
      exact ⟨rfl, hr⟩
    | succ i => exact ih h.2 (by simpa using he)

/-- What comes behind an extent goes on where it ends. -/
theorem drop_succ {start stop : Nat} {extents : List (Extent Handle)} (h : Tiles start extents stop)
    {i : Nat} {e : Extent Handle} (he : extents[i]? = some e) :
    Tiles (e.start + e.length) (extents.drop (i + 1)) stop := by
  obtain ⟨hi, rfl⟩ := List.getElem?_eq_some_iff.mp he
  have hdrop := h.drop he
  rw [List.drop_eq_getElem_cons hi] at hdrop
  exact hdrop.2

theorem stop_le_start {start stop : Nat} {extents : List (Extent Handle)}
    (h : Tiles start extents stop) {i j : Nat} {e e' : Extent Handle} (hij : i < j)
    (he : extents[i]? = some e) (he' : extents[j]? = some e') : e.start + e.length ≤ e'.start := by
  induction extents generalizing start i j with
  | nil => simp at he
  | cons first rest ih =>
    cases j with
    | zero => omega
    | succ j =>
      cases i with
      | zero =>
        obtain rfl : first = e := by simpa using he
        obtain ⟨hs, hr⟩ := h
        have := (hr.bounds (List.mem_of_getElem? (by simpa using he'))).1
        omega
      | succ i =>
        rw [List.getElem?_cons_succ] at he he'
        exact ih h.2 (by omega) he he'

theorem start_le_start {start stop : Nat} {extents : List (Extent Handle)}
    (h : Tiles start extents stop) {i j : Nat} {e e' : Extent Handle} (hij : i ≤ j)
    (he : extents[i]? = some e) (he' : extents[j]? = some e') : e.start ≤ e'.start := by
  rcases Nat.eq_or_lt_of_le hij with rfl | hlt
  · obtain rfl : e = e' := Option.some.inj (he.symm.trans he')
    exact Nat.le_refl _
  · have := h.stop_le_start hlt he he'
    omega

theorem index_unique {start stop : Nat} {extents : List (Extent Handle)}
    (h : Tiles start extents stop) {i j q : Nat} {e e' : Extent Handle}
    (he : extents[i]? = some e) (he' : extents[j]? = some e')
    (hq : e.start ≤ q ∧ q < e.start + e.length) (hq' : e'.start ≤ q ∧ q < e'.start + e'.length) :
    i = j := by
  rcases Nat.lt_trichotomy i j with hij | hij | hij
  · have := h.stop_le_start hij he he'
    omega
  · exact hij
  · have := h.stop_le_start hij he' he
    omega

theorem covers {start stop : Nat} {extents : List (Extent Handle)} (h : Tiles start extents stop)
    {q : Nat} (hq : start ≤ q ∧ q < stop) :
    ∃ (i : Nat) (e : Extent Handle), extents[i]? = some e ∧ e.start ≤ q ∧ q < e.start + e.length := by
  induction extents generalizing start with
  | nil =>
    have : start = stop := h
    omega
  | cons first rest ih =>
    obtain ⟨hs, hr⟩ := h
    by_cases hf : q < start + first.length
    · exact ⟨0, first, rfl, by omega, by omega⟩
    · obtain ⟨i, e, he, hle, hlt⟩ := ih hr (by omega)
      exact ⟨i + 1, e, by simpa using he, hle, hlt⟩

end Tiles

/-- Halving ends between its bounds, and what it has tested there is on the two sides of
the place where it ends. -/
theorem bisect_bounds (test : Nat → Bool) {steps low high : Nat} (hsteps : high - low ≤ steps)
    (hle : low ≤ high) :
    low ≤ bisect test steps low high ∧ bisect test steps low high ≤ high ∧
      (low < bisect test steps low high → test (bisect test steps low high - 1) = true) ∧
      (bisect test steps low high < high → test (bisect test steps low high) = false) := by
  induction steps generalizing low high with
  | zero =>
    have : low = high := by omega
    simp [bisect, this]
  | succ steps ih =>
    rw [bisect]
    split
    · rename_i hlt
      generalize hm : low + (high - low) / 2 = middle
      have hmid : low ≤ middle ∧ middle < high := by omega
      dsimp only
      split
      · rename_i ht
        obtain ⟨h₁, h₂, h₃, h₄⟩ := @ih (middle + 1) high (by omega) (by omega)
        refine ⟨by omega, h₂, fun _ => ?_, h₄⟩
        by_cases hend : middle + 1 < bisect test steps (middle + 1) high
        · exact h₃ hend
        · have : bisect test steps (middle + 1) high - 1 = middle := by omega
          rw [this]
          exact ht
      · rename_i ht
        obtain ⟨h₁, h₂, h₃, h₄⟩ := @ih low middle (by omega) (by omega)
        refine ⟨h₁, by omega, h₃, fun _ => ?_⟩
        by_cases hend : bisect test steps low middle < middle
        · exact h₄ hend
        · have : bisect test steps low middle = middle := by omega
          rw [this]
          simpa using ht
    · have : low = high := by omega
      simp [this]

namespace Layout

theorem startsBy_iff (layout : Layout Handle) (offset index : Nat) :
    layout.startsBy offset index = true ↔
      ∃ e, layout.extents[index]? = some e ∧ e.start ≤ offset := by
  unfold startsBy
  cases h : layout.extents[index]? <;> simp

/-- The extent that is found starts at or before the offset, and every extent behind it starts
later. -/
theorem find_spec (layout : Layout Handle) (h : layout.extents ≠ []) (offset : Nat) :
    ∃ e, layout.extents[layout.find offset]? = some e ∧ e.start ≤ offset ∧
      ∀ (j : Nat) (e' : Extent Handle), layout.find offset < j → layout.extents[j]? = some e' →
        offset < e'.start := by
  obtain ⟨-, hhigh, hlow, hfail⟩ := bisect_bounds (layout.startsBy offset)
    (Nat.sub_le layout.extents.length 0) (Nat.zero_le _)
  change partitionPoint _ _ ≤ _ at hhigh
  change 0 < partitionPoint _ _ → layout.startsBy offset (layout.find offset) = true at hlow
  change partitionPoint _ _ < _ → layout.startsBy offset (partitionPoint _ _) = false at hfail
  have hfind : layout.find offset =
      partitionPoint (layout.startsBy offset) layout.extents.length - 1 := rfl
  generalize partitionPoint (layout.startsBy offset) layout.extents.length = point at *
  have hpos : 0 < point := by
    apply Nat.pos_of_ne_zero
    rintro rfl
    obtain ⟨first, rest, hx⟩ := List.exists_cons_of_ne_nil h
    have htiles := layout.tiles
    rw [hx] at htiles
    have hfirst : layout.startsBy offset 0 = true :=
      (layout.startsBy_iff offset 0).mpr ⟨first, by simp [hx], by have := htiles.1; omega⟩
    rw [hfirst] at hfail
    simp [hx] at hfail
  obtain ⟨e, he, hle⟩ := (layout.startsBy_iff offset _).mp (hlow hpos)
  refine ⟨e, he, hle, ?_⟩
  intro j e' hj he'
  have hlt := (List.getElem?_eq_some_iff.mp he').1
  have hpoint : layout.extents[point]? = some layout.extents[point] :=
    List.getElem?_eq_getElem (by omega)
  have hafter : ¬ layout.extents[point].start ≤ offset := by
    intro hstarts
    have htrue := (layout.startsBy_iff offset point).mpr ⟨_, hpoint, hstarts⟩
    rw [hfail (by omega)] at htrue
    cases htrue
  have := layout.tiles.start_le_start (show point ≤ j by omega) hpoint he'
  omega

/-- The extents from the one that is found tile the rest of the layout, and the first of
them starts at or before the offset. -/
theorem tiles_drop_find (layout : Layout Handle) (offset : Nat) :
    ∃ start, Tiles start (layout.extents.drop (layout.find offset)) layout.total ∧
      start ≤ offset := by
  by_cases hx : layout.extents = []
  · have h := layout.tiles
    rw [hx] at h ⊢
    exact ⟨0, by simpa using h, Nat.zero_le _⟩
  · obtain ⟨e, he, hle, -⟩ := layout.find_spec hx offset
    exact ⟨e.start, layout.tiles.drop he, hle⟩

end Layout

end FlatVolume
