/-!
# Tables

Finite maps as lists of pairs, in the order in which the keys were first set.
-/

namespace FlatVolume

/-- A finite map; a key that occurs twice counts where it occurs first. -/
abbrev Table (κ : Type) (ν : Type) := List (κ × ν)

namespace Table

variable {κ ν : Type} [DecidableEq κ]

def get? : Table κ ν → κ → Option ν
  | [], _ => none
  | (k, v) :: rest, key => if k = key then some v else get? rest key

/-- Binds `key` to `value`, in place if it is bound already and at the end if not. -/
def set : Table κ ν → κ → ν → Table κ ν
  | [], key, value => [(key, value)]
  | (k, v) :: rest, key, value =>
    if k = key then (k, value) :: rest else (k, v) :: set rest key value

def erase (t : Table κ ν) (key : κ) : Table κ ν :=
  t.filter fun entry => entry.1 ≠ key

theorem get?_set (t : Table κ ν) (key key' : κ) (value : ν) :
    get? (set t key value) key' = if key = key' then some value else get? t key' := by
  induction t with
  | nil => simp [set, get?]
  | cons entry rest ih =>
    obtain ⟨k, v⟩ := entry
    by_cases hk : k = key
    · subst hk
      by_cases hk' : k = key' <;> simp [set, get?, hk']
    · by_cases hk' : k = key'
      · subst hk'
        simp [set, get?, hk, Ne.symm hk]
      · simp [set, get?, hk, hk', ih]

@[simp] theorem get?_set_self (t : Table κ ν) (key : κ) (value : ν) :
    get? (set t key value) key = some value := by
  simp [get?_set]

theorem get?_erase (t : Table κ ν) (key key' : κ) :
    get? (erase t key) key' = if key = key' then none else get? t key' := by
  induction t with
  | nil => simp [erase, get?]
  | cons entry rest ih =>
    obtain ⟨k, v⟩ := entry
    rw [erase] at ih ⊢
    by_cases hk : k = key
    · subst hk
      rw [List.filter_cons_of_neg (by simp), ih, get?]
      split <;> rfl
    · rw [List.filter_cons_of_pos (by simpa using hk), get?, get?, ih]
      by_cases hk' : k = key'
      · subst hk'
        simp [Ne.symm hk]
      · simp [hk']

/-- A value that is set again changes nothing. -/
theorem set_get? {t : Table κ ν} {key : κ} {value : ν} (h : get? t key = some value) :
    set t key value = t := by
  induction t with
  | nil => cases h
  | cons entry rest ih =>
    obtain ⟨k, v⟩ := entry
    rw [get?] at h
    rw [set]
    split
    · rename_i hk
      rw [if_pos hk] at h
      cases h
      rfl
    · rename_i hk
      rw [if_neg hk] at h
      rw [ih h]

theorem get?_isSome_iff {t : Table κ ν} {key : κ} :
    (get? t key).isSome = true ↔ key ∈ t.map Prod.fst := by
  induction t with
  | nil => simp [get?]
  | cons entry rest ih =>
    obtain ⟨k, v⟩ := entry
    rw [get?, List.map_cons, List.mem_cons, ← ih]
    by_cases hk : k = key
    · simp [hk]
    · simp [hk, Ne.symm hk]

theorem map_fst_set (t : Table κ ν) (key : κ) (value : ν) :
    (set t key value).map Prod.fst =
      if key ∈ t.map Prod.fst then t.map Prod.fst else t.map Prod.fst ++ [key] := by
  induction t with
  | nil => simp [set]
  | cons entry rest ih =>
    obtain ⟨k, v⟩ := entry
    rw [set]
    by_cases hk : k = key
    · simp [hk]
    · rw [if_neg hk, List.map_cons, ih, List.map_cons]
      have hmem : key ∈ k :: rest.map Prod.fst ↔ key ∈ rest.map Prod.fst := by
        simp [Ne.symm hk]
      by_cases h : key ∈ rest.map Prod.fst
      · rw [if_pos h, if_pos (hmem.mpr h)]
      · rw [if_neg h, if_neg (mt hmem.mp h)]
        rfl

theorem nodup_set {t : Table κ ν} (h : (t.map Prod.fst).Nodup) (key : κ) (value : ν) :
    ((set t key value).map Prod.fst).Nodup := by
  rw [map_fst_set]
  split
  · exact h
  · rename_i hkey
    rw [List.nodup_append]
    refine ⟨h, by simp, ?_⟩
    rintro k hk _ hlast rfl
    rw [List.mem_singleton] at hlast
    exact hkey (hlast ▸ hk)

end Table

end FlatVolume
