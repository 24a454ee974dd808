import FlatVolume.Bytes
import FlatVolume.VolumeError
import FlatVolume.Word

/-!
# One array of bytes

What a volume is to those who use it: an array of a fixed length with zeros behind its
end. Reads find the zeros there, and writes may put nothing else there.
-/

namespace FlatVolume

namespace FlatArray

/-- The `length` bytes from `offset` on, zeros where the array has ended. -/
def read (a : Bytes) (length offset : Nat) : Bytes :=
  (List.range length).map fun i => a.getD (offset + i) 0

/-- The first position of `data` that comes behind the end of an array of `total` bytes and
is not zero. -/
def trailing? (total : Nat) (data : Bytes) (offset : Nat) : Option Nat :=
  (List.range data.length).find? fun i => total ≤ offset + i && data.getD i 0 ≠ 0

def answer (total : Nat) (data : Bytes) (offset : Nat) : Except VolumeError Nat :=
  match trailing? total data offset with
  | none => .ok data.length
  | some t => .error (.nonZeroTrailingData (Word.addSat offset t) t)

@[simp] theorem length_read (a : Bytes) (length offset : Nat) :
    (read a length offset).length = length := by
  simp [read]

theorem getElem?_read (a : Bytes) (length offset i : Nat) :
    (read a length offset)[i]? = if i < length then some (a.getD (offset + i) 0) else none := by
  by_cases h : i < length <;> simp [read, h]

theorem getD_read {length i : Nat} (a : Bytes) (offset : Nat) (h : i < length) :
    (read a length offset).getD i 0 = a.getD (offset + i) 0 := by
  rw [List.getD_eq_getElem?_getD, getElem?_read, if_pos h, Option.getD_some]

theorem read_overlay_self {a data : Bytes} {offset : Nat} (h : offset + data.length ≤ a.length) :
    read (a.overlay offset data) data.length offset = data := by
  apply List.ext_getElem?
  intro i
  rw [getElem?_read]
  split
  · rw [Bytes.getD_overlay, if_pos (by omega), Nat.add_sub_cancel_left, List.getD_eq_getElem?_getD,
      List.getElem?_eq_getElem (by omega), Option.getD_some]
  · rw [List.getElem?_eq_none (by omega)]

theorem read_overlay_apart {data : Bytes} {length offset offset' : Nat} (a : Bytes)
    (h : offset' + length ≤ offset ∨ offset + data.length ≤ offset') :
    read (a.overlay offset data) length offset' = read a length offset' := by
  apply List.map_congr_left
  intro i hi
  rw [List.mem_range] at hi
  rw [Bytes.getD_overlay, if_neg (by omega)]

theorem window_append_zeros {a : Bytes} {length offset moved : Nat} (hm : moved ≤ length)
    (hin : 0 < moved → offset + moved ≤ a.length)
    (hend : length ≤ moved ∨ a.length ≤ offset + moved) :
    a.window offset moved ++ Bytes.zeros (length - moved) = read a length offset := by
  apply List.ext_getElem?
  intro i
  rw [getElem?_read, List.getElem?_append, Bytes.length_window, Bytes.window, List.getElem?_take,
    List.getElem?_drop, Bytes.zeros, List.getElem?_replicate, List.getD_eq_getElem?_getD]
  by_cases hi : i < moved
  · have := hin (by omega)
    rw [if_pos (by omega), if_pos hi, if_pos (by omega), List.getElem?_eq_getElem (by omega)]
    rfl
  · rw [if_neg (by omega)]
    by_cases hl : i < length
    · rw [if_pos (by omega), if_pos hl, List.getElem?_eq_none (by omega)]
      rfl
    · rw [if_neg (by omega), if_neg hl]

theorem trailing?_eq_some_iff {total offset t : Nat} {data : Bytes} :
    trailing? total data offset = some t ↔
      t < data.length ∧ total ≤ offset + t ∧ data.getD t 0 ≠ 0 ∧
        ∀ i < t, total ≤ offset + i → data.getD i 0 = 0 := by
  rw [trailing?, List.find?_range_eq_some]
  simp only [List.mem_range, Bool.and_eq_true, decide_eq_true_eq, Bool.not_eq_true',
    Bool.and_eq_false_iff, decide_eq_false_iff_not, ne_eq, Classical.not_not]
  constructor
  · rintro ⟨⟨hle, hne⟩, hlt, hfirst⟩
    exact ⟨hlt, hle, hne, fun i hi hpast => (hfirst i hi).resolve_left fun h => h hpast⟩
  · rintro ⟨hlt, hle, hne, hfirst⟩
    refine ⟨⟨hle, hne⟩, hlt, fun i hi => ?_⟩
    by_cases hpast : total ≤ offset + i
    · exact .inr (hfirst i hi hpast)
    · exact .inl hpast

theorem trailing?_eq_none_iff {total offset : Nat} {data : Bytes} :
    trailing? total data offset = none ↔
      ∀ i < data.length, total ≤ offset + i → data.getD i 0 = 0 := by
  simp [trailing?, List.find?_eq_none]

theorem getD_overlay_of_trailing {a data : Bytes} {offset q : Nat} {c : UInt8}
    (htrailing : trailing? a.length data offset = none) (hle : offset ≤ q)
    (hq : data[q - offset]? = some c) : (a.overlay offset data).getD q 0 = c := by
  obtain ⟨hlt, hc⟩ := List.getElem?_eq_some_iff.mp hq
  have hdata : data.getD (q - offset) 0 = c := by
    rw [List.getD_eq_getElem?_getD, hq, Option.getD_some]
  rw [Bytes.getD_overlay]
  by_cases hin : q < a.length
  · rw [if_pos ⟨hle, by omega, hin⟩, hdata]
  · rw [if_neg (by omega), List.getD_eq_getElem?_getD, List.getElem?_eq_none (by omega),
      Option.getD_none, ← hdata]
    exact (trailing?_eq_none_iff.mp htrailing (q - offset) hlt (by omega)).symm

theorem trailing?_eq_findIdx? {total offset moved : Nat} (data : Bytes)
    (hin : 0 < moved → offset + moved ≤ total)
    (hend : data.length ≤ moved ∨ total ≤ offset + moved) :
    trailing? total data offset = ((data.drop moved).findIdx? (· ≠ 0)).map (moved + ·) := by
  cases hfind : (data.drop moved).findIdx? (· ≠ 0) with
  | none =>
    rw [List.findIdx?_eq_none_iff] at hfind
    refine trailing?_eq_none_iff.mpr fun i hi hpast => ?_
    have hmem : data.getD i 0 ∈ data.drop moved := by
      rw [List.getD_eq_getElem?_getD, List.getElem?_eq_getElem hi, Option.getD_some]
      exact List.mem_drop_iff_getElem.mpr ⟨i - moved, by omega, by congr 1; omega⟩
    simpa using hfind _ hmem
  | some position =>
    obtain ⟨hlt, hne, hfirst⟩ := List.findIdx?_eq_some_iff_getElem.mp hfind
    have hbyte : ∀ i (hi : i < (data.drop moved).length),
        (data.drop moved)[i] = data.getD (moved + i) 0 := by
      intro i hi
      rw [List.length_drop] at hi
      rw [List.getElem_drop, List.getD_eq_getElem?_getD, List.getElem?_eq_getElem (by omega),
        Option.getD_some]
    rw [hbyte position hlt] at hne
    rw [List.length_drop] at hlt
    rw [Option.map_some]
    refine trailing?_eq_some_iff.mpr ⟨by omega, by omega, of_decide_eq_true hne, ?_⟩
    intro i hi hpast
    obtain ⟨k, rfl⟩ := Nat.exists_eq_add_of_le (show moved ≤ i by omega)
    have hzero := hfirst k (by omega)
    rw [hbyte k] at hzero
    simpa using hzero

end FlatArray

end FlatVolume
