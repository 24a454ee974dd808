import FlatVolume.Bytes

/-!
# Cells

Binary trees of bytes: each level doubles the number of cells, and a subtree of
zeros takes no room. `fill` and `prepend` move a run of bytes into and out of a
tree in one pass; `get_fill` and `prepend_eq` say what they do in terms of
single cells.
-/

namespace FlatVolume

inductive Cells : (height : Nat) → Type where
  | zeros {h : Nat} : Cells h
  | byte (b : UInt8) : Cells 0
  | fork {h : Nat} (low high : Cells h) : Cells (h + 1)

namespace Cells

/-- Number of cells of a tree. -/
def width (height : Nat) : Nat :=
  1 <<< height

/-- The byte in one cell; a cell past the last one counts as zero. -/
def get : {h : Nat} → Cells h → Nat → UInt8
  | _, zeros, _ => 0
  | _, byte b, i => if i = 0 then b else 0
  | _, fork (h := h) low high, i => if i < width h then low.get i else high.get (i - width h)

/-- The lower and the upper half of a tree. -/
def halves {h : Nat} : Cells (h + 1) → Cells h × Cells h
  | zeros => (zeros, zeros)
  | fork low high => (low, high)

/-- Lays bytes over the cells from number `start` on; the bytes for which there is no
cell are left over. -/
def fill : (h : Nat) → Cells h → (start : Nat) → Bytes → Cells h × Bytes
  | _, c, _, [] => (c, [])
  | 0, _, 0, b :: rest => (byte b, rest)
  | 0, c, _ + 1, data => (c, data)
  | h + 1, c, start, data =>
    let (low, rest) := if start < width h then fill h c.halves.1 start data else (c.halves.1, data)
    let (high, rest) := fill h c.halves.2 (start - width h) rest
    (fork low high, rest)

/-- Puts the bytes of `length` cells, from number `start` on, in front of `rest`. -/
def prepend : {h : Nat} → Cells h → (start length : Nat) → (rest : Bytes) → Bytes
  | _, _, _, 0, rest => rest
  | _, zeros, _, length, rest => Bytes.zeros length ++ rest
  | _, byte b, 0, length + 1, rest => b :: (Bytes.zeros length ++ rest)
  | _, byte _, _ + 1, length, rest => Bytes.zeros length ++ rest
  | _, fork (h := h) low high, start, length, rest =>
    let first := min length (width h - start)
    low.prepend start first (high.prepend (start - width h) (length - first) rest)

/-- A tree with the same bytes and more cells behind them. -/
def raise {h : Nat} (c : Cells h) : (levels : Nat) → Cells (h + levels)
  | 0 => c
  | levels + 1 => fork (c.raise levels) zeros

@[simp] theorem width_zero : width 0 = 1 := rfl

theorem width_succ (h : Nat) : width (h + 1) = width h + width h := by
  rw [width, width, Nat.one_shiftLeft, Nat.one_shiftLeft, Nat.pow_succ, Nat.mul_two]

theorem width_le_width {h h' : Nat} (h_le : h ≤ h') : width h ≤ width h' := by
  rw [width, width, Nat.one_shiftLeft, Nat.one_shiftLeft]
  exact Nat.pow_le_pow_right (by decide) h_le

/-- There is a cell for every number in a tree with a level for each of its digits. -/
theorem lt_width_log2 (n : Nat) : n < width (n.log2 + 1) := by
  rw [width, Nat.one_shiftLeft]
  exact Nat.lt_log2_self

@[simp] theorem get_zeros {h : Nat} (i : Nat) : (zeros : Cells h).get i = 0 := by
  cases h <;> rfl

theorem get_of_le {h : Nat} (c : Cells h) {i : Nat} (hi : width h ≤ i) : c.get i = 0 := by
  induction c generalizing i with
  | zeros => simp
  | byte b =>
    rw [width_zero] at hi
    have : i ≠ 0 := by omega
    simp [get, this]
  | @fork h low high _ ih =>
    rw [width_succ] at hi
    rw [get, if_neg (by omega)]
    exact ih (by omega)

theorem get_halves {h : Nat} (c : Cells (h + 1)) (i : Nat) :
    c.get i = if i < width h then c.halves.1.get i else c.halves.2.get (i - width h) := by
  cases c with
  | zeros => simp [halves]
  | fork low high => rfl

/-- What is left over begins with the byte after the one for the last cell. -/
theorem snd_fill {h : Nat} (c : Cells h) (start : Nat) (data : Bytes) :
    (fill h c start data).2 = data.drop (width h - start) := by
  induction h generalizing start data with
  | zero =>
    cases data with
    | nil => simp [fill]
    | cons b rest => cases start <;> simp [fill]
  | succ h ih =>
    cases data with
    | nil => simp [fill]
    | cons b rest =>
      rw [fill, width_succ]
      · by_cases hs : start < width h
        · simp only [hs, if_true, ih, List.drop_drop]
          congr 1
          omega
        · simp only [hs, if_false, ih]
          congr 1
          omega
      · simp

/-- Filling replaces the cells that there are bytes for, and no other. -/
theorem get_fill {h : Nat} (c : Cells h) (start : Nat) (data : Bytes) (i : Nat) :
    (fill h c start data).1.get i =
      if start ≤ i ∧ i < start + data.length ∧ i < width h then data.getD (i - start) 0
      else c.get i := by
  induction h generalizing start data i with
  | zero =>
    rw [width_zero]
    cases data with
    | nil => rw [fill, if_neg (by simp only [List.length_nil]; omega)]
    | cons b rest =>
      cases start with
      | zero =>
        by_cases hi : i = 0
        · simp [fill, get, hi]
        · rw [if_neg (by omega), get_of_le c (by rw [width_zero]; omega)]
          simp [fill, get, hi]
      | succ start =>
        rw [fill, if_neg (by omega)]
        simp
  | succ h ih =>
    cases data with
    | nil => rw [fill, if_neg (by simp only [List.length_nil]; omega)]
    | cons b rest =>
      have hwidth := width_succ h
      rw [fill, get_halves c i]
      · generalize b :: rest = data
        by_cases hs : start < width h <;> by_cases hi : i < width h
        all_goals simp only [hs, hi, if_true, if_false, get, ih, snd_fill, List.length_drop,
          List.getD_eq_getElem?_getD, List.getElem?_drop]
        · simp only [and_true, show i < width (h + 1) by omega]
        · rw [show width h - start + (i - width h - (start - width h)) = i - start by omega]
          exact ite_congr (propext (by omega)) (fun _ => rfl) fun _ => rfl
        · rw [if_neg (by omega)]
        · rw [show i - width h - (start - width h) = i - start by omega]
          exact ite_congr (propext (by omega)) (fun _ => rfl) fun _ => rfl
      · simp

/-- The bytes come out in the order of their cells. -/
theorem prepend_eq {h : Nat} (c : Cells h) (start length : Nat) (rest : Bytes) :
    c.prepend start length rest = (List.range length).map (fun i => c.get (start + i)) ++ rest := by
  induction c generalizing start length rest with
  | zeros => cases length <;> simp [prepend, Bytes.zeros, List.map_const']
  | byte b =>
    cases length with
    | zero => simp [prepend]
    | succ length =>
      cases start with
      | zero =>
        simp [prepend, get, Bytes.zeros, List.range_succ_eq_map, Function.comp_def, List.map_const']
      | succ start =>
        simp [prepend, get, Bytes.zeros, List.map_const']
  | @fork h low high ihl ihh =>
    cases length with
    | zero => simp [prepend]
    | succ length =>
      rw [prepend]
      · generalize length + 1 = length
        generalize hf : min length (width h - start) = first
        have split : length = first + (length - first) := by omega
        rw [ihl, ihh, ← List.append_assoc]
        congr 1
        conv => rhs; rw [split, List.range_add, List.map_append, List.map_map]
        congr 1 <;> apply List.map_congr_left <;> intro i hi <;> rw [List.mem_range] at hi
        · rw [get, if_pos (by omega)]
        · rw [Function.comp, get, if_neg (by omega)]
          congr 1
          omega
      · simp

@[simp] theorem get_raise {h : Nat} (c : Cells h) (levels i : Nat) :
    (c.raise levels).get i = c.get i := by
  induction levels with
  | zero => rfl
  | succ levels ih =>
    rw [raise, get, ih]
    split
    · rfl
    · rename_i hi
      have le : width h ≤ width (h + levels) := width_le_width (Nat.le_add_right h levels)
      rw [get_zeros, get_of_le]
      exact Nat.le_trans le (Nat.le_of_not_lt hi)

end Cells

end FlatVolume
