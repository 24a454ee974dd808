import FlatVolume.Contents.Cells

/-!
# Contents

The bytes of a file, or of a buffer that is filled in places. Only what has been
written takes room, so that a file may be long and nearly empty. `toBytes` is the
plain byte string, and each operation is stated in terms of it.
-/

namespace FlatVolume

structure Contents where
  size : Nat
  height : Nat
  cells : Cells height
  /-- Past the end there are only zeros. -/
  blank : ∀ i, size ≤ i → cells.get i = 0

namespace Contents

def empty : Contents :=
  ⟨0, 0, .zeros, fun _ _ => Cells.get_zeros _⟩

def toBytes (c : Contents) : Bytes :=
  c.cells.prepend 0 c.size []

/-- The bytes from `start` on, at most `length` of them and fewer where they end. -/
def read (c : Contents) (start length : Nat) : Bytes :=
  c.cells.prepend start (min length (c.size - start)) []

/-- Puts zeros at the end up to the given size; contents of that size stay as they are. -/
def extend (c : Contents) (size : Nat) : Contents :=
  ⟨max c.size size, c.height, c.cells, fun i hi => c.blank i (by omega)⟩

/-- The levels to put on top for there to be a cell at `last`. -/
def missingLevels (c : Contents) (last : Nat) : Nat :=
  last.log2 + 1 - c.height

theorem lt_of_missingLevels (c : Contents) {i last : Nat} (h : i ≤ last) :
    i < Cells.width (c.height + c.missingLevels last) := by
  have le : last.log2 + 1 ≤ c.height + c.missingLevels last := by
    rw [missingLevels]
    omega
  exact Nat.lt_of_le_of_lt h
    (Nat.lt_of_lt_of_le (Cells.lt_width_log2 last) (Cells.width_le_width le))

/-- Lays `data` over the bytes from `start` on. The contents grow to where it ends, with
zeros in between. -/
def write (c : Contents) (start : Nat) (data : Bytes) : Contents :=
  let stop := start + data.length
  { size := max c.size stop
    height := c.height + c.missingLevels stop
    cells := (Cells.fill _ (c.cells.raise (c.missingLevels stop)) start data).1
    blank := fun i hi => by
      rw [Cells.get_fill, if_neg (by omega), Cells.get_raise]
      exact c.blank i (by omega) }

/-- Lays `data` over the bytes from `start` on; what would lie past the end is dropped. -/
def overlay (c : Contents) (start : Nat) (data : Bytes) : Contents :=
  if start < c.size then c.write start (data.take (c.size - start)) else c

def ofBytes (b : Bytes) : Contents :=
  empty.write 0 b

theorem toBytes_eq (c : Contents) : c.toBytes = (List.range c.size).map c.cells.get := by
  simp [toBytes, Cells.prepend_eq]

@[simp] theorem length_toBytes (c : Contents) : c.toBytes.length = c.size := by
  simp [toBytes_eq]

theorem getElem?_toBytes (c : Contents) (i : Nat) :
    c.toBytes[i]? = if i < c.size then some (c.cells.get i) else none := by
  rw [toBytes_eq, List.getElem?_map]
  split <;> rename_i h
  · simp [h]
  · simp [Nat.le_of_not_lt h]

@[simp] theorem toBytes_empty : empty.toBytes = [] := rfl

@[simp] theorem size_extend (c : Contents) (size : Nat) : (c.extend size).size = max c.size size := rfl

theorem extend_of_le {c : Contents} {size : Nat} (h : size ≤ c.size) : c.extend size = c := by
  have hsize : max c.size size = c.size := Nat.max_eq_left h
  obtain ⟨_, _, _, _⟩ := c
  simp only [extend, hsize]

@[simp] theorem size_write (c : Contents) (start : Nat) (data : Bytes) :
    (c.write start data).size = max c.size (start + data.length) := rfl

theorem get_write (c : Contents) (start : Nat) (data : Bytes) (i : Nat) :
    (c.write start data).cells.get i =
      if start ≤ i ∧ i < start + data.length then data.getD (i - start) 0 else c.cells.get i := by
  simp only [write, Cells.get_fill, Cells.get_raise]
  refine ite_congr (propext ⟨fun h => ⟨h.1, h.2.1⟩, fun h => ⟨h.1, h.2, ?_⟩⟩) (fun _ => rfl) fun _ => rfl
  exact c.lt_of_missingLevels (Nat.le_of_lt h.2)

theorem read_eq (c : Contents) (start length : Nat) :
    c.read start length = c.toBytes.window start length := by
  apply List.ext_getElem?
  intro i
  rw [read, Cells.prepend_eq, List.append_nil, Bytes.window, List.getElem?_take, List.getElem?_drop,
    getElem?_toBytes, List.getElem?_map]
  by_cases h : i < length ∧ start + i < c.size
  · have inside : i < min length (c.size - start) := by omega
    simp [inside, h]
  · have outside : min length (c.size - start) ≤ i := by omega
    rw [List.getElem?_eq_none (by simpa using outside)]
    split
    · rw [if_neg (by omega)]
      rfl
    · rfl

theorem toBytes_extend (c : Contents) (size : Nat) :
    (c.extend size).toBytes = c.toBytes.extend size := by
  apply List.ext_getElem?
  intro i
  rw [getElem?_toBytes, Bytes.extend, List.getElem?_append, length_toBytes, Bytes.zeros,
    List.getElem?_replicate, getElem?_toBytes]
  by_cases inside : i < c.size
  · rw [if_pos inside, if_pos inside, if_pos (by simp only [size_extend]; omega)]
    rfl
  · rw [if_neg inside]
    refine ite_congr (propext (by simp only [size_extend]; omega)) (fun _ => ?_) fun _ => rfl
    exact congrArg some (c.blank i (Nat.le_of_not_lt inside))

theorem toBytes_write (c : Contents) (start : Nat) (data : Bytes) :
    (c.write start data).toBytes = (c.toBytes.extend (start + data.length)).overlay start data := by
  apply List.ext_getElem?
  intro i
  rw [Bytes.getElem?_overlay, ← toBytes_extend, getElem?_toBytes, getElem?_toBytes, length_toBytes,
    get_write]
  by_cases h : start ≤ i ∧ i < start + data.length
  · have inside : i < max c.size (start + data.length) := by omega
    have within : i - start < data.length := by omega
    simp [h, inside, List.getD_eq_getElem?_getD, within]
  · have apart : ¬ (start ≤ i ∧ i < start + data.length ∧ i < (c.extend (start + data.length)).size) :=
      fun p => h ⟨p.1, p.2.1⟩
    rw [if_neg apart, if_neg h]
    rfl

@[simp] theorem toBytes_ofBytes (b : Bytes) : (ofBytes b).toBytes = b := by
  rw [ofBytes, toBytes_write]
  simp [Bytes.overlay, Bytes.extend, Bytes.zeros]

@[simp] theorem size_ofBytes (b : Bytes) : (ofBytes b).size = b.length := by
  rw [← length_toBytes, toBytes_ofBytes]

theorem toBytes_overlay (c : Contents) (start : Nat) (data : Bytes) :
    (c.overlay start data).toBytes = c.toBytes.overlay start data := by
  rw [overlay]
  split <;> rename_i h
  · rw [toBytes_write, Bytes.extend_of_le (by simp only [List.length_take, length_toBytes]; omega),
      ← length_toBytes, Bytes.overlay_take]
  · exact (Bytes.overlay_of_le _ (by simpa using h)).symm

@[simp] theorem size_overlay (c : Contents) (start : Nat) (data : Bytes) :
    (c.overlay start data).size = c.size := by
  rw [← length_toBytes, toBytes_overlay, Bytes.length_overlay, length_toBytes]

end Contents

end FlatVolume
