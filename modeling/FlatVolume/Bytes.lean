/-!
# Byte strings

Contents of files, buffers and the windows cut out of them. `overlay` is how
every transfer changes a buffer or a file: it never changes the length, and
`getElem?_overlay` says which bytes it replaces.
-/

namespace FlatVolume

abbrev Bytes := List UInt8

namespace Bytes

def zeros (n : Nat) : Bytes :=
  List.replicate n 0

/-- The part of `b` from `start` on, at most `length` bytes of it. -/
def window (b : Bytes) (start length : Nat) : Bytes :=
  (b.drop start).take length

/-- Lays `new` over `old` from position `start` on; what would lie past the end of
`old` is dropped. -/
def overlay (old : Bytes) (start : Nat) (new : Bytes) : Bytes :=
  old.take start ++ new.take (old.length - start) ++ old.drop (start + new.length)

/-- Puts zeros behind `b` up to the given length; a `b` of that length stays as it is. -/
def extend (b : Bytes) (length : Nat) : Bytes :=
  b ++ zeros (length - b.length)

@[simp] theorem length_zeros (n : Nat) : (zeros n).length = n := by
  simp [zeros]

@[simp] theorem length_window (b : Bytes) (start length : Nat) :
    (window b start length).length = min length (b.length - start) := by
  simp [window]

theorem length_window_le (b : Bytes) (start length : Nat) :
    (window b start length).length ≤ b.length - start := by
  rw [length_window]
  exact Nat.min_le_right _ _

@[simp] theorem length_overlay (old : Bytes) (start : Nat) (new : Bytes) :
    (overlay old start new).length = old.length := by
  simp only [overlay, List.length_append, List.length_take, List.length_drop]
  omega

@[simp] theorem length_extend (b : Bytes) (n : Nat) :
    (extend b n).length = max b.length n := by
  simp only [extend, List.length_append, length_zeros]
  omega

theorem getElem?_overlay (old : Bytes) (start : Nat) (new : Bytes) (i : Nat) :
    (overlay old start new)[i]? =
      if start ≤ i ∧ i < start + new.length ∧ i < old.length then new[i - start]? else old[i]? := by
  simp only [overlay, List.getElem?_append, List.length_append, List.length_take,
    List.getElem?_take, List.getElem?_drop]
  split <;> rename_i h
  · split <;> rename_i h'
    · rw [if_pos (by omega), if_neg (by omega)]
    · rw [if_pos (by omega), if_pos (by omega)]
      congr 1
      omega
  · split <;> rename_i h'
    · omega
    · by_cases hi : i < old.length
      · congr 1
        omega
      · rw [List.getElem?_eq_none (by omega), List.getElem?_eq_none (by omega)]

theorem getD_overlay (old : Bytes) (start : Nat) (new : Bytes) (i : Nat) :
    (overlay old start new).getD i 0 =
      if start ≤ i ∧ i < start + new.length ∧ i < old.length then new.getD (i - start) 0
      else old.getD i 0 := by
  rw [List.getD_eq_getElem?_getD, getElem?_overlay]
  split <;> rw [List.getD_eq_getElem?_getD]

@[simp] theorem overlay_nil (old : Bytes) (start : Nat) : overlay old start [] = old := by
  simp [overlay]

/-- Only the bytes for which there is room count. -/
theorem overlay_take (old : Bytes) (start : Nat) (new : Bytes) :
    overlay old start (new.take (old.length - start)) = overlay old start new := by
  apply List.ext_getElem?
  intro i
  rw [getElem?_overlay, getElem?_overlay, List.length_take, List.getElem?_take]
  split <;> rename_i h
  · rw [if_pos (by omega), if_pos (by omega)]
  · rw [if_neg (by omega)]

/-- What would lie past the end makes no difference. -/
theorem overlay_take_of_le {old : Bytes} {start n : Nat} (new : Bytes) (h : old.length ≤ start + n) :
    overlay old start (new.take n) = overlay old start new := by
  rw [← overlay_take old start (new.take n), ← overlay_take old start new, List.take_take,
    Nat.min_eq_left (by omega)]

theorem overlay_of_le {old : Bytes} {start : Nat} (new : Bytes) (h : old.length ≤ start) :
    overlay old start new = old := by
  apply List.ext_getElem?
  intro i
  rw [getElem?_overlay, if_neg (by omega)]

/-- Bytes that reach just to the end take the place of all that was there. -/
theorem overlay_of_length {old new : Bytes} {start : Nat} (h : start + new.length = old.length) :
    overlay old start new = old.take start ++ new := by
  have hroom : old.length - start = new.length := by omega
  rw [overlay, hroom, List.take_length, h, List.drop_length, List.append_nil]

/-- A position behind the end counts as a zero, with or without the zeros put there. -/
theorem getD_extend (b : Bytes) (n i : Nat) : (extend b n).getD i 0 = b.getD i 0 := by
  rw [extend, zeros, List.getD_eq_getElem?_getD, List.getD_eq_getElem?_getD, List.getElem?_append]
  split
  · rfl
  · rename_i hend
    rw [List.getElem?_eq_none (Nat.le_of_not_lt hend), List.getElem?_replicate]
    split <;> rfl

theorem extend_of_le {b : Bytes} {n : Nat} (h : n ≤ b.length) : extend b n = b := by
  simp [extend, zeros, Nat.sub_eq_zero_of_le h]

theorem extend_extend (b : Bytes) {m n : Nat} (h : m ≤ n) : (b.extend m).extend n = b.extend n := by
  rw [extend, length_extend, extend, extend, zeros, zeros, zeros, List.append_assoc,
    List.replicate_append_replicate]
  congr 2
  omega

/-- Zeros behind the bytes make no difference to what is laid over them. -/
theorem extend_overlay {b data : Bytes} {place : Nat} (n : Nat) (h : place + data.length ≤ b.length) :
    (b.overlay place data).extend n = (b.extend n).overlay place data := by
  apply List.ext_getElem?
  intro i
  rw [getElem?_overlay, extend, extend, List.getElem?_append, List.getElem?_append, length_overlay,
    getElem?_overlay, List.length_append]
  by_cases hi : i < b.length
  · rw [if_pos hi, if_pos hi]
    by_cases hdata : place ≤ i ∧ i < place + data.length
    · rw [if_pos (by omega), if_pos (by omega)]
    · rw [if_neg (by omega), if_neg (by omega)]
  · rw [if_neg hi, if_neg (by omega), if_neg hi]

/-- What follows the first `done` of the bytes that were laid, up to where they end. -/
theorem take_drop_overlay {old new : Bytes} {start space done : Nat} (hs : start ≤ old.length)
    (h : new.length = min (old.length - start) space) (hd : done ≤ new.length) :
    ((overlay old start new).drop (start + done)).take (space - done) = new.drop done := by
  apply List.ext_getElem?
  intro i
  rw [List.getElem?_take, List.getElem?_drop, List.getElem?_drop, getElem?_overlay]
  by_cases hi : done + i < new.length
  · rw [if_pos (by omega), if_pos (by omega)]
    congr 1
    omega
  · rw [List.getElem?_eq_none (Nat.le_of_not_lt hi)]
    split
    · rw [if_neg (by omega), List.getElem?_eq_none (by omega)]
    · rfl

/-- Laying bytes over the last of those that were laid before. -/
theorem overlay_overlay {old new tail : Bytes} {start done : Nat} (hd : done ≤ new.length)
    (h : tail.length = new.length - done) :
    overlay (overlay old start new) (start + done) tail = overlay old start (new.take done ++ tail) := by
  apply List.ext_getElem?
  intro i
  simp only [getElem?_overlay, length_overlay, List.length_append, List.length_take,
    List.getElem?_append, List.getElem?_take]
  by_cases ht : start + done ≤ i ∧ i < start + done + tail.length ∧ i < old.length
  · rw [if_pos ht, if_pos (by omega), if_neg (by omega)]
    congr 1
    omega
  · rw [if_neg ht]
    by_cases hn : start ≤ i ∧ i < start + new.length ∧ i < old.length
    · rw [if_pos hn, if_pos (by omega), if_pos (by omega), if_pos (by omega)]
    · rw [if_neg hn, if_neg (by omega)]

/-- Laying bytes and then more behind them. -/
theorem overlay_append (old : Bytes) (start : Nat) (new tail : Bytes) :
    overlay (overlay old start new) (start + new.length) tail = overlay old start (new ++ tail) := by
  apply List.ext_getElem?
  intro i
  simp only [getElem?_overlay, length_overlay, List.length_append, List.getElem?_append]
  by_cases ht : start + new.length ≤ i ∧ i < start + new.length + tail.length ∧ i < old.length
  · rw [if_pos ht, if_pos (by omega), if_neg (by omega)]
    congr 1
    omega
  · rw [if_neg ht]
    by_cases hn : start ≤ i ∧ i < start + new.length ∧ i < old.length
    · rw [if_pos hn, if_pos (by omega), if_pos (by omega)]
    · rw [if_neg hn, if_neg (by omega)]

/-- Laying bytes at the end of `front` leaves it in front of them. -/
theorem overlay_append_length (front : Bytes) {rest new : Bytes} (h : new.length ≤ rest.length) :
    overlay (front ++ rest) front.length new = front ++ (new ++ rest.drop new.length) := by
  rw [overlay, List.take_left, List.length_append, Nat.add_sub_cancel_left,
    List.take_of_length_le h, List.drop_append, List.drop_eq_nil_of_le (Nat.le_add_right _ _),
    Nat.add_sub_cancel_left, List.nil_append, List.append_assoc]

/-- Laying bytes at the front leaves what comes behind them. -/
theorem overlay_zero {old new : Bytes} (h : new.length ≤ old.length) :
    overlay old 0 new = new ++ old.drop new.length :=
  overlay_append_length [] h

/-- Laying bytes behind a front is laying them over the whole. -/
theorem take_append_overlay {b data : Bytes} {start : Nat} (hstart : start ≤ b.length)
    (h : data.length ≤ (b.drop start).length) :
    b.take start ++ overlay (b.drop start) 0 data = b.overlay start data := by
  have hlaid := overlay_append_length (b.take start) h
  rw [List.take_append_drop, List.length_take, Nat.min_eq_left hstart] at hlaid
  rw [hlaid, overlay_zero h]

theorem window_append (b : Bytes) (start m n : Nat) :
    window b start m ++ window b (start + m) n = window b start (m + n) := by
  rw [window, window, window, List.take_add, List.drop_drop]

/-- A window has no more than there is. -/
theorem window_min (b : Bytes) (start length : Nat) :
    window b start (min (b.length - start) length) = window b start length := by
  rw [window, window, ← List.length_drop, Nat.min_comm, ← List.take_eq_take_min]

/-- The end of a window and what comes behind the window. -/
theorem drop_take_append {b : Bytes} {length n : Nat} (h : n ≤ (b.take length).length) :
    (b.take length).drop n ++ b.drop (b.take length).length = b.drop n := by
  have hb : b.take length ++ b.drop (b.take length).length = b := by
    rw [List.length_take, List.take_eq_take_min, List.take_append_drop]
  rw [← List.drop_append_of_le_length h, hb]

/-- Laying a window of a buffer back where it came from changes nothing. -/
theorem overlay_window (b : Bytes) (start length : Nat) :
    overlay b start (window b start length) = b := by
  apply List.ext_getElem?
  intro i
  rw [getElem?_overlay]
  split <;> rename_i h
  · rw [length_window] at h
    rw [window, List.getElem?_take, if_pos (by omega), List.getElem?_drop]
    congr 1
    omega
  · rfl

theorem window_length_window (b : Bytes) (start length : Nat) :
    window b start (window b start length).length = window b start length := by
  rw [length_window, Nat.min_comm, window_min]

/-- Bytes laid into a window are laid into the buffer that the window is from. -/
theorem overlay_overlay_window {b new : Bytes} {start length : Nat}
    (h : new.length ≤ (window b start length).length) :
    overlay b start (overlay (window b start length) 0 new) = overlay b start new := by
  apply List.ext_getElem?
  intro i
  rw [length_window] at h
  simp only [getElem?_overlay, length_overlay, length_window]
  by_cases hn : start ≤ i ∧ i < start + new.length ∧ i < b.length
  · rw [if_pos hn, if_pos (by omega), if_pos (by omega)]
    congr 1
  · rw [if_neg hn]
    split
    · rename_i hw
      rw [if_neg (by omega), window, List.getElem?_take, if_pos (by omega), List.getElem?_drop]
      congr 1
      omega
    · rfl

/-- A window shows what is laid into it. -/
theorem window_overlay {b new : Bytes} {start length : Nat} (hfit : start + length ≤ b.length)
    (h : new.length ≤ length) :
    window (overlay b start new) start length = overlay (window b start length) 0 new := by
  have hlength := length_window b start length
  apply List.ext_getElem?
  intro i
  rw [getElem?_overlay, hlength, window, List.getElem?_take, List.getElem?_drop, getElem?_overlay]
  by_cases hi : i < new.length
  · rw [if_pos (by omega), if_pos (by omega), if_pos (by omega), Nat.add_sub_cancel_left,
      Nat.sub_zero]
  · rw [if_neg (show ¬ (start ≤ start + i ∧ start + i < start + new.length ∧ _) by omega),
      if_neg (show ¬ (0 ≤ i ∧ i < 0 + new.length ∧ _) by omega), window, List.getElem?_take,
      List.getElem?_drop]

end Bytes

end FlatVolume
