import FlatVolume.Bytes

/-!
# Layers

Byte strings that are laid one after the other, each from a position of its own. A byte of the
outcome is that of the last layer which has one there, or else it is what it was.
-/

namespace FlatVolume.Bytes

/-- Bytes that are laid from a position on. -/
abbrev Layer := Nat × Bytes

def overlayAll (old : Bytes) (layers : List Layer) : Bytes :=
  layers.foldl (fun bytes layer => bytes.overlay layer.1 layer.2) old

def Layer.Covers (layer : Layer) (i : Nat) : Prop :=
  layer.1 ≤ i ∧ i < layer.1 + layer.2.length

theorem overlayAll_cons (old : Bytes) (layer : Layer) (rest : List Layer) :
    overlayAll old (layer :: rest) = overlayAll (old.overlay layer.1 layer.2) rest := rfl

theorem overlayAll_append (old : Bytes) (layers later : List Layer) :
    overlayAll old (layers ++ later) = overlayAll (overlayAll old layers) later :=
  List.foldl_append

@[simp] theorem length_overlayAll (old : Bytes) (layers : List Layer) :
    (overlayAll old layers).length = old.length := by
  induction layers generalizing old with
  | nil => rfl
  | cons layer rest ih => rw [overlayAll_cons, ih, length_overlay]

/-- Where no layer has a byte nothing changes. -/
theorem getElem?_overlayAll_of_none {old : Bytes} {layers : List Layer} {i : Nat}
    (h : ∀ layer ∈ layers, ¬ layer.Covers i) : (overlayAll old layers)[i]? = old[i]? := by
  induction layers generalizing old with
  | nil => rfl
  | cons layer rest ih =>
    have hfirst := h layer List.mem_cons_self
    rw [overlayAll_cons, ih fun l hl => h l (List.mem_cons_of_mem _ hl), getElem?_overlay, if_neg]
    rintro ⟨hle, hlt, -⟩
    exact hfirst ⟨hle, hlt⟩

/-- Where several layers have a byte the last one counts. -/
theorem getElem?_overlayAll_of_last {old : Bytes} {front later : List Layer} {layer : Layer}
    {i : Nat} (hi : i < old.length) (hcovers : layer.Covers i)
    (hlater : ∀ l ∈ later, ¬ l.Covers i) :
    (overlayAll old (front ++ layer :: later))[i]? = layer.2[i - layer.1]? := by
  obtain ⟨hle, hlt⟩ := hcovers
  rw [overlayAll_append, overlayAll_cons, getElem?_overlayAll_of_none hlater, getElem?_overlay,
    if_pos ⟨hle, hlt, by rwa [length_overlayAll]⟩]

/-- A layer is found as it was laid where no later one has a byte in it. -/
theorem window_overlayAll_of_last {old : Bytes} {front later : List Layer} (layer : Layer)
    (hfit : layer.1 + layer.2.length ≤ old.length)
    (hlater : ∀ l ∈ later, ∀ i, layer.Covers i → ¬ l.Covers i) :
    (overlayAll old (front ++ layer :: later)).window layer.1 layer.2.length = layer.2 := by
  apply List.ext_getElem?
  intro i
  rw [window, List.getElem?_take, List.getElem?_drop]
  split
  · rename_i hi
    have hcovers : layer.Covers (layer.1 + i) := ⟨Nat.le_add_right _ _, by omega⟩
    rw [getElem?_overlayAll_of_last (by omega) hcovers fun l hl => hlater l hl _ hcovers,
      Nat.add_sub_cancel_left]
  · rw [List.getElem?_eq_none (by omega)]

/-- A window that a layer has no byte in stays as it is. -/
theorem window_overlay_of_apart {old new : Bytes} {place start length : Nat}
    (h : ∀ i, start ≤ i → i < start + length → ¬ Layer.Covers (place, new) i) :
    window (overlay old place new) start length = window old start length := by
  apply List.ext_getElem?
  intro i
  rw [window, window, List.getElem?_take, List.getElem?_take]
  split
  · rename_i hi
    rw [List.getElem?_drop, List.getElem?_drop, getElem?_overlay, if_neg]
    rintro ⟨hle, hlt, -⟩
    exact h (start + i) (by omega) (by omega) ⟨hle, hlt⟩
  · rfl

end FlatVolume.Bytes
