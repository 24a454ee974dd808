import FlatVolume.Proofs.Tiling
import FlatVolume.Bytes
import FlatVolume.Volume

/-!
# The bytes behind a volume

What the files of a volume hold, end to end, as one string of bytes. A file may hold more
than its declared length; what is there belongs to no offset of the volume. Laying bytes
in one file lays them over the string, and changes nothing else, as long as no two
handles are for the same file.
-/

namespace FlatVolume

/-- Which file a handle is for, and the bytes of every file in a state. -/
structure Backing (Handle File σ : Type) where
  file : Handle → File
  byte : σ → File → Nat → UInt8

namespace Backing

variable {Handle Cache File σ : Type}

def stretch (b : Backing Handle File σ) (state : σ) (file : File) (place length : Nat) : Bytes :=
  (List.range length).map fun i => b.byte state file (place + i)

def flatten (b : Backing Handle File σ) (state : σ) (extents : List (Extent Handle)) : Bytes :=
  extents.flatMap fun e => b.stretch state (b.file e.handle) 0 e.length

/-- The bytes of a volume. -/
def flat (b : Backing Handle File σ) (v : Volume Handle Cache) (state : σ) : Bytes :=
  b.flatten state v.layout.extents

/-- No two files of a volume are the same one. -/
def Distinct (b : Backing Handle File σ) (v : Volume Handle Cache) : Prop :=
  (v.layout.extents.map fun e => b.file e.handle).Nodup

/-- No two files of a volume that have a byte in it are the same one. -/
def Independent (b : Backing Handle File σ) (v : Volume Handle Cache) : Prop :=
  ∀ (i j : Nat) (e e' : Extent Handle), v.layout.extents[i]? = some e →
    v.layout.extents[j]? = some e' → 0 < e.length → 0 < e'.length →
      b.file e.handle = b.file e'.handle → i = j

/-- The place in a file is not one that the volume is made of. -/
def Outside (b : Backing Handle File σ) (v : Volume Handle Cache) (file : File) (i : Nat) : Prop :=
  ∀ e ∈ v.layout.extents, b.file e.handle = file → e.length ≤ i

def Same (b : Backing Handle File σ) (before after : σ) : Prop :=
  ∀ file i, b.byte after file i = b.byte before file i

/-- The later state has `data` in a file from `place` on, and is the same elsewhere. -/
structure Lays (b : Backing Handle File σ) (before after : σ) (file : File) (place : Nat)
    (data : Bytes) : Prop where
  laid : ∀ i, i < data.length → data[i]? = some (b.byte after file (place + i))
  kept : ∀ other i, (other = file → i < place ∨ place + data.length ≤ i) →
    b.byte after other i = b.byte before other i

/-- The later state has `data` laid over the bytes of the volume, and is the same elsewhere. -/
structure Overlaid (b : Backing Handle File σ) (v : Volume Handle Cache) (before after : σ)
    (offset : Nat) (data : Bytes) : Prop where
  flat_eq : b.flat v after = (b.flat v before).overlay offset data
  outside : ∀ file i, b.Outside v file i → b.byte after file i = b.byte before file i

variable {b : Backing Handle File σ} {v : Volume Handle Cache} {s s' s'' : σ}

@[simp] theorem length_stretch (state : σ) (file : File) (place length : Nat) :
    (b.stretch state file place length).length = length := by
  simp [stretch]

theorem getElem?_stretch (state : σ) (file : File) (place length i : Nat) :
    (b.stretch state file place length)[i]? =
      if i < length then some (b.byte state file (place + i)) else none := by
  by_cases h : i < length <;> simp [stretch, h]

theorem length_flatten {start stop : Nat} {extents : List (Extent Handle)}
    (h : Tiles start extents stop) (state : σ) :
    (b.flatten state extents).length = stop - start := by
  induction extents generalizing start with
  | nil =>
    have : start = stop := h
    simp [flatten, this]
  | cons e rest ih =>
    have hlength := ih h.2
    have hle := h.2.le
    rw [flatten] at hlength ⊢
    rw [List.flatMap_cons, List.length_append, hlength, length_stretch]
    omega

theorem getElem?_flatten {start stop : Nat} {extents : List (Extent Handle)}
    (h : Tiles start extents stop) (state : σ) {e : Extent Handle} (he : e ∈ extents) {q : Nat}
    (hle : e.start ≤ q) (hlt : q < e.start + e.length) :
    (b.flatten state extents)[q - start]? =
      some (b.byte state (b.file e.handle) (q - e.start)) := by
  induction extents generalizing start with
  | nil => simp at he
  | cons first rest ih =>
    obtain ⟨hstart, hrest⟩ := h
    rw [flatten, List.flatMap_cons, List.getElem?_append, length_stretch]
    rcases List.mem_cons.mp he with rfl | he
    · rw [if_pos (by omega), getElem?_stretch, if_pos (by omega), Nat.zero_add, hstart]
    · have hbounds := hrest.bounds he
      have hnext := ih hrest he
      rw [flatten] at hnext
      rw [if_neg (by omega), Nat.sub_sub]
      exact hnext

@[simp] theorem length_flat (v : Volume Handle Cache) (state : σ) :
    (b.flat v state).length = v.total := by
  rw [flat, length_flatten v.layout.tiles]
  rfl

theorem getElem?_flat (v : Volume Handle Cache) (state : σ) {e : Extent Handle}
    (he : e ∈ v.layout.extents) {q : Nat} (hle : e.start ≤ q) (hlt : q < e.start + e.length) :
    (b.flat v state)[q]? = some (b.byte state (b.file e.handle) (q - e.start)) :=
  getElem?_flatten v.layout.tiles state he hle hlt

theorem flat_congr (v : Volume Handle Cache) (h : b.Same s s') : b.flat v s' = b.flat v s := by
  have hbyte : b.byte s' = b.byte s := funext fun file => funext (h file)
  simp only [flat, flatten, stretch, hbyte]

theorem window_flat (v : Volume Handle Cache) (state : σ) {e : Extent Handle}
    (he : e ∈ v.layout.extents) {place length : Nat} (h : place + length ≤ e.length) :
    (b.flat v state).window (e.start + place) length =
      b.stretch state (b.file e.handle) place length := by
  apply List.ext_getElem?
  intro i
  rw [Bytes.window, List.getElem?_take, List.getElem?_drop, getElem?_stretch]
  split
  · rw [getElem?_flat v state he (by omega) (by omega)]
    congr 2
    omega
  · rfl

/-- Where every file of a volume has nothing but zeros, the volume has nothing else. -/
theorem flat_eq_zeros {state : σ}
    (h : ∀ e ∈ v.layout.extents, ∀ i, b.byte state (b.file e.handle) i = 0) :
    b.flat v state = Bytes.zeros v.total := by
  rw [Bytes.zeros, List.eq_replicate_iff]
  refine ⟨length_flat v state, fun c hc => ?_⟩
  rw [flat, flatten, List.mem_flatMap] at hc
  obtain ⟨e, he, hc⟩ := hc
  rw [stretch, List.mem_map] at hc
  obtain ⟨i, -, rfl⟩ := hc
  exact h e he _

namespace Same

theorem refl (state : σ) : b.Same state state := fun _ _ => rfl

theorem trans (h : b.Same s s') (h' : b.Same s' s'') : b.Same s s'' :=
  fun file i => (h' file i).trans (h file i)

theorem overlaid (h : b.Same s s') (offset : Nat) : b.Overlaid v s s' offset [] :=
  ⟨by rw [Bytes.overlay_nil, flat_congr v h], fun file i _ => h file i⟩

end Same

theorem Distinct.index_unique (distinct : b.Distinct v) {i j : Nat} {e e' : Extent Handle}
    (he : v.layout.extents[i]? = some e) (he' : v.layout.extents[j]? = some e')
    (hfile : b.file e.handle = b.file e'.handle) : i = j := by
  refine (List.getElem?_inj ?_ distinct).mp ?_
  · rw [List.length_map]
    exact (List.getElem?_eq_some_iff.mp he).1
  · rw [List.getElem?_map, List.getElem?_map, he, he', Option.map_some, Option.map_some, hfile]

theorem Distinct.independent (distinct : b.Distinct v) : b.Independent v :=
  fun _ _ _ _ he he' _ _ hfile => distinct.index_unique he he' hfile

/-- Laying bytes inside one extent lays them over the volume. -/
theorem Lays.overlaid (independent : b.Independent v) {e : Extent Handle} (he : e ∈ v.layout.extents)
    {place : Nat} {data : Bytes} (h : b.Lays s s' (b.file e.handle) place data)
    (hfit : place + data.length ≤ e.length) : b.Overlaid v s s' (e.start + place) data := by
  obtain ⟨k, hk⟩ := List.mem_iff_getElem?.mp he
  constructor
  · apply List.ext_getElem?
    intro q
    rw [Bytes.getElem?_overlay, length_flat]
    by_cases hq : q < v.total
    · obtain ⟨j, e', hj, hle, hlt⟩ := v.layout.tiles.covers ⟨Nat.zero_le q, hq⟩
      have he' := List.mem_of_getElem? hj
      rw [getElem?_flat v s' he' hle hlt, getElem?_flat v s he' hle hlt]
      by_cases hjk : j = k
      · obtain rfl : e' = e := Option.some.inj (hj.symm.trans (hjk ▸ hk))
        split
        · rename_i hin
          rw [h.laid (q - (e'.start + place)) (by omega)]
          congr 2
          omega
        · rw [h.kept _ _ fun _ => by omega]
      -- Another extent has a byte at `q`, so that it has the same file only if this one has none.
      · rw [h.kept, if_neg]
        · intro hin
          exact hjk (v.layout.tiles.index_unique (q := q) hj hk (by omega) (by omega))
        · intro hsame
          rcases Nat.eq_zero_or_pos e.length with hnone | hpos
          · omega
          · exact absurd (independent j k e' e hj hk (by omega) hpos hsame) hjk
    · rw [if_neg (by omega), List.getElem?_eq_none (by rw [length_flat]; omega),
        List.getElem?_eq_none (by rw [length_flat]; omega)]
  · intro file i hout
    refine h.kept file i fun hsame => ?_
    have := hout e he hsame.symm
    omega

namespace Overlaid

theorem trans {offset : Nat} {data new : Bytes} (h : b.Overlaid v s s' offset data)
    (h' : b.Overlaid v s' s'' (offset + data.length) new) :
    b.Overlaid v s s'' offset (data ++ new) := by
  constructor
  · rw [h'.flat_eq, h.flat_eq, Bytes.overlay_append]
  · intro file i hout
    rw [h'.outside file i hout, h.outside file i hout]

end Overlaid

end Backing

end FlatVolume
