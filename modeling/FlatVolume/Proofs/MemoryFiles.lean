import FlatVolume.Memory.Host
import FlatVolume.Proofs.Faultless

/-!
# Volumes on files in memory

Files in memory never fail inside their declared lengths, and calls never change how long
they are. Opening the declared files once more finds them as they were left.
-/

namespace FlatVolume.Memory

def backing : Backing String String Memory :=
  ⟨id, fun m key i => (m.bytes key).getD i 0⟩

def SameShape (m m' : Memory) : Prop :=
  ∀ key, (m'.contents? key).map List.length = (m.contents? key).map List.length

/-- Every file of a volume is as long as it is declared to be. -/
def Covers (m : Memory) (v : Volume String Empty) : Prop :=
  ∀ e ∈ v.layout.extents, e.length ≤ (m.bytes e.handle).length

variable {m m' m'' : Memory}

namespace SameShape

theorem refl (m : Memory) : m.SameShape m := fun _ => rfl

theorem trans (h : m.SameShape m') (h' : m'.SameShape m'') : m.SameShape m'' :=
  fun key => (h' key).trans (h key)

theorem length_bytes (h : m.SameShape m') (key : String) :
    (m'.bytes key).length = (m.bytes key).length := by
  have hkey := h key
  rw [bytes_eq, bytes_eq]
  cases hm : m.contents? key <;> cases hm' : m'.contents? key <;> simp_all

end SameShape

theorem contents?_eq_some {key : String} (h : 0 < (m.bytes key).length) :
    m.contents? key = some (m.bytes key) := by
  rw [bytes_eq] at h ⊢
  cases hm : m.contents? key with
  | none => simp [hm] at h
  | some bytes => rfl

theorem getElem?_of_contents? {key : String} {bytes : Bytes} (h : m.contents? key = some bytes)
    {i : Nat} (hi : i < bytes.length) : bytes[i]? = some (backing.byte m key i) := by
  simp only [backing, bytes_eq]
  rw [h, Option.getD_some, List.getD_eq_getElem?_getD, List.getElem?_eq_getElem hi,
    Option.getD_some]

theorem contents?_congr {key : String}
    (hshape : (m'.contents? key).map List.length = (m.contents? key).map List.length)
    (hbyte : ∀ i, backing.byte m' key i = backing.byte m key i) :
    m'.contents? key = m.contents? key := by
  simp only [backing, bytes_eq] at hbyte
  cases hm : m.contents? key with
  | none =>
    rw [hm] at hshape
    simpa using hshape
  | some bytes =>
    cases hm' : m'.contents? key with
    | none => simp [hm, hm'] at hshape
    | some bytes' =>
      simp only [hm, hm', Option.map_some, Option.some.injEq, Option.getD_some] at hshape hbyte
      rw [Option.some.injEq]
      apply List.ext_getElem hshape
      intro i hi' hi
      have hi'' := hbyte i
      rwa [List.getD_eq_getElem?_getD, List.getD_eq_getElem?_getD, List.getElem?_eq_getElem hi,
        List.getElem?_eq_getElem hi'] at hi''

theorem write_inside (m : Memory) (key : String) (data : Bytes) {place : Nat}
    (hfit : place + data.length ≤ (m.bytes key).length) (hword : place + data.length < wordBound) :
    ∃ m', m.write key data place = (.ok data.length, m') ∧ ∀ key', m'.contents? key' =
      if key = key' then some ((m.bytes key).overlay place data) else m.contents? key' := by
  have hsize : (m.file key).size = (m.bytes key).length := ((m.file key).length_toBytes).symm
  refine ⟨m.put key ((m.file key).write place data), ?_, fun key' => ?_⟩
  · rw [write, Word.add?_eq_some_iff.mpr ⟨hword, rfl⟩]
    dsimp only
    rw [if_neg (by omega)]
  · rw [contents?_put, Contents.toBytes_write, Bytes.extend_of_le]
    · rfl
    · rw [Contents.length_toBytes, hsize]
      exact hfit

theorem sameShape_overlay {key : String} {data : Bytes} {place : Nat}
    (hpos : 0 < (m.bytes key).length)
    (h : ∀ key', m'.contents? key' =
      if key = key' then some ((m.bytes key).overlay place data) else m.contents? key') :
    m.SameShape m' := by
  intro key'
  rw [h key']
  split
  · rename_i hkey
    rw [← hkey, contents?_eq_some hpos, Option.map_some, Option.map_some, Bytes.length_overlay]
  · rfl

theorem solid {v : Volume String Empty} (covers : m.Covers v) :
    backing.Solid host v m.SameShape bytes where
  byte _ _ _ := rfl
  covers e he m' shape := by
    have hsize := covers e he
    rw [← shape.length_bytes] at hsize
    exact hsize
  write e data place m' backs shape := by
    have hsize := covers e backs.mem
    have hbounds := v.layout.tiles.bounds backs.mem
    have htotal := v.layout.total_lt
    have hfits := backs.fits
    have hpos := backs.pos
    rw [← shape.length_bytes] at hsize
    obtain ⟨m'', hwrite, hcontents⟩ := m'.write_inside e.handle data
      (show place + data.length ≤ _ by omega) (by omega)
    have hreply : host.write e.handle data place m' = (.ok data.length, m'') := by
      change ((m'.write e.handle data place).1.mapError Failure.fault,
        (m'.write e.handle data place).2) = _
      rw [hwrite]
      rfl
    refine ⟨m'', hreply, ?_, ?_, shape.trans (sameShape_overlay (by omega) hcontents)⟩
    · rw [bytes_eq, hcontents]
      exact congrArg (Option.getD · []) (if_pos rfl)
    · intro other hne
      have hkey : e.handle ≠ other := Ne.symm hne
      rw [bytes_eq, hcontents, if_neg hkey, ← bytes_eq]
  read e window place m' backs shape := by
    change (FileReading.found (m'.read e.handle window.length place), m') = _
    rw [read_eq]
    rfl

theorem faultless {v : Volume String Empty} (covers : m.Covers v) :
    backing.Faultless host v m.SameShape :=
  (solid covers).faultless

end FlatVolume.Memory
