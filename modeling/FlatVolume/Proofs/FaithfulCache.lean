import FlatVolume.Proofs.Faultless
import FlatVolume.Volume.Access

/-!
# Faithful caches

A cache that holds some bytes by their flat offsets and loses none: a read is served from
what it holds and the rest is left to the files, a write is held or handed back, and a byte
that the cache gives up is handed back with it. Nothing is said about what it holds, or
about how it cuts up what it hands back.
-/

namespace FlatVolume

variable {Handle Cache File σ : Type}

namespace Host

def readCache (host : Host Handle Cache σ) (cache : Cache) (buffer : Bytes) (offset : Nat)
    (state : σ) : CacheReading × σ :=
  host.answer (.readCache cache buffer offset) state

def writeCache (host : Host Handle Cache σ) (cache : Cache) (data : Bytes) (offset : Nat)
    (state : σ) : List WriteBack × σ :=
  host.answer (.writeCache cache data offset) state

def markCommitted (host : Host Handle Cache σ) (cache : Cache) (piece : Nat) (state : σ) : σ :=
  (host.answer (.markCommitted cache piece) state).2

end Host

def Gap.Has (gap : Gap) (i : Nat) : Prop :=
  gap.position ≤ i ∧ i < gap.position + gap.length

def WriteBack.Has (range : WriteBack) (q : Nat) (c : UInt8) : Prop :=
  range.offset ≤ q ∧ range.data[q - range.offset]? = some c

def InRange (offset length q : Nat) : Prop :=
  offset ≤ q ∧ q < offset + length

instance (offset length q : Nat) : Decidable (InRange offset length q) :=
  inferInstanceAs (Decidable (_ ∧ _))

/-- A buffer whose first byte is at `offset`, with the bytes that are held in place of its own. -/
def Bytes.withHeld (buffer : Bytes) (held : Nat → Option UInt8) (offset : Nat) : Bytes :=
  buffer.mapIdx fun i c => (held (offset + i)).getD c

theorem FlatArray.withHeld_read (a : Bytes) (held : Nat → Option UInt8) (length offset : Nat) :
    (read a length offset).withHeld held offset =
      (List.range length).map fun i => (held (offset + i)).getD (a.getD (offset + i) 0) := by
  apply List.ext_getElem?
  intro i
  rw [Bytes.withHeld, List.getElem?_mapIdx, getElem?_read, List.getElem?_map]
  by_cases hi : i < length <;> simp [hi]

/-- A read has filled in just the bytes that are held, and the gaps are at all the others, each
with the flat offset of its first byte. -/
structure Serves (held : Nat → Option UInt8) (buffer : Bytes) (offset : Nat) (bytes : Bytes)
    (gaps : List Gap) : Prop where
  filled : ∀ i < buffer.length,
    (buffer.overlay 0 bytes).getD i 0 = (held (offset + i)).getD (buffer.getD i 0)
  aligned : ∀ gap ∈ gaps,
    gap.offset = offset + gap.position ∧ gap.position + gap.length ≤ buffer.length
  covers : ∀ i < buffer.length, (∃ gap ∈ gaps, gap.Has i) ↔ held (offset + i) = none

/-- A write is held or handed back, every other byte that is no longer held is handed back as it
was, and no byte is handed back that is not one of these. -/
structure Takes (held held' : Nat → Option UInt8) (data : Bytes) (offset : Nat)
    (ranges : List WriteBack) : Prop where
  request : ∀ i c, data[i]? = some c → held' (offset + i) = some c ∨
    held' (offset + i) = none ∧ ∃ range ∈ ranges, range.Has (offset + i) c
  others : ∀ q, ¬ InRange offset data.length q → held' q = held q ∨
    held' q = none ∧ ∃ c, held q = some c ∧ ∃ range ∈ ranges, range.Has q c
  returned : ∀ range ∈ ranges, ∀ q c, range.Has q c →
    InRange offset data.length q ∧ data[q - offset]? = some c ∨
    ¬ InRange offset data.length q ∧ held q = some c

namespace Takes

variable {held held' : Nat → Option UInt8} {data : Bytes} {offset : Nat} {ranges : List WriteBack}

theorem of_held (h : Takes held held' data offset ranges) {q : Nat} {c : UInt8}
    (hq : held' q = some c) :
    InRange offset data.length q ∧ data[q - offset]? = some c ∨
      ¬ InRange offset data.length q ∧ held q = some c := by
  by_cases hin : InRange offset data.length q
  · obtain ⟨hle, hlt⟩ := id hin
    have hbyte := List.getElem?_eq_getElem (show q - offset < data.length by omega)
    rcases h.request (q - offset) _ hbyte with hkept | ⟨hgone, -⟩
    · rw [Nat.add_sub_cancel' hle, hq] at hkept
      exact .inl ⟨hin, hbyte.trans hkept.symm⟩
    · rw [Nat.add_sub_cancel' hle, hq] at hgone
      cases hgone
  · rcases h.others q hin with hkept | ⟨hgone, -⟩
    · exact .inr ⟨hin, hkept ▸ hq⟩
    · rw [hq] at hgone
      cases hgone

theorem of_not_held (h : Takes held held' data offset ranges) {q : Nat} (hq : held' q = none) :
    (∃ range ∈ ranges, ∃ c, range.Has q c) ∨ ¬ InRange offset data.length q ∧ held q = none := by
  by_cases hin : InRange offset data.length q
  · obtain ⟨hle, hlt⟩ := id hin
    have hbyte := List.getElem?_eq_getElem (show q - offset < data.length by omega)
    rcases h.request (q - offset) _ hbyte with hkept | ⟨-, range, hrange, hhas⟩
    · rw [Nat.add_sub_cancel' hle, hq] at hkept
      cases hkept
    · rw [Nat.add_sub_cancel' hle] at hhas
      exact .inl ⟨range, hrange, _, hhas⟩
  · rcases h.others q hin with hkept | ⟨-, c, -, range, hrange, hhas⟩
    · exact .inr ⟨hin, hkept ▸ hq⟩
    · exact .inl ⟨range, hrange, c, hhas⟩

end Takes

/-- In `sound` states a cache serves what it `held`, takes what is written, and touches no file. -/
structure Backing.Faithful (b : Backing Handle File σ) (host : Host Handle Cache σ) (cache : Cache)
    (held : σ → Nat → Option UInt8) (sound : σ → Prop) : Prop where
  read : ∀ buffer offset state, sound state → offset + buffer.length ≤ wordBound →
    let reply := host.readCache cache buffer offset state
    sound reply.2 ∧ b.Same state reply.2 ∧ held reply.2 = held state ∧
      ∃ gaps, reply.1.gaps = .ok gaps ∧ Serves (held state) buffer offset reply.1.bytes gaps
  write : ∀ data offset state, sound state → offset + data.length ≤ wordBound →
    let reply := host.writeCache cache data offset state
    sound reply.2 ∧ b.Same state reply.2 ∧
      Takes (held state) (held reply.2) data offset reply.1
  mark : ∀ piece state, sound state →
    sound (host.markCommitted cache piece state) ∧
      b.Same state (host.markCommitted cache piece state)

namespace Volume

variable {host : Host Handle Cache σ} {v : Volume Handle Cache} {cache : Cache}

theorem read_uncached (uncached : v.cache = none) (patience : Nat) (buffer : Bytes) (offset : Nat) :
    v.read patience buffer offset = v.readFiles patience buffer offset := by
  rw [read, uncached]

theorem write_uncached (uncached : v.cache = none) (patience : Nat) (data : Bytes) (offset : Nat) :
    v.write patience data offset = v.writeFiles patience data offset := by
  rw [write, uncached]

theorem run_read_cached (attached : v.cache = some cache) (patience : Nat) {buffer : Bytes}
    {offset : Nat} {state middle : σ} {reading : CacheReading} {gaps : List Gap}
    (hcache : host.readCache cache buffer offset state = (reading, middle))
    (hgaps : reading.gaps = .ok gaps) :
    (v.read patience buffer offset).run host state =
      (v.readGaps patience gaps (.ofBytes (buffer.overlay 0 reading.bytes)) none).run host middle := by
  have hask : (Program.request (.readCache cache buffer offset)).run host state =
      (reading, middle) := hcache
  rw [read, attached]
  dsimp only
  rw [Program.bind_eq, Program.run_bind, hask]
  dsimp only
  rw [hgaps]

theorem run_write_cached (attached : v.cache = some cache) {patience : Nat} {data : Bytes}
    {offset : Nat} {state middle after : σ} {ranges : List WriteBack}
    (hcache : host.writeCache cache data offset state = (ranges, middle))
    (hranges : (v.writeRanges patience ranges).run host middle = (.ok (), after)) :
    (v.write patience data offset).run host state = (.ok data.length, after) := by
  have hask : (Program.request (.writeCache cache data offset)).run host state =
      (ranges, middle) := hcache
  rw [write, attached]
  dsimp only
  rw [Program.bind_eq, Program.run_bind, hask]
  dsimp only
  rw [Program.bind_eq, Program.run_bind, hranges]
  rfl

theorem run_commit_cached (attached : v.cache = some cache) {patience : Nat} (piece : Nat)
    {data : Bytes} {offset count : Nat} {state written : σ}
    (hwrite : (v.writeFiles patience data offset).run host state = (.ok count, written)) :
    (v.commit patience piece data offset).run host state =
      (.ok (), host.markCommitted cache piece written) := by
  rw [commit, attached]
  dsimp only
  rw [Program.bind_eq, Program.run_bind, hwrite]
  rfl

end Volume

namespace Backing.Faultless

variable {b : Backing Handle File σ} {host : Host Handle Cache σ} {v : Volume Handle Cache}
    {sound : σ → Prop} {state : σ}

theorem run_readGaps (faultless : b.Faultless host v sound) (patience offset : Nat)
    {gaps : List Gap} {buffer : Contents}
    (aligned : ∀ gap ∈ gaps,
      gap.offset = offset + gap.position ∧ gap.position + gap.length ≤ buffer.size)
    (h : sound state) :
    ∃ bytes after, (v.readGaps patience gaps buffer none).run host state =
        (⟨bytes, .ok buffer.size⟩, after) ∧
      sound after ∧ b.Same state after ∧ bytes.length = buffer.size ∧
      ∀ i < buffer.size,
        ((∃ gap ∈ gaps, gap.Has i) → bytes.getD i 0 = (b.flat v state).getD (offset + i) 0) ∧
        ((¬ ∃ gap ∈ gaps, gap.Has i) → bytes.getD i 0 = buffer.toBytes.getD i 0) := by
  induction gaps generalizing buffer state with
  | nil =>
    refine ⟨_, _, rfl, h, .refl state, buffer.length_toBytes, fun i _ => ⟨?_, fun _ => rfl⟩⟩
    rintro ⟨gap, hmem, -⟩
    exact absurd hmem List.not_mem_nil
  | cons gap rest ih =>
    obtain ⟨hoffset, hfit⟩ := aligned gap List.mem_cons_self
    have hwindow : (buffer.read gap.position gap.length).length = gap.length := by
      rw [Contents.read_eq, Bytes.length_window, Contents.length_toBytes]
      omega
    obtain ⟨middle, hread, hsound, hsame⟩ :=
      faultless.run_readFiles patience (buffer.read gap.position gap.length) gap.offset h
    rw [hwindow] at hread
    generalize hfound : FlatArray.read (b.flat v state) gap.length gap.offset = found at hread
    have hoverlay : (buffer.overlay gap.position found).toBytes =
        buffer.toBytes.overlay gap.position found := Contents.toBytes_overlay _ _ _
    have hsize : (buffer.overlay gap.position found).size = buffer.size := by
      rw [← Contents.length_toBytes, hoverlay, Bytes.length_overlay, Contents.length_toBytes]
    have hrest : ∀ g ∈ rest, g.offset = offset + g.position ∧
        g.position + g.length ≤ (buffer.overlay gap.position found).size := by
      intro g hg
      rw [hsize]
      exact aligned g (List.mem_cons_of_mem _ hg)
    obtain ⟨bytes, after, hrun, hsound', hsame', hlength, hbytes⟩ := ih hrest hsound
    rw [hsize] at hrun hlength hbytes
    refine ⟨bytes, after, ?_, hsound', hsame.trans hsame', hlength, fun i hi => ?_⟩
    · rw [Volume.readGaps, Program.bind_eq, Program.run_bind, hread]
      exact hrun
    obtain ⟨hin, hout⟩ := hbytes i hi
    rw [flat_congr v hsame] at hin
    rw [hoverlay, Bytes.getD_overlay, Contents.length_toBytes, ← hfound,
      FlatArray.length_read] at hout
    constructor
    · rintro ⟨g, hg, hhas⟩
      by_cases hlater : ∃ g ∈ rest, g.Has i
      · exact hin hlater
      · rcases List.mem_cons.mp hg with rfl | hg
        · obtain ⟨hle, hlt⟩ := hhas
          rw [hout hlater, if_pos ⟨hle, hlt, hi⟩, FlatArray.getD_read _ _ (by omega)]
          congr 1
          omega
        · exact absurd ⟨g, hg, hhas⟩ hlater
    · intro hnone
      have hlater : ¬ ∃ g ∈ rest, g.Has i := by
        rintro ⟨g, hg, hhas⟩
        exact hnone ⟨g, List.mem_cons_of_mem _ hg, hhas⟩
      rw [hout hlater, if_neg]
      rintro ⟨hle, hlt, -⟩
      exact hnone ⟨gap, List.mem_cons_self, hle, hlt⟩

/-- A read through a cache finds the bytes that are held, and those of the files elsewhere. -/
theorem run_read_served (faultless : b.Faultless host v sound) {cache : Cache}
    (attached : v.cache = some cache) (patience : Nat) {held : Nat → Option UInt8} {buffer : Bytes}
    {offset : Nat} {middle : σ} {reading : CacheReading} {gaps : List Gap}
    (hcache : host.readCache cache buffer offset state = (reading, middle))
    (hgaps : reading.gaps = .ok gaps) (serves : Serves held buffer offset reading.bytes gaps)
    (h : sound middle) :
    let found := FlatArray.read (b.flat v middle) buffer.length offset
    ∃ after, (v.read patience buffer offset).run host state =
        (⟨found.withHeld held offset, .ok buffer.length⟩, after) ∧
      sound after ∧ b.Same middle after := by
  have hleft : (Contents.ofBytes (buffer.overlay 0 reading.bytes)).toBytes =
      buffer.overlay 0 reading.bytes := Contents.toBytes_ofBytes _
  have hsize : (Contents.ofBytes (buffer.overlay 0 reading.bytes)).size = buffer.length := by
    rw [← Contents.length_toBytes, hleft, Bytes.length_overlay]
  obtain ⟨bytes, after, hrun, hsound, hsame, hlength, hfound⟩ :=
    faultless.run_readGaps patience offset (by rw [hsize]; exact serves.aligned) h
  rw [hsize] at hrun hlength hfound
  rw [hleft] at hfound
  have hresult : bytes =
      (FlatArray.read (b.flat v middle) buffer.length offset).withHeld held offset := by
    rw [FlatArray.withHeld_read]
    apply List.ext_getElem (by simp [hlength])
    intro i hi hi'
    rw [hlength] at hi
    obtain ⟨hin, hout⟩ := hfound i hi
    have hcovers := serves.covers i hi
    have hbyte : bytes.getD i 0 =
        (held (offset + i)).getD ((b.flat v middle).getD (offset + i) 0) := by
      cases hq : held (offset + i) with
      | none => exact hin (hcovers.mpr hq)
      | some c =>
        rw [hout fun hgap => by simp [hcovers.mp hgap] at hq, serves.filled i hi, hq]
        rfl
    simpa [List.getD_eq_getElem?_getD, hlength, hi] using hbyte
  refine ⟨after, ?_, hsound, hsame⟩
  rw [Volume.run_read_cached attached patience hcache hgaps, hrun, hresult]

/-- Writing the ranges puts their bytes in the files. Where ranges share an offset, they have to
agree on its byte. -/
theorem run_writeRanges (faultless : b.Faultless host v sound) (distinct : b.Distinct v)
    (patience : Nat) (target : Nat → UInt8) (zero : ∀ q, v.total ≤ q → target q = 0)
    {ranges : List WriteBack}
    (agree : ∀ range ∈ ranges, ∀ q c, range.Has q c → c = target q) (h : sound state) :
    ∃ after, (v.writeRanges patience ranges).run host state = (.ok (), after) ∧ sound after ∧
      ∀ q < v.total,
        ((∃ range ∈ ranges, ∃ c, range.Has q c) → (b.flat v after).getD q 0 = target q) ∧
        ((¬ ∃ range ∈ ranges, ∃ c, range.Has q c) →
          (b.flat v after).getD q 0 = (b.flat v state).getD q 0) := by
  induction ranges generalizing state with
  | nil =>
    refine ⟨state, rfl, h, fun q _ => ⟨?_, fun _ => rfl⟩⟩
    rintro ⟨range, hmem, -⟩
    exact absurd hmem List.not_mem_nil
  | cons range rest ih =>
    have hagree := agree range List.mem_cons_self
    have htrailing : FlatArray.trailing? v.total range.data range.offset = none := by
      refine FlatArray.trailing?_eq_none_iff.mpr fun i hi hpast => ?_
      have hbyte := hagree (range.offset + i) range.data[i] ⟨Nat.le_add_right _ _, by
        rw [Nat.add_sub_cancel_left]
        exact List.getElem?_eq_getElem hi⟩
      rw [List.getD_eq_getElem?_getD, List.getElem?_eq_getElem hi, Option.getD_some, hbyte,
        zero _ hpast]
    obtain ⟨middle, hwrite, hsound, hlaid⟩ :=
      faultless.run_writeFiles distinct patience range.data range.offset h
    rw [FlatArray.answer, htrailing] at hwrite
    obtain ⟨after, hrun, hsound', hflat⟩ :=
      ih (fun r hr => agree r (List.mem_cons_of_mem _ hr)) hsound
    refine ⟨after, ?_, hsound', fun q hq => ?_⟩
    · rw [Volume.writeRanges, Program.bind_eq, Program.run_bind, hwrite]
      exact hrun
    obtain ⟨hin, hout⟩ := hflat q hq
    rw [hlaid.flat_eq, Bytes.getD_overlay, length_flat] at hout
    constructor
    · rintro ⟨r, hr, c, hhas⟩
      by_cases hlater : ∃ r ∈ rest, ∃ c, r.Has q c
      · exact hin hlater
      · rcases List.mem_cons.mp hr with rfl | hr
        · obtain ⟨hle, hbyte⟩ := hhas
          obtain ⟨hlt, -⟩ := List.getElem?_eq_some_iff.mp hbyte
          rw [hout hlater, if_pos ⟨hle, by omega, hq⟩, List.getD_eq_getElem?_getD, hbyte,
            Option.getD_some]
          exact hagree q c ⟨hle, hbyte⟩
        · exact absurd ⟨r, hr, c, hhas⟩ hlater
    · intro hnone
      have hlater : ¬ ∃ r ∈ rest, ∃ c, r.Has q c := by
        rintro ⟨r, hr, hhas⟩
        exact hnone ⟨r, List.mem_cons_of_mem _ hr, hhas⟩
      rw [hout hlater, if_neg]
      rintro ⟨hle, hlt, -⟩
      refine hnone ⟨range, List.mem_cons_self, range.data[q - range.offset], hle, ?_⟩
      exact List.getElem?_eq_getElem (by omega)

end Backing.Faultless

end FlatVolume
