import FlatVolume.Proofs.Carving
import FlatVolume.Proofs.CountingFiles

/-!
# Reads from a held range

A request and a held range may lie in any way to each other, and what they share is one stretch of
the request. It has a place among the flat offsets, among the positions of the buffer and among
the bytes that are held. So a read leaves a gap before it and one behind it at most, and a volume
over files without faults shows the held bytes in place of those of the files.
-/

namespace FlatVolume

/-- A read that is served from one stretch of its offsets: at most two gaps are left, from the front
to the end, and all of the buffer is one where nothing of it is held. -/
structure ServesStretch (held : Nat → Option UInt8) (buffer : Bytes) (offset : Nat) (bytes : Bytes)
    (gaps : List Gap) : Prop extends Serves held buffer offset bytes gaps where
  few : gaps.length ≤ 2
  whole : (∀ i < buffer.length, held (offset + i) = none) → gaps = [⟨0, buffer.length, offset⟩]
  increasing : gaps.Pairwise fun gap later => gap.position < later.position
  apart : gaps.Pairwise Gap.Apart

theorem ServesStretch.of_none_held {held : Nat → Option UInt8} {buffer : Bytes} {offset : Nat}
    (none_held : ∀ i < buffer.length, held (offset + i) = none) :
    ServesStretch held buffer offset [] [⟨0, buffer.length, offset⟩] where
  filled i hi := by
    rw [Bytes.overlay_nil, none_held i hi, Option.getD_none]
  aligned gap hgap := by
    obtain rfl := List.mem_singleton.mp hgap
    exact ⟨rfl, Nat.le_of_eq (Nat.zero_add _)⟩
  covers i hi := by
    simp [none_held i hi, Gap.Has, hi]
  few := Nat.le_succ 1
  whole _ := rfl
  increasing := List.pairwise_singleton _ _
  apart := List.pairwise_singleton _ _

namespace Span

/-- What is before a span and what is behind it, as far as there is anything. -/
def around (length : Nat) (span : Span) : List Span :=
  [⟨0, span.start⟩, ⟨span.stop, length⟩].filter fun s => s.start < s.stop

variable {length offset : Nat} {span s : Span}

theorem mem_around_iff : s ∈ around length span ↔
    (s = ⟨0, span.start⟩ ∨ s = ⟨span.stop, length⟩) ∧ s.start < s.stop := by
  simp [around, List.mem_filter]

theorem length_around_le (length : Nat) (span : Span) : (around length span).length ≤ 2 :=
  List.length_filter_le _ _

theorem allFit_around (ordered : span.start ≤ span.stop) (inside : span.stop ≤ length)
    (word : offset + length < wordBound) : AllFit length offset 0 (around length span) := by
  have hfront : Fits length offset 0 ⟨0, span.start⟩ :=
    ⟨Nat.le_refl 0, Nat.zero_le _, Nat.le_trans ordered inside, by dsimp only; omega⟩
  have hback : ∀ reached ≤ span.stop, Fits length offset reached ⟨span.stop, length⟩ :=
    fun _ hreached => ⟨hreached, inside, Nat.le_refl length, by dsimp only; omega⟩
  rw [around, List.filter_cons, List.filter_cons, List.filter_nil]
  split <;> split
  · exact allFit_cons.mpr ⟨hfront, allFit_cons.mpr ⟨hback _ ordered, allFit_nil⟩⟩
  · exact allFit_cons.mpr ⟨hfront, allFit_nil⟩
  · exact allFit_cons.mpr ⟨hback 0 (Nat.zero_le _), allFit_nil⟩
  · exact allFit_nil

theorem AllFit.increasing {spans : List Span} {reached : Nat}
    (h : AllFit length offset reached spans) (solid : ∀ s ∈ spans, s.start < s.stop) :
    spans.Pairwise fun s later => s.start < later.start := by
  apply h.pairwise.imp_of_mem
  intro s later hs _ hle
  exact Nat.lt_of_lt_of_le (solid s hs) hle

theorem has_around_iff {i : Nat} (hi : i < length) :
    (∃ gap ∈ (around length span).map (Gap.ofSpan offset), gap.Has i) ↔
      i < span.start ∨ span.stop ≤ i := by
  constructor
  · rintro ⟨gap, hgap, hle, hlt⟩
    obtain ⟨s, hs, rfl⟩ := List.mem_map.mp hgap
    obtain ⟨rfl | rfl, -⟩ := mem_around_iff.mp hs
    · simp only [Gap.ofSpan] at hlt
      exact .inl (by omega)
    · exact .inr hle
  · rintro (hfront | hback)
    · have hmem : ⟨0, span.start⟩ ∈ around length span :=
        mem_around_iff.mpr ⟨.inl rfl, Nat.zero_lt_of_lt hfront⟩
      refine ⟨_, List.mem_map_of_mem hmem, Nat.zero_le i, ?_⟩
      simp only [Gap.ofSpan]
      omega
    · have hmem : ⟨span.stop, length⟩ ∈ around length span :=
        mem_around_iff.mpr ⟨.inr rfl, Nat.lt_of_le_of_lt hback hi⟩
      refine ⟨_, List.mem_map_of_mem hmem, hback, ?_⟩
      simp only [Gap.ofSpan]
      omega

end Span

namespace Bench

namespace RangeCache

/-- Where `n` comes to lie between `low` and `high`. -/
def clamped (n low high : Nat) : Nat :=
  max low (min n high)

variable {low high q : Nat}

theorem clamp_of_le (n : Nat) (h : low ≤ high) : clamp n low high = .ok (clamped n low high) :=
  if_pos h

theorem le_clamped (n low high : Nat) : low ≤ clamped n low high :=
  Nat.le_max_left _ _

theorem clamped_le (n : Nat) (h : low ≤ high) : clamped n low high ≤ high := by
  unfold clamped
  omega

theorem clamped_le_iff (n : Nat) (hle : low ≤ q) (hlt : q < high) :
    clamped n low high ≤ q ↔ n ≤ q := by
  unfold clamped
  omega

end RangeCache

namespace HeldRange

open RangeCache (clamped le_clamped clamped_le clamped_le_iff)

/-- The held byte at a flat offset. -/
def byte? (range : HeldRange) (q : Nat) : Option UInt8 :=
  if range.start ≤ q then range.bytes[q - range.start]? else none

/-- The positions of a request whose offsets are in the range. It is empty where there are none. -/
def shared (range : HeldRange) (length offset : Nat) : Span :=
  ⟨clamped range.start offset (offset + length) - offset,
    clamped (range.start + range.bytes.length) offset (offset + length) - offset⟩

/-- The held bytes for the positions of a span. -/
def part (range : HeldRange) (offset : Nat) (span : Span) : Bytes :=
  range.bytes.window (offset + span.start - range.start) (span.stop - span.start)

variable {range : HeldRange} {length offset i q : Nat}

theorem byte?_eq_none_iff :
    range.byte? q = none ↔ ¬ (range.start ≤ q ∧ q < range.start + range.bytes.length) := by
  by_cases hq : range.start ≤ q
  · rw [byte?, if_pos hq, List.getElem?_eq_none_iff]
    omega
  · simp [byte?, hq]

theorem shared_stop_le {span : Span} (hspan : range.shared length offset = span) :
    span.stop ≤ length := by
  subst hspan
  have hle := clamped_le (range.start + range.bytes.length) (Nat.le_add_right offset length)
  simp only [shared]
  omega

theorem shared_iff (range : HeldRange) (offset : Nat) (hi : i < length) :
    ((range.shared length offset).start ≤ i ∧ i < (range.shared length offset).stop) ↔
      range.start ≤ offset + i ∧ offset + i < range.start + range.bytes.length := by
  have hle : offset ≤ offset + i := Nat.le_add_right offset i
  have hlt : offset + i < offset + length := Nat.add_lt_add_left hi offset
  have hstart := clamped_le_iff range.start hle hlt
  have hstop := clamped_le_iff (range.start + range.bytes.length) hle hlt
  simp only [shared]
  omega

theorem byte?_eq_none_iff_shared (hi : i < length) :
    range.byte? (offset + i) = none ↔
      i < (range.shared length offset).start ∨ (range.shared length offset).stop ≤ i := by
  rw [byte?_eq_none_iff, ← range.shared_iff offset hi]
  omega

/-- Where something is shared, all of it lies inside the held range. -/
theorem shared_within {span : Span} (hspan : range.shared length offset = span)
    (h : span.start < span.stop) :
    range.start ≤ offset + span.start ∧
      offset + span.stop ≤ range.start + range.bytes.length := by
  have hinside := shared_stop_le hspan
  subst hspan
  have hfirst := (range.shared_iff offset (Nat.lt_of_lt_of_le h hinside)).mp ⟨Nat.le_refl _, h⟩
  have hlt : (range.shared length offset).stop - 1 < length := by omega
  have hlast := (range.shared_iff offset hlt).mp ⟨by omega, by omega⟩
  omega

theorem length_part {span : Span} (hspan : range.shared length offset = span)
    (h : span.start < span.stop) : (range.part offset span).length = span.stop - span.start := by
  obtain ⟨hfirst, hlast⟩ := shared_within hspan h
  rw [part, Bytes.length_window]
  omega

theorem getD_overlay_part {buffer : Bytes} {span : Span}
    (hspan : range.shared buffer.length offset = span) (h : span.start < span.stop)
    (hi : i < buffer.length) :
    (buffer.overlay span.start (range.part offset span)).getD i 0 =
      (range.byte? (offset + i)).getD (buffer.getD i 0) := by
  obtain ⟨hfirst, hlast⟩ := shared_within hspan h
  have hpart := length_part hspan h
  have hiff := range.shared_iff offset hi
  rw [hspan] at hiff
  rw [Bytes.getD_overlay, hpart]
  by_cases hin : span.start ≤ i ∧ i < span.stop
  · -- Position `i` of the buffer has the held byte number `offset + i - range.start`.
    have hbyte : range.byte? (offset + i) = range.bytes[offset + i - range.start]? :=
      if_pos (hiff.mp hin).1
    rw [if_pos (by omega), hbyte, part, Bytes.window, List.getD_eq_getElem?_getD,
      List.getElem?_take, if_pos (by omega), List.getElem?_drop,
      List.getElem?_eq_getElem (by omega), List.getElem?_eq_getElem (by omega)]
    simp only [Option.getD_some]
    congr 1
    omega
  · rw [if_neg (by omega), byte?_eq_none_iff.mpr (mt hiff.mpr hin), Option.getD_none]

/-- What is shared can be filled in: every number on the way is a word, and both ranges have it. -/
theorem fill_shared {buffer : Bytes} (word : offset + buffer.length < wordBound) {span : Span}
    (hspan : range.shared buffer.length offset = span) (hshared : span.start < span.stop) :
    range.fill buffer offset (offset + span.start) (offset + span.stop) =
      .ok (buffer.overlay span.start (range.part offset span), span.around buffer.length) := by
  have hinside := shared_stop_le hspan
  obtain ⟨hfirst, hlast⟩ := shared_within hspan hshared
  have hstop := Checked.add_of_lt (show
    offset + span.start - range.start + (span.stop - span.start) < wordBound by omega)
  have hslice := Checked.slice_of_le
    (Nat.le_add_right (offset + span.start - range.start) (span.stop - span.start))
    (show _ ≤ range.bytes.length by omega)
  rw [Nat.add_sub_cancel_left] at hslice
  have hcopy := Checked.copy_of_length (Nat.le_of_lt hshared) hinside (length_part hspan hshared)
  simp only [fill, Checked.sub_of_le (Nat.le_add_right offset _), Nat.add_sub_cancel_left,
    Checked.sub_of_le hfirst, Checked.sub_of_le (Nat.le_of_lt hshared), hstop, hslice, bind,
    Except.bind]
  rw [← part, hcopy]
  rfl

theorem serves_shared {buffer : Bytes} (word : offset + buffer.length < wordBound) {span : Span}
    (hspan : range.shared buffer.length offset = span) (hshared : span.start < span.stop) :
    ServesStretch range.byte? buffer offset
      (buffer.overlay span.start (range.part offset span))
      ((span.around buffer.length).map (Gap.ofSpan offset)) := by
  have hinside := shared_stop_le hspan
  have hfit := Span.allFit_around (Nat.le_of_lt hshared) hinside word
  have hnone : ∀ i < buffer.length,
      (range.byte? (offset + i) = none ↔ i < span.start ∨ span.stop ≤ i) := by
    intro i hi
    rw [byte?_eq_none_iff_shared hi, hspan]
  have hlength := Bytes.length_overlay buffer span.start (range.part offset span)
  refine { filled := ?filled, aligned := ?aligned, covers := ?covers, few := ?few, whole := ?whole,
           increasing := ?increasing, apart := Gap.pairwise_apart_ofSpan hfit }
  case filled =>
    intro i hi
    rw [Bytes.overlay_zero (Nat.le_of_eq hlength), hlength, List.drop_length, List.append_nil]
    exact getD_overlay_part hspan hshared hi
  case aligned =>
    intro gap hgap
    obtain ⟨s, hs, rfl⟩ := List.mem_map.mp hgap
    obtain ⟨-, hordered, hstop⟩ := hfit.reached_le s hs
    refine ⟨rfl, ?_⟩
    simp only [Gap.ofSpan]
    omega
  case covers =>
    intro i hi
    rw [hnone i hi]
    exact Span.has_around_iff hi
  case few =>
    rw [List.length_map]
    exact Span.length_around_le _ _
  case whole =>
    -- The first position that is shared has a held byte.
    intro hall
    have hlt := Nat.lt_of_lt_of_le hshared hinside
    have hfirst := (hnone span.start hlt).mp (hall span.start hlt)
    omega
  case increasing =>
    rw [List.pairwise_map]
    exact hfit.increasing fun s hs => (Span.mem_around_iff.mp hs).2

end HeldRange

namespace RangeCache

/-- The byte that a cache holds for a flat offset. -/
def byte? (c : RangeCache) (q : Nat) : Option UInt8 :=
  c.held.bind fun range => range.byte? q

variable {c : RangeCache} {range : HeldRange} {buffer : Bytes} {offset : Nat}

theorem holding_of_lt {start : Nat} {bytes : Bytes} (h : start + bytes.length < wordBound) :
    holding start bytes = .ok { empty with held := some ⟨start, bytes⟩ } := by
  rw [holding, Word.add?_eq_some_iff.mpr ⟨h, rfl⟩]

theorem byte?_of_none (h : c.held = none) (q : Nat) : c.byte? q = none := by
  rw [byte?, h, Option.bind_none]

theorem byte?_of_held (h : c.held = some range) (q : Nat) : c.byte? q = range.byte? q := by
  rw [byte?, h, Option.bind_some]

theorem read_of_none (h : c.held = none) (buffer : Bytes) (offset : Nat) :
    c.read buffer offset = ⟨[], .ok [⟨0, buffer.length, offset⟩]⟩ := by
  rw [read, serve, h]

theorem serve_of_held (h : c.held = some range) (word : offset + buffer.length < wordBound) :
    c.serve buffer offset =
      if (range.shared buffer.length offset).stop ≤ (range.shared buffer.length offset).start then
        .ok none
      else
        (range.fill buffer offset (offset + (range.shared buffer.length offset).start)
          (offset + (range.shared buffer.length offset).stop)).map some := by
  have hle := Nat.le_add_right offset buffer.length
  have hlow := le_clamped range.start offset (offset + buffer.length)
  have hhigh := le_clamped (range.start + range.bytes.length) offset (offset + buffer.length)
  rw [serve, h]
  simp only [Checked.add_of_lt word, clamp_of_le _ hle, bind, Except.bind, HeldRange.shared,
    Nat.add_sub_of_le hlow, Nat.add_sub_of_le hhigh]
  refine ite_congr (propext (by omega)) (fun _ => rfl) fun _ => ?_
  cases range.fill buffer offset _ _ <;> rfl

theorem read_of_apart (h : c.held = some range) (word : offset + buffer.length < wordBound)
    (apart : (range.shared buffer.length offset).stop ≤ (range.shared buffer.length offset).start) :
    c.read buffer offset = ⟨[], .ok [⟨0, buffer.length, offset⟩]⟩ := by
  rw [read, serve_of_held h word, if_pos apart]

/-- Where something is shared, it is filled in, and what is around it is carved out. -/
theorem read_of_shared (h : c.held = some range) (word : offset + buffer.length < wordBound)
    {span : Span} (hspan : range.shared buffer.length offset = span)
    (hshared : span.start < span.stop) :
    c.read buffer offset = ⟨buffer.overlay span.start (range.part offset span),
      .ok ((span.around buffer.length).map (Gap.ofSpan offset))⟩ := by
  have hinside := HeldRange.shared_stop_le hspan
  have hcarve := Gap.carve_of_allFit (Span.allFit_around (Nat.le_of_lt hshared) hinside word)
  rw [read, serve_of_held h word, hspan, if_neg (Nat.not_le.mpr hshared),
    HeldRange.fill_shared word hspan hshared]
  dsimp only [Except.map]
  rw [hcarve]

/-- Whatever is held and whatever is asked for, a read serves one stretch of it. -/
theorem serves_read (c : RangeCache) (word : offset + buffer.length < wordBound) :
    ∃ gaps, (c.read buffer offset).gaps = .ok gaps ∧
      ServesStretch c.byte? buffer offset (c.read buffer offset).bytes gaps := by
  cases hheld : c.held with
  | none =>
    rw [read_of_none hheld]
    exact ⟨_, rfl, ServesStretch.of_none_held fun i _ => byte?_of_none hheld (offset + i)⟩
  | some range =>
    have hbyte : c.byte? = range.byte? := funext (byte?_of_held hheld)
    rw [hbyte]
    rcases Nat.lt_or_ge (range.shared buffer.length offset).start
      (range.shared buffer.length offset).stop with hshared | hapart
    · rw [read_of_shared hheld word rfl hshared]
      exact ⟨_, rfl, HeldRange.serves_shared word rfl hshared⟩
    · rw [read_of_apart hheld word hapart]
      refine ⟨_, rfl, ServesStretch.of_none_held fun i hi => ?_⟩
      exact (HeldRange.byte?_eq_none_iff_shared hi).mpr (by omega)

example : ({ empty with held := some ⟨3, [88, 89, 90]⟩ }.read [0, 0, 0, 0, 0, 0, 0, 0] 1).gaps =
    .ok [⟨0, 2, 1⟩, ⟨5, 3, 6⟩] := rfl

theorem readCache_range {b : Bench} {id : Nat} (h : b.caches.get? id = some (.range c))
    (system : System) (buffer : Bytes) (offset : Nat) :
    (host system).readCache id buffer offset b = (c.read buffer offset, b) := by
  change b.readCache id buffer offset = _
  rw [Bench.readCache, h]

/-- A cache holds the range that it is made with. A read of it fills in the bytes that are held, no
others, and leaves all others as gaps, and a volume over files without faults reads through it as it
reads its files, with the held bytes in place of theirs. -/
theorem serves_just_its_range :
    (∀ start bytes, start + bytes.length < wordBound → ∃ c, holding start bytes = .ok c ∧
      ∀ q, c.byte? q = if start ≤ q then bytes[q - start]? else none) ∧
    (∀ c : RangeCache, c.held = none → ∀ q, c.byte? q = none) ∧
    ∀ (c : RangeCache) (buffer : Bytes) (offset : Nat), offset + buffer.length < wordBound →
      (∃ gaps, (c.read buffer offset).gaps = .ok gaps ∧
        ServesStretch c.byte? buffer offset (c.read buffer offset).bytes gaps) ∧
      ∀ {Handle Cache File σ : Type} (b : Backing Handle File σ) (host : Host Handle Cache σ)
        (v : Volume Handle Cache) (cache : Cache) (sound : σ → Prop) (state : σ) (patience : Nat),
        v.cache = some cache →
        host.readCache cache buffer offset state = (c.read buffer offset, state) →
        b.Faultless host v sound → sound state →
        ∃ raw middle after,
          (v.readFiles patience buffer offset).run host state =
            (⟨raw, .ok buffer.length⟩, middle) ∧
          (v.read patience buffer offset).run host state =
            (⟨raw.withHeld c.byte? offset, .ok buffer.length⟩, after) ∧
          b.Same state after := by
  refine ⟨?_, fun c hheld q => byte?_of_none hheld q, ?_⟩
  · intro start bytes hlt
    exact ⟨_, holding_of_lt hlt, fun q => rfl⟩
  · intro c buffer offset word
    have hserves := c.serves_read word
    refine ⟨hserves, ?_⟩
    intro Handle Cache File σ b host v cache sound state patience attached hcache faultless hsound
    obtain ⟨gaps, hgaps, serves⟩ := hserves
    obtain ⟨middle, hraw, -⟩ := faultless.run_readFiles patience buffer offset hsound
    obtain ⟨after, hrun, -, hsame⟩ := faultless.run_read_served attached patience hcache hgaps
      serves.toServes hsound
    exact ⟨_, middle, after, hraw, hrun, hsame⟩

/-- Two files around an empty one behind a cache for four bytes, of which the last two are behind
the end of the volume. -/
theorem serves_just_its_range_counting :
    let extents : List (Extent Handle) :=
      [⟨0, 4, .tally 0 "a"⟩, ⟨4, 0, .tally 0 "e"⟩, ⟨4, 6, .tally 0 "b"⟩]
    let v : Volume Handle Nat := ⟨⟨extents, 10, ⟨rfl, rfl, rfl, rfl⟩, by decide⟩, some 0⟩
    let files : Memory :=
      ⟨[("a", .ofBytes [1, 2, 3, 4]), ("e", .empty), ("b", .ofBytes [5, 6, 7, 8, 9, 10])]⟩
    let buffer : Bytes := [77, 77, 77, 77, 77, 77, 77, 77, 77, 77, 77, 77]
    ∃ c, holding 8 [88, 89, 90, 91] = .ok c ∧
      let b : Bench := { Bench.empty with
        tallies := [(0, { Tally.plain with files })], caches := [(0, .range c)] }
      (∃ gaps, (c.read buffer 1).gaps = .ok gaps ∧
        ServesStretch c.byte? buffer 1 (c.read buffer 1).bytes gaps) ∧
      ((v.readFiles 0 buffer 1).run (host (.tally 0)) b).1 =
        ⟨[2, 3, 4, 5, 6, 7, 8, 9, 10, 0, 0, 0], .ok 12⟩ ∧
      ((v.read 0 buffer 1).run (host (.tally 0)) b).1 =
        ⟨[2, 3, 4, 5, 6, 7, 8, 88, 89, 90, 91, 0], .ok 12⟩ := by
  intro extents v files buffer
  obtain ⟨hholding, -, hreads⟩ := serves_just_its_range
  obtain ⟨c, hc, hbyte⟩ := hholding 8 [88, 89, 90, 91] (by decide)
  refine ⟨c, hc, ?_⟩
  intro b
  obtain ⟨hserves, hvolume⟩ := hreads c buffer 1 (by decide)
  have intact : Intact v b := by
    refine List.forall_mem_cons.mpr ⟨?_, List.forall_mem_cons.mpr ⟨?_, ?_⟩⟩
    · exact ⟨0, "a", rfl, nofun, Nat.le_of_eq rfl⟩
    · exact ⟨0, "e", rfl, nofun, Nat.le_of_eq rfl⟩
    · exact List.forall_mem_singleton.mpr ⟨0, "b", rfl, nofun, Nat.le_of_eq rfl⟩
  have hflat : counting.flat v b = [1, 2, 3, 4, 5, 6, 7, 8, 9, 10] := rfl
  obtain ⟨_, hfiles, -⟩ := (faultless v (.tally 0)).run_readFiles 0 buffer 1 intact
  rw [hflat] at hfiles
  obtain ⟨raw, middle, after, hraw, hrun, -⟩ := hvolume counting (host (.tally 0)) v 0 (Intact v)
    b 0 rfl (readCache_range rfl _ _ _) (faultless v (.tally 0)) intact
  obtain rfl : raw = FlatArray.read [1, 2, 3, 4, 5, 6, 7, 8, 9, 10] 12 1 := by
    rw [hraw] at hfiles
    exact congrArg (fun last => last.1.buffer) hfiles
  refine ⟨hserves, ?_, ?_⟩
  · rw [hraw]
    rfl
  · rw [hrun, funext hbyte]
    rfl

end RangeCache

end Bench

end FlatVolume
