import FlatVolume.Proofs.GapReads
import Mathlib.Data.List.Pairwise

/-!
# Cutting the gaps out of a buffer

A buffer is cut from the front, so that each cut is made in what the cuts before it have left and
is measured from where they have ended. The gaps come out at the positions that the spans name all
the same, and nothing of the buffer is lost between them. Spans that cannot be cut are refused for
the first of them that cannot.
-/

namespace FlatVolume

namespace Span

/-- Where the last of the spans has stopped, or `reached` if there is none. -/
def reach (reached : Nat) (spans : List Span) : Nat :=
  spans.getLast?.elim reached Span.stop

/-- The span can be cut out of a buffer of `length` bytes behind position `reached`, and the offset
of its first byte is a word. -/
structure Fits (length offset reached : Nat) (span : Span) : Prop where
  sorted : reached ≤ span.start
  ordered : span.start ≤ span.stop
  inside : span.stop ≤ length
  word : offset + span.start < wordBound

/-- Why a span does not fit: that it is out of order goes before that it is too long, and this
before that its offset is no word. -/
inductive Misfit (length offset reached : Nat) (span : Span) : Fault → Prop where
  | unsorted : ¬ (reached ≤ span.start ∧ span.start ≤ span.stop) →
      Misfit length offset reached span .unsortedGaps
  | outside : reached ≤ span.start → span.start ≤ span.stop → length < span.stop →
      Misfit length offset reached span .outOfRange
  | overflow : reached ≤ span.start → span.start ≤ span.stop → span.stop ≤ length →
      wordBound ≤ offset + span.start → Misfit length offset reached span .overflow

/-- Each of the spans fits behind the one before it, and the first one behind `reached`. -/
def AllFit (length offset reached : Nat) (spans : List Span) : Prop :=
  ∀ before span after, spans = before ++ span :: after →
    span.Fits length offset (reach reached before)

/-- The first of the spans that does not fit, and why it does not. -/
def FirstMisfit (length offset reached : Nat) (spans : List Span) (fault : Fault) : Prop :=
  ∃ before span after, spans = before ++ span :: after ∧ AllFit length offset reached before ∧
    span.Misfit length offset (reach reached before) fault

variable {length offset reached : Nat} {span : Span} {spans : List Span} {fault : Fault}

@[simp] theorem reach_cons (reached : Nat) (span : Span) (spans : List Span) :
    reach reached (span :: spans) = reach span.stop spans := by
  unfold reach
  rw [List.getLast?_cons]
  cases spans.getLast? <;> rfl

theorem fits_or_misfit (length offset reached : Nat) (span : Span) :
    span.Fits length offset reached ∨ ∃ fault, span.Misfit length offset reached fault := by
  by_cases hsorted : reached ≤ span.start ∧ span.start ≤ span.stop
  · obtain ⟨hreached, hordered⟩ := hsorted
    by_cases hinside : span.stop ≤ length
    · by_cases hword : offset + span.start < wordBound
      · exact .inl ⟨hreached, hordered, hinside, hword⟩
      · exact .inr ⟨_, .overflow hreached hordered hinside (Nat.le_of_not_lt hword)⟩
    · exact .inr ⟨_, .outside hreached hordered (Nat.lt_of_not_le hinside)⟩
  · exact .inr ⟨_, .unsorted hsorted⟩

@[simp] theorem allFit_nil : AllFit length offset reached [] := by
  intro before span after h
  simp at h

theorem allFit_cons :
    AllFit length offset reached (span :: spans) ↔
      span.Fits length offset reached ∧ AllFit length offset span.stop spans := by
  constructor
  · intro h
    constructor
    · exact h [] span spans rfl
    · intro before later after hspans
      have hfits := h (span :: before) later after (by rw [hspans]; rfl)
      rwa [reach_cons] at hfits
  · rintro ⟨hfits, hrest⟩ before later after hspans
    cases before with
    | nil =>
      obtain ⟨rfl, -⟩ := List.cons.inj hspans
      exact hfits
    | cons first before =>
      obtain ⟨rfl, hspans'⟩ := List.cons.inj hspans
      rw [reach_cons]
      exact hrest before later after hspans'

theorem firstMisfit_cons :
    FirstMisfit length offset reached (span :: spans) fault ↔
      span.Misfit length offset reached fault ∨
        span.Fits length offset reached ∧ FirstMisfit length offset span.stop spans fault := by
  constructor
  · rintro ⟨before, later, after, hspans, hbefore, hlater⟩
    cases before with
    | nil =>
      obtain ⟨rfl, -⟩ := List.cons.inj hspans
      exact .inl hlater
    | cons first before =>
      obtain ⟨rfl, hspans'⟩ := List.cons.inj hspans
      obtain ⟨hfits, hbefore⟩ := allFit_cons.mp hbefore
      rw [reach_cons] at hlater
      exact .inr ⟨hfits, before, later, after, hspans', hbefore, hlater⟩
  · rintro (hmisfit | ⟨hfits, before, later, after, rfl, hbefore, hlater⟩)
    · exact ⟨[], span, spans, rfl, allFit_nil, hmisfit⟩
    · refine ⟨span :: before, later, after, rfl, allFit_cons.mpr ⟨hfits, hbefore⟩, ?_⟩
      rw [reach_cons]
      exact hlater

theorem allFit_or_firstMisfit (length offset reached : Nat) (spans : List Span) :
    AllFit length offset reached spans ∨ ∃ fault, FirstMisfit length offset reached spans fault := by
  induction spans generalizing reached with
  | nil => exact .inl allFit_nil
  | cons span rest ih =>
    rcases span.fits_or_misfit length offset reached with hfits | ⟨fault, hmisfit⟩
    · rcases ih span.stop with hrest | ⟨fault, hrest⟩
      · exact .inl (allFit_cons.mpr ⟨hfits, hrest⟩)
      · exact .inr ⟨fault, firstMisfit_cons.mpr (.inr ⟨hfits, hrest⟩)⟩
    · exact .inr ⟨fault, firstMisfit_cons.mpr (.inl hmisfit)⟩

theorem AllFit.reached_le (h : AllFit length offset reached spans) :
    ∀ span ∈ spans, reached ≤ span.start ∧ span.start ≤ span.stop ∧ span.stop ≤ length := by
  induction spans generalizing reached with
  | nil => simp
  | cons first rest ih =>
    obtain ⟨hfirst, hrest⟩ := allFit_cons.mp h
    intro span hspan
    rcases List.mem_cons.mp hspan with rfl | hspan
    · exact ⟨hfirst.sorted, hfirst.ordered, hfirst.inside⟩
    · obtain ⟨hle, hbounds⟩ := ih hrest span hspan
      exact ⟨Nat.le_trans (Nat.le_trans hfirst.sorted hfirst.ordered) hle, hbounds⟩

theorem AllFit.pairwise (h : AllFit length offset reached spans) :
    spans.Pairwise fun span later => span.stop ≤ later.start := by
  induction spans generalizing reached with
  | nil => exact .nil
  | cons first rest ih =>
    obtain ⟨-, hrest⟩ := allFit_cons.mp h
    apply List.pairwise_cons.mpr
    constructor
    · intro later hlater
      exact (hrest.reached_le later hlater).1
    · exact ih hrest

end Span

/-- What is left of a buffer of `length` bytes behind position `reached`. -/
def Slice.behind (length reached : Nat) : Slice :=
  ⟨reached, length - reached⟩

namespace Gap

/-- The part of a buffer that a span names; `offset` belongs to the first byte of the buffer. -/
def ofSpan (offset : Nat) (span : Span) : Gap :=
  ⟨span.start, span.stop - span.start, offset + span.start⟩

/-- The bytes of a gap. -/
def bytes (gap : Gap) (buffer : Bytes) : Bytes :=
  buffer.window gap.position gap.length

/-- The gap as all of its own bytes. -/
def alone (gap : Gap) : Gap :=
  ⟨0, gap.length, gap.offset⟩

/-- The gaps are the parts of the buffer that the spans name, one for each, and no two of them
meet. Writes through them change no other byte, and in each only what is written through it: what
has filled it last is what stands there. -/
structure CutOut (buffer : Bytes) (offset : Nat) (spans : List Span) (gaps : List Gap) : Prop where
  length_eq : gaps.length = spans.length
  named : ∀ (i : Nat) (span : Span) (gap : Gap), spans[i]? = some span → gaps[i]? = some gap →
    gap.position = span.start ∧ gap.length = span.stop - span.start ∧
      gap.offset = offset + span.start ∧ (gap.bytes buffer).length = gap.length ∧
      ∀ j < span.stop - span.start, (gap.bytes buffer)[j]? = buffer[span.start + j]?
  apart : gaps.Pairwise Gap.Apart
  kept : ∀ writes : List (Gap × Bytes), (∀ w ∈ writes, w.1 ∈ gaps) →
    ∀ i, (∀ gap ∈ gaps, ¬ gap.Has i) → (fill buffer writes)[i]? = buffer[i]?
  own : ∀ writes : List (Gap × Bytes), (∀ w ∈ writes, w.1 ∈ gaps) → ∀ gap ∈ gaps,
    gap.bytes (fill buffer writes) = fill (gap.bytes buffer)
      ((writes.filter fun w => w.1 = gap).map fun w => (gap.alone, w.2))
  shown : ∀ (earlier later : List (Gap × Bytes)) (gap : Gap) (data : Bytes), gap ∈ gaps →
    data.length = gap.length → (∀ w ∈ later, w.1 ∈ gaps ∧ w.1 ≠ gap) →
    gap.bytes (fill buffer (earlier ++ (gap, data) :: later)) = data

section Cutting

variable {length offset reached : Nat} {span : Span} {spans : List Span} {fault : Fault}

theorem cut_of_fits (h : span.Fits length offset reached) :
    cut offset (.behind length reached) reached span =
      .ok (ofSpan offset span, .behind length span.stop) := by
  obtain ⟨hsorted, hordered, hinside, hword⟩ := h
  have hskip : span.start - reached ≤ (Slice.behind length reached).length := by
    simp only [Slice.behind]
    omega
  have hcut : span.stop - span.start ≤
      (Slice.behind length reached).length - (span.start - reached) := by
    simp only [Slice.behind]
    omega
  have hplace : Word.add? offset span.start = some (offset + span.start) :=
    Word.add?_eq_some_iff.mpr ⟨hword, rfl⟩
  rw [cut, if_pos ⟨hsorted, hordered⟩, Slice.splitAt_of_le hskip]
  simp only [bind, Except.bind]
  rw [Slice.splitAt_of_le hcut, hplace]
  simp only [ofSpan, Slice.behind]
  congr 3 <;> omega

theorem cut_of_misfit (hle : reached ≤ length) (h : span.Misfit length offset reached fault) :
    cut offset (.behind length reached) reached span = .error fault := by
  cases h with
  | unsorted hsorted => exact if_neg hsorted
  | outside hsorted hordered houtside =>
    rw [cut, if_pos ⟨hsorted, hordered⟩]
    -- The span may start behind the buffer, or only stop there.
    by_cases hskip : span.start - reached ≤ (Slice.behind length reached).length
    · have hcut : (Slice.behind length reached).length - (span.start - reached) <
          span.stop - span.start := by
        simp only [Slice.behind] at hskip ⊢
        omega
      rw [Slice.splitAt_of_le hskip]
      simp only [bind, Except.bind]
      rw [Slice.splitAt_of_lt hcut]
    · rw [Slice.splitAt_of_lt (Nat.lt_of_not_le hskip)]
      rfl
  | overflow hsorted hordered hinside hword =>
    have hskip : span.start - reached ≤ (Slice.behind length reached).length := by
      simp only [Slice.behind]
      omega
    have hcut : span.stop - span.start ≤
        (Slice.behind length reached).length - (span.start - reached) := by
      simp only [Slice.behind]
      omega
    rw [cut, if_pos ⟨hsorted, hordered⟩, Slice.splitAt_of_le hskip]
    simp only [bind, Except.bind]
    rw [Slice.splitAt_of_le hcut, Word.add?_eq_none_iff.mpr hword]

theorem cutAll_of_allFit (h : Span.AllFit length offset reached spans) :
    cutAll offset (.behind length reached) reached spans = .ok (spans.map (ofSpan offset)) := by
  induction spans generalizing reached with
  | nil => rfl
  | cons span rest ih =>
    obtain ⟨hfits, hrest⟩ := Span.allFit_cons.mp h
    rw [cutAll, cut_of_fits hfits]
    simp only [bind, Except.bind]
    rw [ih hrest]
    rfl

theorem cutAll_of_firstMisfit (hle : reached ≤ length)
    (h : Span.FirstMisfit length offset reached spans fault) :
    cutAll offset (.behind length reached) reached spans = .error fault := by
  induction spans generalizing reached with
  | nil =>
    obtain ⟨before, span, after, hspans, -⟩ := h
    simp at hspans
  | cons span rest ih =>
    rcases Span.firstMisfit_cons.mp h with hmisfit | ⟨hfits, hrest⟩
    · rw [cutAll, cut_of_misfit hle hmisfit]
      rfl
    · rw [cutAll, cut_of_fits hfits]
      simp only [bind, Except.bind]
      rw [ih hfits.inside hrest]

theorem carve_of_allFit (h : Span.AllFit length offset 0 spans) :
    carve length offset spans = .ok (spans.map (ofSpan offset)) :=
  cutAll_of_allFit h

theorem carve_of_firstMisfit (h : Span.FirstMisfit length offset 0 spans fault) :
    carve length offset spans = .error fault :=
  cutAll_of_firstMisfit (Nat.zero_le length) h

theorem carve_eq_ok_iff {gaps : List Gap} :
    carve length offset spans = .ok gaps ↔
      Span.AllFit length offset 0 spans ∧ gaps = spans.map (ofSpan offset) := by
  constructor
  · intro h
    rcases Span.allFit_or_firstMisfit length offset 0 spans with hfit | ⟨fault, hmisfit⟩
    · rw [carve_of_allFit hfit] at h
      exact ⟨hfit, (Except.ok.inj h).symm⟩
    · rw [carve_of_firstMisfit hmisfit] at h
      cases h
  · rintro ⟨hfit, rfl⟩
    exact carve_of_allFit hfit

example : carve 10 100 [⟨1, 3⟩, ⟨6, 10⟩] = .ok [⟨1, 2, 101⟩, ⟨6, 4, 106⟩] := rfl

theorem carve_eq_error_iff :
    carve length offset spans = .error fault ↔ Span.FirstMisfit length offset 0 spans fault := by
  constructor
  · intro h
    rcases Span.allFit_or_firstMisfit length offset 0 spans with hfit | ⟨fault', hmisfit⟩
    · rw [carve_of_allFit hfit] at h
      cases h
    · rw [carve_of_firstMisfit hmisfit] at h
      obtain rfl := Except.error.inj h
      exact hmisfit
  · exact carve_of_firstMisfit

end Cutting

section Writing

variable {buffer : Bytes} {gap : Gap} {writes : List (Gap × Bytes)}

theorem fill_eq_overlayAll (buffer : Bytes) (writes : List (Gap × Bytes)) :
    fill buffer writes =
      Bytes.overlayAll buffer (writes.map fun w => (w.1.position, w.2.take w.1.length)) := by
  induction writes generalizing buffer with
  | nil => rfl
  | cons w rest ih =>
    rw [fill, ih]
    rfl

theorem has_of_covers {data : Bytes} {i : Nat}
    (h : Bytes.Layer.Covers (gap.position, data.take gap.length) i) : gap.Has i := by
  obtain ⟨hle, hlt⟩ := h
  have hshort := List.length_take_le gap.length data
  dsimp only at hle hlt
  exact ⟨hle, by omega⟩

theorem getElem?_fill_of_not_has {i : Nat} (h : ∀ w ∈ writes, ¬ w.1.Has i) :
    (fill buffer writes)[i]? = buffer[i]? := by
  rw [fill_eq_overlayAll]
  apply Bytes.getElem?_overlayAll_of_none
  intro layer hlayer hcovers
  obtain ⟨w, hw, rfl⟩ := List.mem_map.mp hlayer
  exact h w hw (has_of_covers hcovers)

theorem bytes_overlay_of_apart {other : Gap} (data : Bytes) (h : gap.Apart other) :
    gap.bytes (buffer.overlay other.position (data.take other.length)) = gap.bytes buffer := by
  apply Bytes.window_overlay_of_apart
  intro i hle hlt hcovers
  exact h i ⟨⟨hle, hlt⟩, has_of_covers hcovers⟩

/-- A gap shows what is written through it, and nothing of what is written elsewhere. -/
theorem bytes_fill (hfit : gap.position + gap.length ≤ buffer.length)
    (h : ∀ w ∈ writes, w.1 ≠ gap → gap.Apart w.1) :
    gap.bytes (fill buffer writes) = fill (gap.bytes buffer)
      ((writes.filter fun w => w.1 = gap).map fun w => (gap.alone, w.2)) := by
  induction writes generalizing buffer with
  | nil => rfl
  | cons w rest ih =>
    obtain ⟨other, data⟩ := w
    have hrest : ∀ w ∈ rest, w.1 ≠ gap → gap.Apart w.1 := by
      intro w hw
      exact h w (List.mem_cons_of_mem _ hw)
    rw [fill, ih (by rw [Bytes.length_overlay]; exact hfit) hrest]
    by_cases hsame : other = gap
    · subst hsame
      rw [bytes, Bytes.window_overlay hfit (List.length_take_le _ _)]
      simp [fill, alone, bytes]
    · rw [bytes_overlay_of_apart data (h _ List.mem_cons_self hsame)]
      simp [hsame]

/-- What fills a gap stands there until something else is written through it. -/
theorem bytes_fill_of_last {earlier later : List (Gap × Bytes)} {data : Bytes}
    (hfit : gap.position + gap.length ≤ buffer.length) (hfull : data.length = gap.length)
    (h : ∀ w ∈ later, gap.Apart w.1) :
    gap.bytes (fill buffer (earlier ++ (gap, data) :: later)) = data := by
  have hwhole : data.take gap.length = data := List.take_of_length_le (Nat.le_of_eq hfull)
  have hlayer : (gap.position, data).2.length = gap.length := hfull
  rw [fill_eq_overlayAll, List.map_append, List.map_cons, hwhole, bytes, ← hlayer]
  apply Bytes.window_overlayAll_of_last (gap.position, data)
  · rw [hlayer]
    exact hfit
  · intro layer hmem i hcovers hlater
    obtain ⟨w, hw, rfl⟩ := List.mem_map.mp hmem
    refine h w hw i ⟨?_, has_of_covers hlater⟩
    rw [← hwhole] at hcovers
    exact has_of_covers hcovers

end Writing

section Carving

variable {buffer : Bytes} {offset : Nat} {spans : List Span}

instance : Std.Symm Gap.Apart where
  symm _ _ h i hi := h i hi.symm

theorem pairwise_apart_ofSpan {length : Nat} (h : Span.AllFit length offset 0 spans) :
    (spans.map (ofSpan offset)).Pairwise Gap.Apart := by
  rw [List.pairwise_map]
  apply h.pairwise.imp_of_mem
  intro span later hspan _ hle
  obtain ⟨-, hordered, -⟩ := h.reached_le span hspan
  apply apart_of_le
  left
  simp only [ofSpan]
  omega

theorem inside_of_allFit {length : Nat} {gap : Gap} (h : Span.AllFit length offset 0 spans)
    (hgap : gap ∈ spans.map (ofSpan offset)) : gap.position + gap.length ≤ length := by
  obtain ⟨span, hspan, rfl⟩ := List.mem_map.mp hgap
  obtain ⟨-, hordered, hinside⟩ := h.reached_le span hspan
  simp only [ofSpan]
  omega

/-- Spans that fit are cut out of the buffer without loss. -/
theorem cutOut_of_allFit (h : Span.AllFit buffer.length offset 0 spans) :
    CutOut buffer offset spans (spans.map (ofSpan offset)) where
  length_eq := List.length_map _
  named i span gap hspan hgap := by
    obtain rfl : ofSpan offset span = gap := by simpa [hspan] using hgap
    obtain ⟨-, hordered, hinside⟩ := h.reached_le span (List.mem_of_getElem? hspan)
    refine ⟨rfl, rfl, rfl, ?_, ?_⟩
    · rw [bytes, Bytes.length_window]
      simp only [ofSpan]
      omega
    · intro j hj
      rw [bytes, Bytes.window, List.getElem?_take, List.getElem?_drop]
      exact if_pos hj
  apart := pairwise_apart_ofSpan h
  kept writes hwrites i hi := by
    apply getElem?_fill_of_not_has
    intro w hw
    exact hi w.1 (hwrites w hw)
  own writes hwrites gap hgap := by
    apply bytes_fill (inside_of_allFit h hgap)
    intro w hw hne
    exact (pairwise_apart_ofSpan h).forall hgap (hwrites w hw) hne.symm
  shown earlier later gap data hgap hfull hlater := by
    apply bytes_fill_of_last (inside_of_allFit h hgap) hfull
    intro w hw
    obtain ⟨hmem, hne⟩ := hlater w hw
    exact (pairwise_apart_ofSpan h).forall hgap hmem hne.symm

/-- The spans that can be cut out of a buffer are those that come one behind the other, stop inside
the buffer and have offsets that are words. Their gaps are cut out without loss; all others are
refused, for the first that is at fault. -/
theorem carves_just_what_fits (buffer : Bytes) (offset : Nat) (spans : List Span) :
    ((∃ gaps, carve buffer.length offset spans = .ok gaps) ↔
      Span.AllFit buffer.length offset 0 spans) ∧
    (∀ gaps, carve buffer.length offset spans = .ok gaps → CutOut buffer offset spans gaps) ∧
    (∀ fault, carve buffer.length offset spans = .error fault ↔
      Span.FirstMisfit buffer.length offset 0 spans fault) ∧
    Fault.message? .unsortedGaps = some "read gaps must be sorted and disjoint" := by
  refine ⟨?_, ?_, fun fault => carve_eq_error_iff, rfl⟩
  · constructor
    · rintro ⟨gaps, hgaps⟩
      exact (carve_eq_ok_iff.mp hgaps).1
    · intro hfit
      exact ⟨_, carve_of_allFit hfit⟩
  · intro gaps hgaps
    obtain ⟨hfit, rfl⟩ := carve_eq_ok_iff.mp hgaps
    exact cutOut_of_allFit hfit

end Carving

end Gap

end FlatVolume
