import FlatVolume.Proofs.Errands
import FlatVolume.Proofs.FaithfulCache
import FlatVolume.Proofs.Layers
import FlatVolume.Proofs.ReadProgress

/-!
# Reads of what a cache leaves

A read that is put to a cache goes to the files for each gap that is left, in the order in which
the cache names them, and a gap that cannot be read keeps none of the others from being read. The
gaps lie anywhere in the buffer as long as no two of them meet, and their bytes at any offsets.
-/

namespace FlatVolume

variable {Handle Cache File σ : Type}

/-- What the last element gives for which there is something. -/
theorem getLast?_filterMap_eq_some_iff {α β : Type} {f : α → Option β} {l : List α} {x : β} :
    (l.filterMap f).getLast? = some x ↔
      ∃ front a later, l = front ++ a :: later ∧ f a = some x ∧ ∀ c ∈ later, f c = none := by
  rw [List.getLast?_filterMap, List.findSome?_eq_some_iff]
  constructor
  · rintro ⟨later, a, front, hl, ha, hlater⟩
    refine ⟨front.reverse, a, later.reverse, ?_, ha, ?_⟩
    · rw [← List.reverse_inj, hl]
      simp
    · intro c hc
      exact hlater c (List.mem_reverse.mp hc)
  · rintro ⟨front, a, later, rfl, ha, hlater⟩
    refine ⟨later.reverse, a, front.reverse, ?_, ha, ?_⟩
    · simp
    · intro c hc
      exact hlater c (List.mem_reverse.mp hc)

/-- No position is in both gaps. -/
def Gap.Apart (gap gap' : Gap) : Prop :=
  ∀ i, ¬ (gap.Has i ∧ gap'.Has i)

theorem Gap.apart_of_le {gap gap' : Gap} (h : gap.position + gap.length ≤ gap'.position ∨
    gap'.position + gap'.length ≤ gap.position) : gap.Apart gap' := by
  rintro i ⟨⟨hle, hlt⟩, hle', hlt'⟩
  omega

/-- The read of the files for one gap. -/
abbrev GapErrand (Handle Cache σ : Type) :=
  Errand Handle Cache Gap Reading σ

namespace GapErrand

def failure? (e : GapErrand Handle Cache σ) : Option VolumeError :=
  Volume.failure? e.result.outcome

def warning? (e : GapErrand Handle Cache σ) : Option LogLine :=
  e.failure?.map (.gapReadFailed e.item.offset e.item.length)

def Fails (e : GapErrand Handle Cache σ) : Prop :=
  ∃ failure, e.result.outcome = .error failure

/-- The gap with what the read has left there. -/
def layer (e : GapErrand Handle Cache σ) : Bytes.Layer :=
  (e.item.position, e.result.buffer)

/-- The read has left as many bytes as the gap has, and has come to an answer or an error. -/
structure Answers (e : GapErrand Handle Cache σ) : Prop where
  length_eq : e.result.buffer.length = e.item.length
  unfaulted : ∀ fault, e.result.outcome ≠ .error (.fault fault)

end GapErrand

namespace Volume

def readGap (v : Volume Handle Cache) (left : Bytes) (patience : Nat) (gap : Gap) :
    Program Handle Cache Reading :=
  v.readFiles patience (left.window gap.position gap.length) gap.offset

/-- What a read reports whose last failed gap has failed with this. -/
def verdict (length : Nat) : Option VolumeError → Except (Failure VolumeError) Nat
  | none => .ok length
  | some e => .error (.error e)

section Verdict

variable {errands : List (GapErrand Handle Cache σ)} {length : Nat}

/-- A read succeeds just if every gap can be read. -/
theorem verdict_ok_iff (answers : ∀ e ∈ errands, e.Answers) {count : Nat} :
    verdict length (errands.filterMap GapErrand.failure?).getLast? = .ok count ↔
      count = length ∧ ∀ e ∈ errands, ¬ e.Fails := by
  have hnone : (errands.filterMap GapErrand.failure?).getLast? = none ↔
      ∀ e ∈ errands, ¬ e.Fails := by
    rw [List.getLast?_eq_none_iff, List.filterMap_eq_nil_iff]
    refine forall₂_congr fun e he => ?_
    exact Volume.failure?_eq_none_iff (answers e he).unfaulted
  rw [← hnone]
  cases (errands.filterMap GapErrand.failure?).getLast? <;> simp [verdict, eq_comm]

/-- A read fails with what the last gap has failed with that cannot be read. -/
theorem verdict_error_iff (answers : ∀ e ∈ errands, e.Answers) {failure : Failure VolumeError} :
    verdict length (errands.filterMap GapErrand.failure?).getLast? = .error failure ↔
      ∃ front e later, errands = front ++ e :: later ∧ e.result.outcome = .error failure ∧
        ∀ e' ∈ later, ¬ e'.Fails := by
  have herror : verdict length (errands.filterMap GapErrand.failure?).getLast? = .error failure ↔
      ∃ cause, failure = .error cause ∧
        (errands.filterMap GapErrand.failure?).getLast? = some cause := by
    cases (errands.filterMap GapErrand.failure?).getLast? <;> simp [verdict, eq_comm]
  rw [herror]
  constructor
  · rintro ⟨cause, rfl, hlast⟩
    obtain ⟨front, e, later, rfl, hcause, hlater⟩ := getLast?_filterMap_eq_some_iff.mp hlast
    refine ⟨front, e, later, rfl, ?_, ?_⟩
    · exact (eq_error_iff (answers e (by simp)).unfaulted _).mpr ⟨cause, rfl, hcause⟩
    · intro e' he'
      exact (failure?_eq_none_iff (answers e' (by simp [he'])).unfaulted).mp (hlater e' he')
  · rintro ⟨front, e, later, rfl, houtcome, hlater⟩
    obtain ⟨cause, rfl, hcause⟩ := (eq_error_iff (answers e (by simp)).unfaulted _).mp houtcome
    refine ⟨cause, rfl, getLast?_filterMap_eq_some_iff.mpr ⟨front, e, later, rfl, hcause, ?_⟩⟩
    intro e' he'
    exact (failure?_eq_none_iff (answers e' (by simp [he'])).unfaulted).mpr (hlater e' he')

end Verdict

variable {host : Host Handle Cache σ} {v : Volume Handle Cache} {patience : Nat}

theorem readGaps_cons {e : GapErrand Handle Cache σ} {left : Bytes} {buffer : Contents}
    (hrun : e.IsRun host (v.readGap left patience e.item)) (answers : e.Answers)
    (hwindow : buffer.toBytes.window e.item.position e.item.length =
      left.window e.item.position e.item.length)
    (hlength : (left.window e.item.position e.item.length).length = e.item.length)
    (rest : List Gap) (failed : Option VolumeError) :
    let all := v.readGaps patience (e.item :: rest) buffer failed
    let later := v.readGaps patience rest (buffer.overlay e.item.position e.result.buffer)
      (e.failure?.or failed)
    all.run host e.before = later.run host (host.note e.warning? e.after) ∧
      all.exchanges host e.before = e.asked GapErrand.warning? ++
        later.exchanges host (host.note e.warning? e.after) := by
  obtain ⟨hrun, hexchanges⟩ := hrun
  rw [readGap, ← hwindow, ← Contents.read_eq] at hrun hexchanges
  rw [← hwindow, ← Contents.read_eq] at hlength
  have hfault := answers.unfaulted
  dsimp only
  rw [readGaps, Program.bind_eq, Program.run_bind, Program.exchanges_bind, hrun, hexchanges,
    Errand.asked, List.append_assoc]
  dsimp only [GapErrand.warning?, GapErrand.failure?]
  cases houtcome : e.result.outcome with
  | ok count => exact ⟨rfl, rfl⟩
  | error failure =>
    cases failure with
    | error failure =>
      dsimp only [failure?]
      rw [hlength]
      exact ⟨rfl, rfl⟩
    | fault fault => exact absurd houtcome (hfault fault)

/-- All gaps are read in their order, whatever becomes of each. -/
theorem readGaps_in_turn {left : Bytes} {errands : List (GapErrand Handle Cache σ)}
    {state last : σ} (turns : Errand.InTurn host GapErrand.warning? state errands last)
    (hruns : ∀ e ∈ errands, e.IsRun host (v.readGap left patience e.item))
    (answers : ∀ e ∈ errands, e.Answers)
    (inside : ∀ e ∈ errands, e.item.position + e.item.length ≤ left.length)
    (apart : (errands.map fun e => e.item).Pairwise Gap.Apart) {buffer : Contents}
    (hsize : buffer.size = left.length)
    (hleft : ∀ e ∈ errands, buffer.toBytes.window e.item.position e.item.length =
      left.window e.item.position e.item.length) (failed : Option VolumeError) :
    let gaps := errands.map fun e => e.item
    let failures := errands.filterMap GapErrand.failure?
    (v.readGaps patience gaps buffer failed).run host state =
        (⟨buffer.toBytes.overlayAll (errands.map GapErrand.layer),
          verdict left.length (failures.getLast?.or failed)⟩, last) ∧
      (v.readGaps patience gaps buffer failed).exchanges host state =
        errands.flatMap (Errand.asked GapErrand.warning?) := by
  induction turns generalizing buffer failed with
  | nil =>
    cases failed with
    | none => exact ⟨by rw [← hsize]; rfl, rfl⟩
    | some e => exact ⟨rfl, rfl⟩
  | @cons e rest last _ ih =>
    obtain ⟨hrun, hruns⟩ := List.forall_mem_cons.mp hruns
    obtain ⟨hanswers, answers⟩ := List.forall_mem_cons.mp answers
    obtain ⟨hinside, inside⟩ := List.forall_mem_cons.mp inside
    obtain ⟨hwindow, hleft⟩ := List.forall_mem_cons.mp hleft
    rw [List.map_cons, List.pairwise_cons] at apart
    obtain ⟨hapart, apart⟩ := apart
    have hlength : (left.window e.item.position e.item.length).length = e.item.length := by
      rw [Bytes.length_window]
      omega
    obtain ⟨hfirst, hexchanges⟩ := readGaps_cons hrun hanswers hwindow hlength
      (rest.map fun e => e.item) failed
    -- The bytes at the later gaps are still those that the cache has left.
    have hkept : ∀ e' ∈ rest, (buffer.overlay e.item.position e.result.buffer).toBytes.window
        e'.item.position e'.item.length = left.window e'.item.position e'.item.length := by
      intro e' he'
      rw [Contents.toBytes_overlay, Bytes.window_overlay_of_apart, hleft e' he']
      rintro i hle hlt ⟨hle', hlt'⟩
      rw [hanswers.length_eq] at hlt'
      exact hapart _ (List.mem_map_of_mem he') i ⟨⟨hle', hlt'⟩, hle, hlt⟩
    have hsize' : (buffer.overlay e.item.position e.result.buffer).size = left.length := by
      rw [Contents.size_overlay, hsize]
    obtain ⟨hrest, hasked⟩ := ih hruns answers inside apart hsize' hkept
      ((GapErrand.failure? e).or failed)
    dsimp only
    rw [List.map_cons, hfirst, hexchanges, hrest, hasked, Contents.toBytes_overlay]
    refine ⟨?_, rfl⟩
    rw [List.map_cons, Bytes.overlayAll_cons, List.filterMap_cons]
    cases GapErrand.failure? e with
    | none => rfl
    | some failure =>
      dsimp only
      rw [List.getLast?_cons]
      cases (rest.filterMap GapErrand.failure?).getLast? <;> rfl

theorem exchanges_read_cached {cache : Cache} (attached : v.cache = some cache) (patience : Nat)
    {buffer : Bytes} {offset : Nat} {state middle : σ} {reply : CacheReading} {gaps : List Gap}
    (hcache : host.readCache cache buffer offset state = (reply, middle))
    (hgaps : reply.gaps = .ok gaps) :
    (v.read patience buffer offset).exchanges host state =
      ⟨.readCache cache buffer offset, reply⟩ ::
        (v.readGaps patience gaps (.ofBytes (buffer.overlay 0 reply.bytes)) none).exchanges host
          middle := by
  have hanswer : host.answer (.readCache cache buffer offset) state = (reply, middle) := hcache
  rw [read, attached]
  dsimp only
  rw [Program.bind_eq, Program.exchanges_request_bind, hanswer]
  dsimp only
  rw [hgaps]

end Volume

namespace Backing

/-- What a read makes of a buffer as a cache has `left` it, and of its errands to the files. -/
structure GapReport (b : Backing Handle File σ) (v : Volume Handle Cache) (left : Bytes)
    (middle : σ) (errands : List (GapErrand Handle Cache σ)) (reading : Reading) (after : σ) :
    Prop where
  reports : ∀ e ∈ errands, b.ReadReport v (left.window e.item.position e.item.length)
    e.item.offset middle e.result e.after e.exchanges
  ok_iff : ∀ count, reading.outcome = .ok count ↔ count = left.length ∧ ∀ e ∈ errands, ¬ e.Fails
  error_iff : ∀ failure, reading.outcome = .error failure ↔
    ∃ front e later, errands = front ++ e :: later ∧ e.result.outcome = .error failure ∧
      ∀ e' ∈ later, ¬ e'.Fails
  length_eq : reading.buffer.length = left.length
  found : ∀ e ∈ errands,
    reading.buffer.window e.item.position e.item.length = e.result.buffer
  untouched : ∀ i, (∀ e ∈ errands, ¬ e.item.Has i) → reading.buffer[i]? = left[i]?
  logged : (errands.flatMap (Errand.asked GapErrand.warning?)).filterMap Exchange.line? =
    errands.filterMap GapErrand.warning?
  warned_iff : ∀ e ∈ errands, e.warning? = none ↔ ¬ e.Fails
  same : b.Same middle after

variable {b : Backing Handle File σ} {host : Host Handle Cache σ} {v : Volume Handle Cache}
    {sound broken : σ → Prop} {left buffer : Bytes} {offset : Nat} {state middle after : σ}

theorem ReadReport.of_same {before : σ} {reading : Reading}
    {exchanges : List (Exchange Handle Cache)} (hsame : b.Same middle before)
    (report : b.ReadReport v buffer offset before reading after exchanges) :
    b.ReadReport v buffer offset middle reading after exchanges := by
  have hflat := flat_congr v hsame
  obtain ⟨hlength, hfilled, hfailed, hfails, hasks, hafter⟩ := report
  rw [hflat] at hfilled hfailed
  exact ⟨hlength, hfilled, hfailed, hfails, hasks, hsame.trans hafter⟩

theorem ReadReport.answers {e : GapErrand Handle Cache σ}
    (report : b.ReadReport v (left.window e.item.position e.item.length) e.item.offset middle
      e.result e.after e.exchanges)
    (inside : e.item.position + e.item.length ≤ left.length) : e.Answers := by
  constructor
  · rw [report.length_eq, Bytes.length_window]
    omega
  · intro fault hfault
    obtain ⟨t, cause, heq, -⟩ := report.failed _ hfault
    cases heq

/-- The read of a gap comes to its end, and the files are as they were. -/
theorem Reads.gap_settles (reads : b.Reads host v sound sound)
    (answered : ∀ e window place state, v.Backs e place window.length → sound state →
      ∃ count, Transfer.Answered host .reading e.handle place count window state)
    (quiet : b.Quiet host sound) (left : Bytes) (gap : Gap) (h : sound state)
    (hsame : b.Same middle state) :
    ∃ (e : GapErrand Handle Cache σ) (bound : Nat), e.item = gap ∧ e.before = state ∧
      b.ReadReport v (left.window e.item.position e.item.length) e.item.offset middle e.result
        e.after e.exchanges ∧
      (sound (host.note e.warning? e.after) ∧ b.Same middle (host.note e.warning? e.after)) ∧
      ∀ patience, bound ≤ patience → e.IsRun host (v.readGap left patience gap) := by
  obtain ⟨reading, after, exchanges, bound, hstalled, hruns⟩ :=
    reads.settles answered (left.window gap.position gap.length) gap.offset h
  obtain ⟨hrun, hexchanges⟩ := hruns bound (Nat.le_refl _)
  have hends := reads.ends bound (left.window gap.position gap.length) gap.offset h
  have report := (reads.report h hrun hstalled).of_same hsame
  rw [hrun] at hends
  rw [hexchanges] at report
  obtain ⟨hnoted, hkept⟩ := quiet.note
    (GapErrand.warning? ⟨gap, state, reading, after, exchanges⟩) hends.sound_after
  exact ⟨⟨gap, state, reading, after, exchanges⟩, bound, rfl, rfl, report,
    ⟨hnoted, report.same.trans hkept⟩, hruns⟩

/-- The bytes of a gap are those that its own read has found. -/
theorem GapReport.of_errands {errands : List (GapErrand Handle Cache σ)}
    (reports : ∀ e ∈ errands, b.ReadReport v (left.window e.item.position e.item.length)
      e.item.offset middle e.result e.after e.exchanges)
    (inside : ∀ e ∈ errands, e.item.position + e.item.length ≤ left.length)
    (apart : (errands.map fun e => e.item).Pairwise Gap.Apart) (same : b.Same middle after) :
    b.GapReport v left middle errands
      ⟨left.overlayAll (errands.map GapErrand.layer),
        Volume.verdict left.length (errands.filterMap GapErrand.failure?).getLast?⟩ after := by
  have answers : ∀ e ∈ errands, e.Answers := fun e he => (reports e he).answers (inside e he)
  have hcovers : ∀ e ∈ errands, ∀ i, e.layer.Covers i ↔ e.item.Has i := by
    intro e he i
    unfold Bytes.Layer.Covers GapErrand.layer Gap.Has
    dsimp only
    rw [(answers e he).length_eq]
  refine ⟨reports, ?_, ?_, Bytes.length_overlayAll _ _, ?_, ?_, ?_, ?_, same⟩
  · intro count
    exact Volume.verdict_ok_iff answers
  · intro failure
    exact Volume.verdict_error_iff answers
  · intro e he
    obtain ⟨front, later, rfl⟩ := List.append_of_mem he
    have hfits := inside e he
    rw [List.map_append, List.map_cons, List.pairwise_append, List.pairwise_cons] at apart
    obtain ⟨-, ⟨hlater, -⟩, -⟩ := apart
    rw [← (answers e he).length_eq] at hfits ⊢
    dsimp only
    rw [List.map_append, List.map_cons]
    refine Bytes.window_overlayAll_of_last e.layer hfits ?_
    intro layer hlayer i hcov hcov'
    obtain ⟨e', he', rfl⟩ := List.mem_map.mp hlayer
    exact hlater _ (List.mem_map_of_mem he') i
      ⟨(hcovers e he i).mp hcov, (hcovers e' (by simp [he']) i).mp hcov'⟩
  · intro i hi
    dsimp only
    apply Bytes.getElem?_overlayAll_of_none
    intro layer hlayer hcov
    obtain ⟨e, he, rfl⟩ := List.mem_map.mp hlayer
    exact hi e he ((hcovers e he i).mp hcov)
  · apply Errand.lines_asked
    intro e he x hx
    rw [(reports e he).asks x hx]
    decide
  · intro e he
    rw [GapErrand.warning?, Option.map_eq_none_iff]
    exact Volume.failure?_eq_none_iff (answers e he).unfaulted

/-- A read that is put to a cache goes to the files once for each gap that is left, and fails just
if one of these reads does, with what the last of them has failed with. Every gap has in it what
its own read has found, and every other byte is as the cache has left it. -/
theorem cached_read_report (reads : b.Reads host v sound sound)
    (answered : ∀ e window place state, v.Backs e place window.length → sound state →
      ∃ count, Transfer.Answered host .reading e.handle place count window state)
    (quiet : b.Quiet host sound) {cache : Cache} (attached : v.cache = some cache)
    (buffer : Bytes) (offset : Nat) {reply : CacheReading} {gaps : List Gap}
    (hcache : host.readCache cache buffer offset state = (reply, middle))
    (hgaps : reply.gaps = .ok gaps)
    (inside : ∀ gap ∈ gaps, gap.position + gap.length ≤ buffer.length)
    (apart : gaps.Pairwise Gap.Apart) (h : sound middle) :
    let left := buffer.overlay 0 reply.bytes
    ∃ errands reading after bound, errands.map (fun e => e.item) = gaps ∧
      Errand.InTurn host GapErrand.warning? middle errands after ∧
      (∀ patience, bound ≤ patience →
        (∀ e ∈ errands, e.IsRun host (v.readFiles patience
          (left.window e.item.position e.item.length) e.item.offset)) ∧
        (v.read patience buffer offset).run host state = (reading, after) ∧
        (v.read patience buffer offset).exchanges host state =
          ⟨.readCache cache buffer offset, reply⟩ ::
            errands.flatMap (Errand.asked GapErrand.warning?)) ∧
      b.GapReport v left middle errands reading after := by
  intro left
  have hstart : sound middle ∧ b.Same middle middle := ⟨h, .refl middle⟩
  obtain ⟨errands, after, bound, rfl, turns, ⟨-, hsame⟩, reports, hruns⟩ :=
    Errand.InTurn.of_settles
      (fun gap state (h : sound state ∧ b.Same middle state) =>
        reads.gap_settles answered quiet left gap h.1 h.2) gaps hstart
  have hinside : ∀ e ∈ errands, e.item.position + e.item.length ≤ left.length := by
    intro e he
    rw [Bytes.length_overlay]
    exact inside _ (List.mem_map_of_mem he)
  have hreport := GapReport.of_errands reports hinside apart hsame
  refine ⟨errands, _, after, bound, rfl, turns, ?_, hreport⟩
  intro patience hle
  obtain ⟨hrun, hexchanges⟩ := Volume.readGaps_in_turn turns (hruns patience hle)
    (fun e he => (reports e he).answers (hinside e he)) hinside apart (Contents.size_ofBytes left)
    (fun e _ => by rw [Contents.toBytes_ofBytes]) none
  rw [Contents.toBytes_ofBytes, Option.or_none] at hrun
  refine ⟨hruns patience hle, ?_, ?_⟩
  · rw [Volume.run_read_cached attached patience hcache hgaps]
    exact hrun
  · rw [Volume.exchanges_read_cached attached patience hcache hgaps]
    exact congrArg (List.cons _) hexchanges

/-- A read of nine bytes of which a cache leaves three gaps out of order, the second of which fails
at its second byte. -/
theorem cached_read_report_scheduled :
    let v : Volume Nat Unit :=
      ⟨⟨[⟨0, 2, 0⟩, ⟨2, 0, 1⟩, ⟨2, 5, 2⟩], 7, ⟨rfl, rfl, rfl, rfl⟩, by decide⟩, some ()⟩
    let s : Scheduled := ⟨fun file i => if file = 0 then 7 else UInt8.ofNat i,
      [.upTo 1, .fails ⟨.interrupted, "interrupted"⟩, .upTo 2, .upTo 1, .upTo 0]⟩
    let gaps : List Gap := [⟨6, 2, 1⟩, ⟨0, 3, 4⟩, ⟨4, 1, 100⟩]
    let reply : CacheReading := ⟨[0, 0, 0, 4, 0, 6], .ok gaps⟩
    let buffer : Bytes := [9, 9, 9, 9, 9, 9, 9, 9, 9]
    let left := buffer.overlay 0 reply.bytes
    let host := Scheduled.cached reply []
    ∃ errands reading after bound, errands.map (fun e => e.item) = gaps ∧
      Errand.InTurn host GapErrand.warning? s errands after ∧
      (∀ patience, bound ≤ patience →
        (∀ e ∈ errands, e.IsRun host (v.readFiles patience
          (left.window e.item.position e.item.length) e.item.offset)) ∧
        (v.read patience buffer 1).run host s = (reading, after) ∧
        (v.read patience buffer 1).exchanges host s =
          ⟨.readCache () buffer 1, reply⟩ ::
            errands.flatMap (Errand.asked GapErrand.warning?)) ∧
      Scheduled.backing.GapReport v left s errands reading after := by
  intro v s gaps reply buffer left host
  have inside : ∀ gap ∈ gaps, gap.position + gap.length ≤ buffer.length := by decide
  have apart : gaps.Pairwise Gap.Apart := by
    apply List.Pairwise.imp Gap.apart_of_le
    decide
  exact cached_read_report (Scheduled.reads_cached reply [] v)
    (fun e window place state _ _ => Scheduled.answered_cached reply [] e.handle place window state)
    (fun _ state _ => ⟨trivial, .refl state⟩) rfl buffer 1 rfl rfl inside apart trivial

end Backing

end FlatVolume
