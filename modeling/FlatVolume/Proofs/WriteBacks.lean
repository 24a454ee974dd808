import FlatVolume.Proofs.Errands
import FlatVolume.Proofs.FaithfulCache
import FlatVolume.Proofs.Layers
import FlatVolume.Proofs.WriteProgress

/-!
# Writes of what a cache hands back

A write that is put to a cache goes to the files for each range that is handed back, in the order
in which the cache names them, and always succeeds: a range that cannot be written is only logged.
The ranges lie anywhere and may meet. Each lays down what the files accept of it, over what those
before it have left.
-/

namespace FlatVolume

variable {Handle Cache File σ : Type}

/-- The write to the files of one range. -/
abbrev WriteErrand (Handle Cache σ : Type) :=
  Errand Handle Cache WriteBack (Except (Failure VolumeError) Nat) σ

namespace WriteErrand

def warning? (e : WriteErrand Handle Cache σ) : Option LogLine :=
  (Volume.failure? e.result).map (.writeBackFailed e.item.offset e.item.data.length)

/-- The part of a range that the files have accepted. -/
def accepted (e : WriteErrand Handle Cache σ) : Bytes :=
  e.item.data.take (Volume.transferred e.item.data e.result)

def layer (e : WriteErrand Handle Cache σ) : Bytes.Layer :=
  (e.item.offset, e.accepted)

def Fails (e : WriteErrand Handle Cache σ) : Prop :=
  ∃ failure, e.result = .error failure

theorem accepted_of_not_fails {e : WriteErrand Handle Cache σ} (h : ¬ e.Fails) :
    e.accepted = e.item.data := by
  cases hresult : e.result with
  | ok count => rw [accepted, hresult, Volume.transferred, List.take_length]
  | error failure => exact absurd ⟨failure, hresult⟩ h

end WriteErrand

namespace Volume

variable {host : Host Handle Cache σ} {v : Volume Handle Cache} {patience : Nat}

theorem writeRanges_cons {e : WriteErrand Handle Cache σ}
    (hrun : e.IsRun host (v.writeFiles patience e.item.data e.item.offset))
    (hfault : ∀ fault, e.result ≠ .error (.fault fault)) (rest : List WriteBack) :
    let all := v.writeRanges patience (e.item :: rest)
    let later := v.writeRanges patience rest
    all.run host e.before = later.run host (host.note e.warning? e.after) ∧
      all.exchanges host e.before = e.asked WriteErrand.warning? ++
        later.exchanges host (host.note e.warning? e.after) := by
  obtain ⟨hrun, hexchanges⟩ := hrun
  dsimp only
  rw [writeRanges, Program.bind_eq, Program.run_bind, Program.exchanges_bind, hrun, hexchanges,
    Errand.asked, List.append_assoc]
  dsimp only [WriteErrand.warning?]
  cases houtcome : e.result with
  | ok count => exact ⟨rfl, rfl⟩
  | error failure =>
    cases failure with
    | error failure => exact ⟨rfl, rfl⟩
    | fault fault => exact absurd houtcome (hfault fault)

/-- All ranges are written in their order, whatever becomes of each. -/
theorem writeRanges_in_turn {errands : List (WriteErrand Handle Cache σ)} {state last : σ}
    (turns : Errand.InTurn host WriteErrand.warning? state errands last)
    (hruns : ∀ e ∈ errands, e.IsRun host (v.writeFiles patience e.item.data e.item.offset))
    (hfaults : ∀ e ∈ errands, ∀ fault, e.result ≠ .error (.fault fault)) :
    let ranges := errands.map fun e => e.item
    (v.writeRanges patience ranges).run host state = (.ok (), last) ∧
      (v.writeRanges patience ranges).exchanges host state =
        errands.flatMap (Errand.asked WriteErrand.warning?) := by
  induction turns with
  | nil => exact ⟨rfl, rfl⟩
  | @cons e rest last _ ih =>
    obtain ⟨hrun, hruns⟩ := List.forall_mem_cons.mp hruns
    obtain ⟨hfault, hfaults⟩ := List.forall_mem_cons.mp hfaults
    obtain ⟨hfirst, hexchanges⟩ := writeRanges_cons hrun hfault (rest.map fun e => e.item)
    obtain ⟨hrest, hasked⟩ := ih hruns hfaults
    dsimp only
    rw [List.map_cons, hfirst, hexchanges, hrest, hasked]
    exact ⟨rfl, rfl⟩

theorem exchanges_write_cached {cache : Cache} (attached : v.cache = some cache) {data : Bytes}
    {offset : Nat} {state middle after : σ} {ranges : List WriteBack}
    (hcache : host.writeCache cache data offset state = (ranges, middle))
    (hranges : (v.writeRanges patience ranges).run host middle = (.ok (), after)) :
    (v.write patience data offset).exchanges host state =
      ⟨.writeCache cache data offset, ranges⟩ ::
        (v.writeRanges patience ranges).exchanges host middle := by
  have hanswer : host.answer (.writeCache cache data offset) state = (ranges, middle) := hcache
  rw [write, attached]
  dsimp only
  rw [Program.bind_eq, Program.exchanges_request_bind, hanswer]
  dsimp only
  rw [Program.bind_eq, Program.exchanges_bind, hranges]
  exact congrArg (List.cons _) (List.append_nil _)

end Volume

namespace Backing

/-- What the files make of the ranges that a cache has handed back. -/
structure WriteBackReport (b : Backing Handle File σ) (v : Volume Handle Cache) (middle : σ)
    (errands : List (WriteErrand Handle Cache σ)) (after : σ) : Prop where
  reports : ∀ e ∈ errands,
    b.WriteReport v e.item.data e.item.offset e.before e.result e.after e.exchanges
  asks : ∀ e ∈ errands, ∀ x ∈ e.exchanges, x.request.kind = .writing
  whole : ∀ e ∈ errands, ¬ e.Fails → e.accepted = e.item.data
  flat_eq : b.flat v after = (b.flat v middle).overlayAll (errands.map WriteErrand.layer)
  last_wins : ∀ front e later q, errands = front ++ e :: later → q < v.total →
    e.layer.Covers q → (∀ e' ∈ later, ¬ e'.layer.Covers q) →
    (b.flat v after)[q]? = e.accepted[q - e.item.offset]?
  untouched : ∀ q, (∀ e ∈ errands, ¬ e.layer.Covers q) →
    (b.flat v after)[q]? = (b.flat v middle)[q]?
  outside : ∀ file i, b.Outside v file i → b.byte after file i = b.byte middle file i
  logged : (errands.flatMap (Errand.asked WriteErrand.warning?)).filterMap Exchange.line? =
    errands.filterMap WriteErrand.warning?
  warned_iff : ∀ e ∈ errands, e.warning? = none ↔ ¬ e.Fails

variable {b : Backing Handle File σ} {host : Host Handle Cache σ} {v : Volume Handle Cache}
    {sound broken : σ → Prop} {data : Bytes} {offset : Nat} {state middle after : σ}

theorem WriteReport.unfaulted {before : σ} {outcome : Except (Failure VolumeError) Nat}
    {exchanges : List (Exchange Handle Cache)}
    (report : b.WriteReport v data offset before outcome after exchanges) (fault : Fault) :
    outcome ≠ .error (.fault fault) := by
  rintro rfl
  have hok := report.otherwise (by rintro ⟨_, _, _, ⟨⟩⟩) (by rintro ⟨_, _, ⟨⟩⟩)
  cases hok

/-- The write of a range comes to its end, and logging it leaves the files as they are. -/
theorem Writes.range_settles (distinct : b.Distinct v) (writes : b.Writes host v sound sound)
    (answered : ∀ e data place state, v.Backs e place data.length → sound state →
      ∃ count, Transfer.Answered host .writing e.handle place count data state)
    (quiet : b.Quiet host sound) (range : WriteBack) (h : sound state) :
    ∃ (e : WriteErrand Handle Cache σ) (bound : Nat), e.item = range ∧ e.before = state ∧
      (b.WriteReport v e.item.data e.item.offset e.before e.result e.after e.exchanges ∧
        (∀ x ∈ e.exchanges, x.request.kind = .writing) ∧
        b.Same e.after (host.note e.warning? e.after)) ∧
      sound (host.note e.warning? e.after) ∧
      ∀ patience, bound ≤ patience →
        e.IsRun host (v.writeFiles patience range.data range.offset) := by
  obtain ⟨outcome, after, exchanges, bound, hstalled, hruns⟩ :=
    writes.settles answered range.data range.offset h
  obtain ⟨hrun, hexchanges⟩ := hruns bound (Nat.le_refl _)
  have hends := writes.ends distinct bound range.data range.offset h
  have report := writes.report distinct h hrun hstalled
  have hwithin : (v.writeFiles bound range.data range.offset).Within [.writing] :=
    v.within_writeFiles List.mem_cons_self bound range.data range.offset
  have hasks : ∀ x ∈ exchanges, x.request.kind = .writing := by
    intro x hx
    rw [← hexchanges] at hx
    exact List.mem_singleton.mp (hwithin.kind_mem hx)
  rw [hrun] at hends
  rw [hexchanges] at report
  obtain ⟨hnoted, hkept⟩ := quiet.note
    (WriteErrand.warning? ⟨range, state, outcome, after, exchanges⟩) hends.sound_after
  exact ⟨⟨range, state, outcome, after, exchanges⟩, bound, rfl, rfl, ⟨report, hasks, hkept⟩,
    hnoted, hruns⟩

/-- What every range has laid down is there in the end, but for where a later one has too. -/
theorem WriteBackReport.of_turns {errands : List (WriteErrand Handle Cache σ)}
    (turns : Errand.InTurn host WriteErrand.warning? middle errands after)
    (h : ∀ e ∈ errands,
      b.WriteReport v e.item.data e.item.offset e.before e.result e.after e.exchanges ∧
        (∀ x ∈ e.exchanges, x.request.kind = .writing) ∧
        b.Same e.after (host.note e.warning? e.after)) :
    b.WriteBackReport v middle errands after := by
  have hflat : b.flat v after = (b.flat v middle).overlayAll (errands.map WriteErrand.layer) := by
    rw [Bytes.overlayAll, List.foldl_map]
    apply turns.view
    intro e he
    obtain ⟨report, -, hkept⟩ := h e he
    rw [flat_congr v hkept, report.overlaid.flat_eq]
    rfl
  refine ⟨fun e he => (h e he).1, fun e he => (h e he).2.1,
    fun _ _ => WriteErrand.accepted_of_not_fails, hflat, ?_, ?_, ?_, ?_, ?_⟩
  · rintro front e later q rfl hq hcovers hlater
    rw [hflat, List.map_append, List.map_cons]
    apply Bytes.getElem?_overlayAll_of_last _ hcovers
    · intro layer hlayer
      obtain ⟨e', he', rfl⟩ := List.mem_map.mp hlayer
      exact hlater e' he'
    · rw [length_flat]
      exact hq
  · intro q hq
    rw [hflat]
    apply Bytes.getElem?_overlayAll_of_none
    intro layer hlayer
    obtain ⟨e, he, rfl⟩ := List.mem_map.mp hlayer
    exact hq e he
  · intro file i hout
    apply turns.unchanged
    intro e he
    obtain ⟨report, -, hkept⟩ := h e he
    rw [hkept file i, report.overlaid.outside file i hout]
  · apply Errand.lines_asked
    intro e he x hx
    rw [(h e he).2.1 x hx]
    decide
  · intro e he
    rw [WriteErrand.warning?, Option.map_eq_none_iff]
    exact Volume.failure?_eq_none_iff (h e he).1.unfaulted

/-- A write that is put to a cache goes to the files once for each range that is handed back and
always succeeds. The files then have what they accepted of each range, the later over the earlier,
and what could not be written is only logged. Without a cache it is the write of the files. -/
theorem cached_write_report (distinct : b.Distinct v) (writes : b.Writes host v sound sound)
    (answered : ∀ e data place state, v.Backs e place data.length → sound state →
      ∃ count, Transfer.Answered host .writing e.handle place count data state)
    (quiet : b.Quiet host sound) (data : Bytes) (offset : Nat) (state : σ)
    (h : ∀ cache, v.cache = some cache → sound (host.writeCache cache data offset state).2) :
    (v.cache = none →
      ∀ patience, v.write patience data offset = v.writeFiles patience data offset) ∧
    ∀ cache, v.cache = some cache →
      let reply := host.writeCache cache data offset state
      ∃ errands after bound, errands.map (fun e => e.item) = reply.1 ∧
        Errand.InTurn host WriteErrand.warning? reply.2 errands after ∧
        (∀ patience, bound ≤ patience →
          (∀ e ∈ errands, e.IsRun host (v.writeFiles patience e.item.data e.item.offset)) ∧
          (v.write patience data offset).run host state = (.ok data.length, after) ∧
          (v.write patience data offset).exchanges host state =
            ⟨.writeCache cache data offset, reply.1⟩ ::
              errands.flatMap (Errand.asked WriteErrand.warning?)) ∧
        b.WriteBackReport v reply.2 errands after := by
  constructor
  · intro uncached patience
    exact Volume.write_uncached uncached patience data offset
  · intro cache attached
    have hmiddle := h cache attached
    generalize hcache : host.writeCache cache data offset state = reply at hmiddle
    obtain ⟨ranges, middle⟩ := reply
    dsimp only at hmiddle ⊢
    obtain ⟨errands, after, bound, rfl, turns, -, hgood, hruns⟩ := Errand.InTurn.of_settles
      (fun range _ h => writes.range_settles distinct answered quiet range h) ranges hmiddle
    have hreport := WriteBackReport.of_turns turns hgood
    refine ⟨errands, after, bound, rfl, turns, ?_, hreport⟩
    intro patience hle
    obtain ⟨hrun, hexchanges⟩ := Volume.writeRanges_in_turn turns (hruns patience hle)
      fun e he => (hreport.reports e he).unfaulted
    refine ⟨hruns patience hle, ?_, ?_⟩
    · exact Volume.run_write_cached attached hcache hrun
    · rw [Volume.exchanges_write_cached attached hcache hrun, hexchanges]

/-- A cache hands back three ranges, two of which meet: the first is cut short by a failure, the
second is written over what there is of it, and the last lies behind the end of the volume. -/
theorem cached_write_report_scheduled :
    let v : Volume Nat Unit :=
      ⟨⟨[⟨0, 2, 0⟩, ⟨2, 0, 1⟩, ⟨2, 5, 2⟩], 7, ⟨rfl, rfl, rfl, rfl⟩, by decide⟩, some ()⟩
    let s : Scheduled := ⟨fun _ _ => 0,
      [.upTo 1, .fails ⟨.interrupted, "interrupted"⟩, .upTo 2, .fails ⟨.storageFull, "no space left"⟩]⟩
    let ranges : List WriteBack := [⟨1, [1, 2, 3, 4]⟩, ⟨2, [5, 6]⟩, ⟨9, [0, 7]⟩]
    let host := Scheduled.cached ⟨[], .ok []⟩ ranges
    Scheduled.backing.Distinct v ∧ ∃ errands after bound, errands.map (fun e => e.item) = ranges ∧
      Errand.InTurn host WriteErrand.warning? s errands after ∧
      (∀ patience, bound ≤ patience →
        (∀ e ∈ errands, e.IsRun host (v.writeFiles patience e.item.data e.item.offset)) ∧
        (v.write patience [8, 8] 3).run host s = (.ok 2, after) ∧
        (v.write patience [8, 8] 3).exchanges host s =
          ⟨.writeCache () [8, 8] 3, ranges⟩ ::
            errands.flatMap (Errand.asked WriteErrand.warning?)) ∧
      Scheduled.backing.WriteBackReport v s errands after := by
  intro v s ranges host
  have hdistinct : Scheduled.backing.Distinct v := by
    rw [Distinct, List.nodup_iff_pairwise_ne]
    decide
  have hreport := cached_write_report hdistinct
    (Scheduled.writes_cached ⟨[], .ok []⟩ ranges v)
    (fun e data place state _ _ =>
      Scheduled.answered_cached ⟨[], .ok []⟩ ranges e.handle place data state)
    (fun _ state _ => ⟨trivial, .refl state⟩) [8, 8] 3 s fun _ _ => trivial
  exact ⟨hdistinct, hreport.2 () rfl⟩

end Backing

end FlatVolume
