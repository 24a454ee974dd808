import FlatVolume.Proofs.Requests
import FlatVolume.Proofs.WriteProgress

/-!
# What a read says it has found

A read that succeeds has filled its whole buffer, from the files and with zeros behind their end.
One that fails has filled the part that it counts and has left the rest as it was: the zeros are
put down only when every file has answered.
-/

namespace FlatVolume

variable {Handle Cache File σ : Type}

namespace Backing

/-- The report of a read agrees with what is in its buffer. -/
structure ReadReport (b : Backing Handle File σ) (v : Volume Handle Cache) (buffer : Bytes)
    (offset : Nat) (before : σ) (reading : Reading) (after : σ)
    (exchanges : List (Exchange Handle Cache)) : Prop where
  length_eq : reading.buffer.length = buffer.length
  filled : ∀ count, reading.outcome = .ok count → count = buffer.length ∧
    ∀ i < buffer.length,
      (offset + i < v.total → reading.buffer[i]? = (b.flat v before)[offset + i]?) ∧
      (v.total ≤ offset + i → reading.buffer[i]? = some 0)
  failed : ∀ failure, reading.outcome = .error failure →
    ∃ t cause, failure = .error (.io (offset + t) t cause) ∧
      t < buffer.length ∧ offset + t < v.total ∧
      (∀ i < t, reading.buffer[i]? = (b.flat v before)[offset + i]?) ∧
      reading.buffer.drop t = buffer.drop t
  fails_iff : (∃ failure, reading.outcome = .error failure) ↔ ∃ x ∈ exchanges, x.Fails
  asks : ∀ x ∈ exchanges, x.request.kind = .reading
  same : b.Same before after

variable {b : Backing Handle File σ} {host : Host Handle Cache σ} {v : Volume Handle Cache}
    {sound broken : σ → Prop} {buffer : Bytes} {offset : Nat} {before : σ}

/-- With a record, it is known from the state whether a file has failed. -/
theorem Reads.recorded (reads : b.Reads host v sound broken) :
    b.recorded.Reads host.recorded v (fun state => sound state.1 ∧ ∀ x ∈ state.2, ¬ x.Fails)
      (fun state => broken state.1 ∧ ∃ x ∈ state.2, x.Fails) where
  honest e window place state backs h := by
    have call := reads.honest e window place state.1 backs h.1
    exact ⟨call.counted_le, call.fills, call.same⟩
  goes e window place state backs h hstops := by
    refine ⟨reads.goes e window place state.1 backs h.1 hstops, ?_⟩
    intro x hx
    rcases List.mem_append.mp hx with hx | hx
    · exact h.2 x hx
    · obtain rfl := List.mem_singleton.mp hx
      rw [Exchange.fails_iff rfl]
      exact Bool.not_eq_true _ ▸ hstops
  breaks e window place state backs h hstops := by
    refine ⟨reads.breaks e window place state.1 backs h.1 hstops, _,
      List.mem_append_right _ List.mem_cons_self, ?_⟩
    rw [Exchange.fails_iff rfl]
    exact hstops

theorem Reads.steady {expected : Nat → Prop} (patience : Expected expected)
    (reads : b.Reads host v sound broken)
    (answered : ∀ e window place state, v.Backs e place window.length → sound state →
      ∃ count, expected count ∧
        Transfer.Answered host .reading e.handle place count window state) :
    v.Steady expected host .reading sound where
  patience := patience
  goes e window place state backs h := reads.goes e window place state backs h
  counted_le e window place state backs h := by
    have hcall := (reads.honest e window place state backs h).counted_le
    rw [← Transfer.counted_mapError] at hcall
    exact hcall
  unfaulted _ _ _ _ _ _ := Transfer.mapError_ne_fault _
  answered := answered

/-- Where no call is interrupted for ever, a read comes to its end. -/
theorem Reads.settles (reads : b.Reads host v sound broken)
    (answered : ∀ e window place state, v.Backs e place window.length → sound state →
      ∃ count, Transfer.Answered host .reading e.handle place count window state)
    (buffer : Bytes) (offset : Nat) {state : σ} (h : sound state) :
    ∃ reading after exchanges bound, reading.outcome ≠ .error (.fault .stalled) ∧
      ∀ patience, bound ≤ patience →
        (v.readFiles patience buffer offset).run host state = (reading, after) ∧
        (v.readFiles patience buffer offset).exchanges host state = exchanges := by
  have hanswered : ∀ e window place state, v.Backs e place window.length → sound state →
      ∃ count, True ∧ Transfer.Answered host .reading e.handle place count window state := by
    intro e window place state backs h
    obtain ⟨count, hcount⟩ := answered e window place state backs h
    exact ⟨count, trivial, hcount⟩
  have steady := reads.steady .all hanswered
  exact steady.settles_readFiles buffer offset h

/-- The ends of a read, told apart by the record of its calls. -/
theorem ReadEnds.report {reading : Reading} {after : σ × List (Exchange Handle Cache)}
    (hstalled : reading.outcome ≠ .error (.fault .stalled))
    (hasks : ∀ x ∈ after.2, x.request.kind = .reading)
    (h : b.recorded.ReadEnds v buffer offset (before, [])
      (fun state => sound state.1 ∧ ∀ x ∈ state.2, ¬ x.Fails)
      (fun state => broken state.1 ∧ ∃ x ∈ state.2, x.Fails) reading after) :
    b.ReadReport v buffer offset before reading after.1 after.2 := by
  have hflat : b.recorded.flat v (before, ([] : List (Exchange Handle Cache))) =
      b.flat v before := rfl
  have htotal := v.layout.total_lt
  cases h with
  | filled hsound hsame =>
    have hnone : ¬ ∃ x ∈ after.2, x.Fails := fun ⟨x, hx, hfails⟩ => hsound.2 x hx hfails
    refine ⟨FlatArray.length_read _ _ _, ?_, nofun, ⟨nofun, fun h => absurd h hnone⟩, hasks, hsame⟩
    rintro count ⟨⟩
    refine ⟨rfl, ?_⟩
    intro i hi
    rw [hflat, FlatArray.getElem?_read, if_pos hi, List.getD_eq_getElem?_getD]
    constructor
    · intro hinside
      have hbyte : offset + i < (b.flat v before).length := by
        rw [length_flat]
        exact hinside
      rw [List.getElem?_eq_getElem hbyte, Option.getD_some]
    · intro hpast
      have hend : (b.flat v before).length ≤ offset + i := by
        rw [length_flat]
        exact hpast
      rw [List.getElem?_eq_none hend, Option.getD_none]
  | @failed t cause _ hlt hinside hbroken hsame =>
    rw [hflat]
    have hfront : ((b.flat v before).window offset t).length = t := by
      rw [Bytes.length_window, length_flat]
      omega
    refine ⟨?_, nofun, ?_, ⟨fun _ => hbroken.2, fun _ => ⟨_, rfl⟩⟩, hasks, hsame⟩
    · rw [List.length_append, hfront, List.length_drop]
      omega
    · rintro failure ⟨⟩
      have hword : Word.addSat offset t = offset + t := by
        apply Word.addSat_of_lt
        unfold Volume.total at hinside
        omega
      refine ⟨t, cause, by rw [hword], hlt, hinside, ?_, List.drop_left' hfront⟩
      intro i hi
      rw [List.getElem?_append_left (by omega), Bytes.window, List.getElem?_take, if_pos hi,
        List.getElem?_drop]
  | stalled _ _ => exact absurd rfl hstalled

/-- Wherever a read has come to, its report agrees with what is in its buffer. -/
theorem Reads.report (reads : b.Reads host v sound broken) (h : sound before) {patience : Nat}
    {reading : Reading} {after : σ}
    (hrun : (v.readFiles patience buffer offset).run host before = (reading, after))
    (hstalled : reading.outcome ≠ .error (.fault .stalled)) :
    b.ReadReport v buffer offset before reading after
      ((v.readFiles patience buffer offset).exchanges host before) := by
  have hclean : sound (before, ([] : List (Exchange Handle Cache))).1 ∧
      ∀ x ∈ (before, ([] : List (Exchange Handle Cache))).2, ¬ x.Fails := ⟨h, by simp⟩
  have hwithin : (v.readFiles patience buffer offset).Within [.reading] :=
    v.within_readFiles List.mem_cons_self patience buffer offset
  have hends := reads.recorded.ends patience buffer offset hclean
  rw [Program.run_recorded, hrun, List.nil_append] at hends
  exact hends.report hstalled fun x hx => List.mem_singleton.mp (hwithin.kind_mem hx)

/-- A read through honest files ends, whatever they fail at. If it succeeds then its buffer is
filled, and if it fails then just what it counts is filled in and the rest is as it was. -/
theorem readFiles_report (reads : b.Reads host v sound sound)
    (answered : ∀ e window place state, v.Backs e place window.length → sound state →
      ∃ count, Transfer.Answered host .reading e.handle place count window state)
    (buffer : Bytes) (offset : Nat) {state : σ} (h : sound state) :
    ∃ reading after exchanges bound,
      (∀ patience, bound ≤ patience →
        (v.readFiles patience buffer offset).run host state = (reading, after) ∧
        (v.readFiles patience buffer offset).exchanges host state = exchanges) ∧
      b.ReadReport v buffer offset state reading after exchanges := by
  obtain ⟨reading, after, exchanges, bound, hstalled, hruns⟩ :=
    reads.settles answered buffer offset h
  obtain ⟨hrun, hexchanges⟩ := hruns bound (Nat.le_refl _)
  refine ⟨reading, after, exchanges, bound, hruns, ?_⟩
  rw [← hexchanges]
  exact reads.report h hrun hstalled

/-- A read of eight bytes that is interrupted, cut short and then finds that the third of three
files has ended too early, with two bytes behind the end of the volume still to come. -/
theorem readFiles_report_scheduled :
    let v : Volume Nat Empty :=
      ⟨⟨[⟨0, 2, 0⟩, ⟨2, 0, 1⟩, ⟨2, 5, 2⟩], 7, ⟨rfl, rfl, rfl, rfl⟩, by decide⟩, none⟩
    let s : Scheduled := ⟨fun file i => if file = 0 then 7 else UInt8.ofNat i,
      [.fails ⟨.interrupted, "interrupted"⟩, .upTo 1, .upTo 2, .upTo 0]⟩
    ∃ reading after exchanges bound,
      (∀ patience, bound ≤ patience →
        (v.readFiles patience [9, 9, 9, 9, 9, 9, 9, 9] 1).run Scheduled.host s = (reading, after) ∧
        (v.readFiles patience [9, 9, 9, 9, 9, 9, 9, 9] 1).exchanges Scheduled.host s =
          exchanges) ∧
      Scheduled.backing.ReadReport v [9, 9, 9, 9, 9, 9, 9, 9] 1 s reading after exchanges := by
  intro v s
  exact readFiles_report (Scheduled.reads v)
    (fun e window place state _ _ => Scheduled.answered e.handle place window state)
    [9, 9, 9, 9, 9, 9, 9, 9] 1 trivial

end Backing

end FlatVolume
