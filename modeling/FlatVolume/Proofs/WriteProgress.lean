import FlatVolume.Proofs.Schedule

/-!
# What a write says it has done

The count and the offset that a write reports are those of the bytes that are really in the
files, wherever it has stopped: at a failure of a file, at a byte behind the end of the
volume that is not zero, or after all of its data.
-/

namespace FlatVolume

variable {Handle Cache File σ : Type}

def VolumeError.offset? : VolumeError → Option Nat
  | io offset _ _ | nonZeroTrailingData offset _ => some offset
  | _ => none

def Volume.IsIo (outcome : Except (Failure VolumeError) Nat) : Prop :=
  ∃ offset transferred cause, outcome = .error (.error (.io offset transferred cause))

def Volume.IsTrailing (outcome : Except (Failure VolumeError) Nat) : Prop :=
  ∃ offset accepted, outcome = .error (.error (.nonZeroTrailingData offset accepted))

/-- The error that is reported, if one is. -/
def Volume.failure? : Except (Failure VolumeError) Nat → Option VolumeError
  | .error (.error e) => some e
  | _ => none

section Failures

variable {outcome : Except (Failure VolumeError) Nat}

/-- Where there is no fault, to fail is to report an error. -/
theorem Volume.eq_error_iff (unfaulted : ∀ fault, outcome ≠ .error (.fault fault))
    (failure : Failure VolumeError) :
    outcome = .error failure ↔ ∃ e, failure = .error e ∧ failure? outcome = some e := by
  cases houtcome : outcome with
  | ok count => simp [failure?]
  | error reported =>
    cases reported with
    | error e => simp [failure?, eq_comm]
    | fault fault => exact absurd houtcome (unfaulted fault)

theorem Volume.failure?_eq_none_iff (unfaulted : ∀ fault, outcome ≠ .error (.fault fault)) :
    failure? outcome = none ↔ ¬ ∃ failure, outcome = .error failure := by
  rw [Option.eq_none_iff_forall_ne_some]
  constructor
  · rintro h ⟨failure, houtcome⟩
    obtain ⟨e, -, he⟩ := (eq_error_iff unfaulted failure).mp houtcome
    exact h e he
  · intro h e he
    exact h ⟨_, (eq_error_iff unfaulted _).mpr ⟨e, rfl, he⟩⟩

end Failures

/-- How many bytes of `data` a write says are written. -/
def Volume.transferred (data : Bytes) : Except (Failure VolumeError) Nat → Nat
  | .ok _ => data.length
  | .error (.error e) => e.transferred
  | .error (.fault _) => 0

namespace Backing

/-- The report of a write agrees with what it has done. -/
structure WriteReport (b : Backing Handle File σ) (v : Volume Handle Cache) (data : Bytes)
    (offset : Nat) (before : σ) (outcome : Except (Failure VolumeError) Nat) (after : σ)
    (exchanges : List (Exchange Handle Cache)) : Prop where
  overlaid : b.Overlaid v before after offset (data.take (Volume.transferred data outcome))
  transferred_lt : ∀ e, outcome = .error (.error e) → Volume.transferred data outcome < data.length
  offset_eq : ∀ e, outcome = .error (.error e) →
    e.offset? = some (Word.addSat offset (Volume.transferred data outcome))
  io_iff : Volume.IsIo outcome ↔ ∃ x ∈ exchanges, x.Fails
  io_inside : Volume.IsIo outcome → offset + Volume.transferred data outcome < v.total
  trailing_iff : (¬ ∃ x ∈ exchanges, x.Fails) → (Volume.IsTrailing outcome ↔
    ∃ i < data.length, v.total ≤ offset + i ∧ data.getD i 0 ≠ 0)
  trailing_first : Volume.IsTrailing outcome →
    v.total ≤ offset + Volume.transferred data outcome ∧
      data.getD (Volume.transferred data outcome) 0 ≠ 0 ∧
      ∀ i < Volume.transferred data outcome, v.total ≤ offset + i → data.getD i 0 = 0
  otherwise : ¬ Volume.IsIo outcome → ¬ Volume.IsTrailing outcome → outcome = .ok data.length

/-- The files as a host has them that keeps a record. -/
def recorded (b : Backing Handle File σ) :
    Backing Handle File (σ × List (Exchange Handle Cache)) :=
  ⟨b.file, fun state => b.byte state.1⟩

variable {b : Backing Handle File σ} {host : Host Handle Cache σ} {v : Volume Handle Cache}
    {sound broken : σ → Prop}

/-- With a record, it is known from the state whether a file has failed. -/
theorem Writes.recorded (writes : b.Writes host v sound broken) :
    b.recorded.Writes host.recorded v (fun state => sound state.1 ∧ ∀ x ∈ state.2, ¬ x.Fails)
      (fun state => broken state.1 ∧ ∃ x ∈ state.2, x.Fails) where
  honest e data place state backs h := by
    have call := writes.honest e data place state.1 backs h.1
    exact ⟨call.counted_le, ⟨call.lays.laid, call.lays.kept⟩, call.unfaulted⟩
  goes e data place state backs h hstops := by
    refine ⟨writes.goes e data place state.1 backs h.1 hstops, fun x hx => ?_⟩
    rcases List.mem_append.mp hx with hx | hx
    · exact h.2 x hx
    · obtain rfl := List.mem_singleton.mp hx
      rw [Exchange.fails_iff rfl]
      exact Bool.not_eq_true _ ▸ hstops
  breaks e data place state backs h hstops := by
    refine ⟨writes.breaks e data place state.1 backs h.1 hstops, _,
      List.mem_append_right _ List.mem_cons_self, ?_⟩
    rw [Exchange.fails_iff rfl]
    exact hstops

theorem Writes.steady {expected : Nat → Prop} (patience : Expected expected)
    (writes : b.Writes host v sound broken)
    (answered : ∀ e data place state, v.Backs e place data.length → sound state →
      ∃ count, expected count ∧ Transfer.Answered host .writing e.handle place count data state) :
    v.Steady expected host .writing sound where
  patience := patience
  goes e data place state backs h := writes.goes e data place state backs h
  counted_le e data place state backs h := (writes.honest e data place state backs h).counted_le
  unfaulted e data place state backs h := (writes.honest e data place state backs h).unfaulted
  answered := answered

theorem Writes.settles (writes : b.Writes host v sound broken)
    (answered : ∀ e data place state, v.Backs e place data.length → sound state →
      ∃ count, Transfer.Answered host .writing e.handle place count data state)
    (data : Bytes) (offset : Nat) {state : σ} (h : sound state) :
    ∃ outcome after exchanges bound, outcome ≠ .error (.fault .stalled) ∧
      ∀ patience, bound ≤ patience →
        (v.writeFiles patience data offset).run host state = (outcome, after) ∧
        (v.writeFiles patience data offset).exchanges host state = exchanges := by
  have hanswered : ∀ e data place state, v.Backs e place data.length → sound state →
      ∃ count, True ∧ Transfer.Answered host .writing e.handle place count data state := by
    intro e data place state backs h
    obtain ⟨count, hcount⟩ := answered e data place state backs h
    exact ⟨count, trivial, hcount⟩
  have steady := writes.steady .all hanswered
  exact steady.settles_writeFiles data offset h

variable {data : Bytes} {offset : Nat} {before : σ}

/-- The ends of a write, told apart by the record of its calls. -/
theorem WriteEnds.report {outcome : Except (Failure VolumeError) Nat}
    {after : σ × List (Exchange Handle Cache)} (hstalled : outcome ≠ .error (.fault .stalled))
    (h : b.recorded.WriteEnds v data offset (before, [])
      (fun state => sound state.1 ∧ ∀ x ∈ state.2, ¬ x.Fails)
      (fun state => broken state.1 ∧ ∃ x ∈ state.2, x.Fails) outcome after) :
    b.WriteReport v data offset before outcome after.1 after.2 := by
  cases h with
  | stored htrailing hsound hlaid =>
    have hnone : ¬ ∃ x ∈ after.2, x.Fails := fun ⟨x, hx, hfails⟩ => hsound.2 x hx hfails
    have hzeros := FlatArray.trailing?_eq_none_iff.mp htrailing
    refine ⟨?_, nofun, nofun, ⟨nofun, fun h => absurd h hnone⟩, nofun, fun _ => ⟨nofun, ?_⟩,
      nofun, fun _ _ => rfl⟩
    · rw [Volume.transferred, List.take_length]
      exact ⟨hlaid.flat_eq, hlaid.outside⟩
    · rintro ⟨i, hi, hpast, hne⟩
      exact absurd (hzeros i hi hpast) hne
  | @refused t _ htrailing hsound hlaid =>
    have hnone : ¬ ∃ x ∈ after.2, x.Fails := fun ⟨x, hx, hfails⟩ => hsound.2 x hx hfails
    obtain ⟨hlt, hpast, hne, hfirst⟩ := FlatArray.trailing?_eq_some_iff.mp htrailing
    refine ⟨⟨hlaid.flat_eq, hlaid.outside⟩, fun _ _ => hlt, ?_,
      ⟨nofun, fun h => absurd h hnone⟩, nofun, fun _ => ⟨fun _ => ⟨t, hlt, hpast, hne⟩,
      fun _ => ⟨_, _, rfl⟩⟩, fun _ => ⟨hpast, hne, hfirst⟩,
      fun _ htrailing => absurd ⟨_, _, rfl⟩ htrailing⟩
    rintro e ⟨⟩
    rfl
  | @failed t cause _ hlt hinside hbroken hlaid =>
    refine ⟨⟨hlaid.flat_eq, hlaid.outside⟩, fun _ _ => hlt, ?_,
      ⟨fun _ => hbroken.2, fun _ => ⟨_, _, _, rfl⟩⟩, fun _ => hinside,
      fun hnone => absurd hbroken.2 hnone, nofun, fun hio => absurd ⟨_, _, _, rfl⟩ hio⟩
    rintro e ⟨⟩
    rfl
  | stalled => exact absurd rfl hstalled

/-- Wherever a write has come to, its report agrees with what it has done. -/
theorem Writes.report (distinct : b.Distinct v) (writes : b.Writes host v sound broken)
    (h : sound before) {patience : Nat} {outcome : Except (Failure VolumeError) Nat} {after : σ}
    (hrun : (v.writeFiles patience data offset).run host before = (outcome, after))
    (hstalled : outcome ≠ .error (.fault .stalled)) :
    b.WriteReport v data offset before outcome after
      ((v.writeFiles patience data offset).exchanges host before) := by
  have hclean : sound (before, ([] : List (Exchange Handle Cache))).1 ∧
      ∀ x ∈ (before, ([] : List (Exchange Handle Cache))).2, ¬ x.Fails := ⟨h, by simp⟩
  have hdistinct : (Backing.recorded b :
      Backing Handle File (σ × List (Exchange Handle Cache))).Distinct v := distinct
  have hends := writes.recorded.ends hdistinct patience data offset hclean
  rw [Program.run_recorded, hrun, List.nil_append] at hends
  exact hends.report hstalled

end Backing

end FlatVolume
