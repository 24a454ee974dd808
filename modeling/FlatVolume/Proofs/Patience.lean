import FlatVolume.Proofs.HonestFiles

/-!
# Enough patience

A call may be interrupted any number of times. Where no call is interrupted for ever, more
patience makes no difference from some patience on, and no request is then given up: the
loops that have no bound on the interruptions come to an end. Where none is interrupted at
all, patience makes no difference.
-/

namespace FlatVolume

variable {Handle Cache File σ α β : Type}

/-- A call that is repeated while it is interrupted is answered after so many interruptions. -/
inductive Transfer.Answered (host : Host Handle Cache σ) (direction : Direction) (handle : Handle)
    (place : Nat) : Nat → Bytes → σ → Prop where
  | now {window : Bytes} {state : σ} :
      isInterrupted ((call direction handle window place).run host state).1.2 = false →
      Answered host direction handle place 0 window state
  | later {count : Nat} {window : Bytes} {state : σ} :
      isInterrupted ((call direction handle window place).run host state).1.2 = true →
      Answered host direction handle place count
        ((call direction handle window place).run host state).1.1
        ((call direction handle window place).run host state).2 →
      Answered host direction handle place (count + 1) window state

/-- Numbers of interruptions, as many as are to be expected in a row. -/
structure Expected (expected : Nat → Prop) : Prop where
  zero : expected 0
  max : ∀ a b, expected a → expected b → expected (max a b)

/-- From an expected patience on, a program always runs to the same end. -/
def Program.Settles (expected : Nat → Prop) (host : Host Handle Cache σ)
    (program : Nat → Program Handle Cache α) (state : σ) (last : α × σ) : Prop :=
  ∃ bound, expected bound ∧ ∀ patience, bound ≤ patience →
    (program patience).run host state = last

theorem Expected.all : Expected fun _ => True :=
  ⟨trivial, fun _ _ _ _ => trivial⟩

namespace Program.Settles

variable {expected : Nat → Prop} {host : Host Handle Cache σ} {state : σ}

theorem of_eq (h : Expected expected) {program : Nat → Program Handle Cache α} {last : α × σ}
    (heq : ∀ patience, (program patience).run host state = last) :
    Settles expected host program state last :=
  ⟨0, h.zero, fun patience _ => heq patience⟩

theorem bind (h : Expected expected) {first : Nat → Program Handle Cache α}
    {next : Nat → α → Program Handle Cache β} {middle : α × σ} {last : β × σ}
    (hfirst : Settles expected host first state middle)
    (hnext : Settles expected host (fun patience => next patience middle.1) middle.2 last) :
    Settles expected host (fun patience => (first patience).bind (next patience)) state last := by
  obtain ⟨bound, hbound, hfirst⟩ := hfirst
  obtain ⟨bound', hbound', hnext⟩ := hnext
  refine ⟨max bound bound', h.max _ _ hbound hbound', fun patience hle => ?_⟩
  rw [Program.run_bind, hfirst patience (by omega)]
  exact hnext patience (by omega)

end Program.Settles

/-- In `sound` states a file, up to `stop`, does not count more than it was asked to move, refuse
to answer or interrupt more often in a row than is expected, and a call that does not end a
transfer leaves a sound state. -/
structure Transfer.Orderly (expected : Nat → Prop) (host : Host Handle Cache σ)
    (direction : Direction) (handle : Handle) (stop : Nat) (sound : σ → Prop) : Prop where
  patience : Expected expected
  goes : ∀ window place state, 0 < window.length → place + window.length ≤ stop → sound state →
    let reply := (call direction handle window place).run host state
    stops reply.1.2 = false → sound reply.2
  counted_le : ∀ window place state, 0 < window.length → place + window.length ≤ stop →
    sound state →
    let reply := (call direction handle window place).run host state
    counted reply.1.2 ≤ window.length
  unfaulted : ∀ window place state, 0 < window.length → place + window.length ≤ stop →
    sound state →
    let reply := (call direction handle window place).run host state
    ∀ fault, reply.1.2 ≠ .error (.fault fault)
  answered : ∀ window place state, 0 < window.length → place + window.length ≤ stop →
    sound state → ∃ count, expected count ∧ Answered host direction handle place count window state

/-- In `sound` states no file counts more than it was asked to move, refuses to answer or
interrupts more often in a row than is expected, and a call that does not end a transfer
leaves a sound state. -/
structure Volume.Steady (expected : Nat → Prop) (host : Host Handle Cache σ)
    (v : Volume Handle Cache) (direction : Direction) (sound : σ → Prop) : Prop where
  patience : Expected expected
  goes : ∀ e window place state, v.Backs e place window.length → sound state →
    let reply := (Transfer.call direction e.handle window place).run host state
    Transfer.stops reply.1.2 = false → sound reply.2
  counted_le : ∀ e window place state, v.Backs e place window.length → sound state →
    let reply := (Transfer.call direction e.handle window place).run host state
    Transfer.counted reply.1.2 ≤ window.length
  unfaulted : ∀ e window place state, v.Backs e place window.length → sound state →
    let reply := (Transfer.call direction e.handle window place).run host state
    ∀ fault, reply.1.2 ≠ .error (.fault fault)
  answered : ∀ e window place state, v.Backs e place window.length → sound state →
    ∃ count, expected count ∧ Transfer.Answered host direction e.handle place count window state

theorem Transfer.Answered.recorded {host : Host Handle Cache σ} {direction : Direction}
    {handle : Handle} {place count : Nat} {window : Bytes} {state : σ}
    (h : Answered host direction handle place count window state)
    (before : List (Exchange Handle Cache)) :
    Answered host.recorded direction handle place count window (state, before) := by
  induction h generalizing before with
  | @now window state hint =>
    refine .now ?_
    rw [Program.run_recorded]
    exact hint
  | @later count window state hint _ ih =>
    have hrun := Program.run_recorded host (call direction handle window place) state before
    refine .later ?_ ?_
    · rw [hrun]
      exact hint
    · rw [hrun]
      exact ih _

variable {expected : Nat → Prop} {host : Host Handle Cache σ} {v : Volume Handle Cache}
    {direction : Direction} {handle : Handle} {stop : Nat} {sound : σ → Prop} {e : Extent Handle}

/-- The file of an extent is orderly up to the length of the extent. -/
theorem Volume.Steady.orderly (steady : v.Steady expected host direction sound)
    (he : e ∈ v.layout.extents) :
    Transfer.Orderly expected host direction e.handle e.length sound where
  patience := steady.patience
  goes window place state hpos hfit := steady.goes e window place state ⟨he, hpos, hfit⟩
  counted_le window place state hpos hfit := steady.counted_le e window place state ⟨he, hpos, hfit⟩
  unfaulted window place state hpos hfit := steady.unfaulted e window place state ⟨he, hpos, hfit⟩
  answered window place state hpos hfit := steady.answered e window place state ⟨he, hpos, hfit⟩

/-- Keeping a record makes no difference to how steady the files are. -/
theorem Volume.Steady.recorded (steady : v.Steady expected host direction sound) :
    v.Steady expected host.recorded direction fun state => sound state.1 where
  patience := steady.patience
  goes e window place state backs h := by
    rw [Program.run_recorded]
    exact steady.goes e window place state.1 backs h
  counted_le e window place state backs h := by
    rw [Program.run_recorded]
    exact steady.counted_le e window place state.1 backs h
  unfaulted e window place state backs h := by
    rw [Program.run_recorded]
    exact steady.unfaulted e window place state.1 backs h
  answered e window place state backs h := by
    obtain ⟨count, hexpected, hcount⟩ := steady.answered e window place state.1 backs h
    exact ⟨count, hexpected, hcount.recorded state.2⟩

namespace Transfer

/-- Keeping a record makes no difference to how orderly a file is. -/
theorem Orderly.recorded (orderly : Orderly expected host direction handle stop sound) :
    Orderly expected host.recorded direction handle stop fun state => sound state.1 where
  patience := orderly.patience
  goes window place state hpos hfit h := by
    rw [Program.run_recorded]
    exact orderly.goes window place state.1 hpos hfit h
  counted_le window place state hpos hfit h := by
    rw [Program.run_recorded]
    exact orderly.counted_le window place state.1 hpos hfit h
  unfaulted window place state hpos hfit h := by
    rw [Program.run_recorded]
    exact orderly.unfaulted window place state.1 hpos hfit h
  answered window place state hpos hfit h := by
    obtain ⟨count, hexpected, hcount⟩ := orderly.answered window place state.1 hpos hfit h
    exact ⟨count, hexpected, hcount.recorded state.2⟩

theorem attempt_settles (orderly : Orderly expected host direction handle stop sound) {place : Nat}
    {window : Bytes} {state : σ} (hpos : 0 < window.length) (hfit : place + window.length ≤ stop)
    (h : sound state) :
    ∃ last, Program.Settles expected host
        (fun patience => attempt direction handle place patience window) state last ∧
      last.1.1.length = window.length ∧ counted last.1.2 ≤ window.length ∧
      (∀ fault, last.1.2 ≠ .error (.fault fault)) ∧ (stops last.1.2 = false → sound last.2) := by
  obtain ⟨count, hexpected, answered⟩ := orderly.answered window place state hpos hfit h
  suffices ∃ last, (∀ patience, count ≤ patience →
        (attempt direction handle place patience window).run host state = last) ∧
      last.1.1.length = window.length ∧ counted last.1.2 ≤ window.length ∧
      (∀ fault, last.1.2 ≠ .error (.fault fault)) ∧ (stops last.1.2 = false → sound last.2) by
    obtain ⟨last, hlast, hrest⟩ := this
    exact ⟨last, ⟨count, hexpected, hlast⟩, hrest⟩
  clear hexpected
  -- The interruptions come to an end before the patience does, so the induction is on them.
  induction answered with
  | @now window state hint =>
    refine ⟨_, fun patience _ => ?_, length_call host direction handle window place state,
      orderly.counted_le window place state hpos hfit h,
      orderly.unfaulted window place state hpos hfit h,
      orderly.goes window place state hpos hfit h⟩
    cases patience with
    | zero =>
      rw [run_attempt_zero]
      simp only [hint, Bool.false_eq_true, if_false]
    | succ patience =>
      rw [run_attempt_succ]
      simp only [hint, Bool.false_eq_true, if_false]
  | @later count window state hint _ ih =>
    have hlength := length_call host direction handle window place state
    obtain ⟨last, hlast, hrest⟩ := ih (by rw [hlength]; exact hpos) (by rw [hlength]; exact hfit)
      (orderly.goes window place state hpos hfit h (stops_of_isInterrupted hint))
    rw [hlength] at hrest
    refine ⟨last, fun patience hle => ?_, hrest⟩
    obtain ⟨patience, rfl⟩ := Nat.exists_eq_add_of_le' hle
    rw [show patience + (count + 1) = patience + count + 1 from rfl, run_attempt_succ]
    simp only [hint, if_true]
    exact hlast _ (Nat.le_add_left count patience)

theorem resume_settles (orderly : Orderly expected host direction handle stop sound)
    {offset attempts done : Nat} {window : Bytes} {state : σ}
    (hfit : offset + window.length ≤ stop) (h : sound state) :
    ∃ last, Program.Settles expected host
        (fun patience => resume direction patience handle offset attempts done window) state
        last ∧
      last.1.failure ≠ some (.fault .stalled) ∧ (last.1.failure = none → sound last.2) := by
  induction attempts generalizing done window state with
  | zero => exact ⟨_, .of_eq orderly.patience fun _ => rfl, by simp, fun _ => h⟩
  | succ attempts ih =>
    by_cases hdone : window.length ≤ done
    · refine ⟨(⟨window, done, none⟩, state), .of_eq orderly.patience fun patience => ?_,
        by simp, fun _ => h⟩
      rw [resume_eq_done hdone]
      rfl
    replace hdone := Nat.lt_of_not_le hdone
    simp only [resume_succ hdone]
    by_cases hfits : offset + done < wordBound
    · simp only [if_pos hfits]
      have hrest : (window.drop done).length = window.length - done := List.length_drop
      obtain ⟨first, hfirst, hlength, hcounted, hunfaulted, hsound⟩ :=
        attempt_settles orderly (show 0 < (window.drop done).length by omega)
          (show offset + done + (window.drop done).length ≤ stop by omega) h
      suffices ∃ last, Program.Settles expected host
            (fun patience => proceed direction patience handle offset attempts done
              (window.overlay done first.1.1) first.1.2) first.2 last ∧
          last.1.failure ≠ some (.fault .stalled) ∧ (last.1.failure = none → sound last.2) by
        obtain ⟨last, hlast, hrest⟩ := this
        exact ⟨last, hfirst.bind orderly.patience hlast, hrest⟩
      obtain ⟨⟨rest, outcome⟩, after⟩ := first
      cases outcome with
      | error failure =>
        refine ⟨_, .of_eq orderly.patience fun _ => rfl, fun hstalled => ?_, by simp⟩
        exact hunfaulted .stalled (congrArg Except.error (Option.some.inj hstalled))
      | ok count =>
        cases count with
        | zero => exact ⟨_, .of_eq orderly.patience fun _ => rfl, by simp, by simp⟩
        | succ count =>
          simp only [proceed]
          by_cases hsum : done + (count + 1) < wordBound
          · simp only [Checked.add_of_lt hsum]
            exact ih (by rw [Bytes.length_overlay]; exact hfit) (hsound rfl)
          · simp only [Checked.add_of_le (Nat.le_of_not_lt hsum)]
            exact ⟨_, .of_eq orderly.patience fun _ => rfl, by simp, by simp⟩
    · simp only [if_neg hfits]
      exact ⟨_, .of_eq orderly.patience fun _ => rfl, by simp, by simp⟩

theorem transfer_settles (orderly : Orderly expected host direction handle stop sound) {place : Nat}
    {window : Bytes} {state : σ} (hfit : place + window.length ≤ stop) (h : sound state) :
    ∃ last, Program.Settles expected host
        (fun patience => transfer direction patience handle place window) state last ∧
      last.1.failure ≠ some (.fault .stalled) ∧ (last.1.failure = none → sound last.2) :=
  resume_settles orderly hfit h

end Transfer

namespace Volume

theorem advance_ne_stalled {p : Progress} {t : Transfer} {w : WalkEnd}
    (h : t.failure ≠ some (.fault .stalled)) (hw : p.advance t = .error w) :
    w.failure ≠ some (.fault .stalled) := by
  obtain ⟨window, moved, failure⟩ := t
  simp only [Progress.advance] at hw
  split at hw
  · obtain rfl := Except.error.inj hw
    simpa using h
  · obtain rfl := Except.error.inj hw
    simp
  · obtain rfl := Except.error.inj hw
    simp
  · obtain rfl := Except.error.inj hw
    simp
  · cases hw

theorem advance_failure {p p' : Progress} {t : Transfer} (h : p.advance t = .ok p') :
    t.failure = none := by
  obtain ⟨window, moved, failure⟩ := t
  simp only [Progress.advance] at h
  split at h
  all_goals first | rfl | cases h

theorem walk_settles (steady : v.Steady expected host direction sound) (bound : stop < wordBound)
    {rest : List (Extent Handle)} (hrest : ∀ e ∈ rest, e ∈ v.layout.extents) {start : Nat}
    (tiles : Tiles start rest stop) {length offset : Nat} {p : Progress} (at_p : p.At length offset)
    (reached : p.moved < length → start ≤ p.offset) {state : σ} (h : sound state) :
    ∃ last, Program.Settles expected host (fun patience => walk direction patience rest p) state last ∧
      last.1.failure ≠ some (.fault .stalled) := by
  induction rest generalizing start p state with
  | nil => exact ⟨_, .of_eq steady.patience fun _ => rfl, by simp⟩
  | cons e rest ih =>
    obtain ⟨rfl, tiles⟩ := tiles
    have htail : ∀ e ∈ rest, e ∈ v.layout.extents := fun e he => hrest e (List.mem_cons_of_mem _ he)
    simp only [walk, at_p.length_buffer]
    by_cases hm : p.moved < length
    · have hle := reached hm
      have hbound := tiles.le
      simp only [if_pos hm, at_p.next_eq hm hle (by omega)]
      by_cases hlt : p.offset - e.start < e.length
      · simp only [if_pos hlt]
        have orderly := steady.orderly (hrest e List.mem_cons_self)
        have hwindow := Bytes.length_window p.buffer p.moved (e.length - (p.offset - e.start))
        have hfit : p.offset - e.start +
            (p.buffer.window p.moved (e.length - (p.offset - e.start))).length ≤ e.length := by omega
        obtain ⟨first, hfirst, hstalled, hsound⟩ := Transfer.transfer_settles orderly hfit h
        obtain ⟨patience, -, hrun⟩ := id hfirst
        have hpassed := extent_passed host direction patience at_p (by omega) hm hle hlt state
        dsimp only at hpassed hrun
        rw [hrun patience (Nat.le_refl patience)] at hpassed
        rcases hpassed with ⟨p', hadvance, at_p', reached'⟩ | ⟨w, hadvance⟩
        · obtain ⟨last, hlast, hrest⟩ := ih htail tiles at_p' reached' (hsound (advance_failure hadvance))
          refine ⟨last, hfirst.bind steady.patience ?_, hrest⟩
          simp only [hadvance]
          exact hlast
        · refine ⟨(w, first.2), hfirst.bind steady.patience (.of_eq steady.patience fun _ => ?_),
            advance_ne_stalled hstalled hadvance⟩
          simp only [hadvance]
          rfl
      · simp only [if_neg hlt]
        exact ih htail tiles at_p (fun _ => by omega) h
    · simp only [if_neg hm]
      exact ⟨_, .of_eq steady.patience fun _ => rfl, by simp⟩

/-- The walk for a whole request. -/
theorem request_settles (steady : v.Steady expected host direction sound) (buffer : Bytes)
    (offset : Nat) {state : σ} (h : sound state) :
    ∃ last, Program.Settles expected host
        (fun patience => walk direction patience (v.extentsFrom offset) (.start buffer offset))
        state last ∧
      last.1.failure ≠ some (.fault .stalled) := by
  obtain ⟨start, tiles, hle⟩ := v.layout.tiles_drop_find offset
  exact walk_settles steady v.layout.total_lt (fun e he => List.mem_of_mem_drop he) tiles
    (Progress.at_start buffer offset) (fun _ => hle) h

theorem writing_ne_stalled {w : WalkEnd} (h : w.failure ≠ some (.fault .stalled)) :
    w.writing ≠ .error (.fault .stalled) := by
  obtain ⟨p, failure⟩ := w
  cases failure with
  | some failure => simpa [WalkEnd.writing] using h
  | none =>
    by_cases hm : p.moved ≤ p.buffer.length
    · rw [WalkEnd.writing_of_le hm]
      split <;> simp
    · simp [WalkEnd.writing, Checked.sliceFrom_of_lt (Nat.lt_of_not_le hm)]

theorem reading_ne_stalled {w : WalkEnd} (h : w.failure ≠ some (.fault .stalled)) :
    w.reading.outcome ≠ .error (.fault .stalled) := by
  obtain ⟨p, failure⟩ := w
  cases failure with
  | some failure => simpa [WalkEnd.reading] using h
  | none =>
    by_cases hm : p.moved ≤ p.buffer.length
    · simp [WalkEnd.reading_of_le hm]
    · simp [WalkEnd.reading, Checked.sliceFrom_of_lt (Nat.lt_of_not_le hm)]

/-- From some patience on a request ends in the same way and makes the same calls. -/
theorem Steady.settles_request (steady : v.Steady expected host direction sound) (buffer : Bytes)
    (offset : Nat) {state : σ} (h : sound state) :
    ∃ stop after exchanges bound, stop.failure ≠ some (.fault .stalled) ∧
      ∀ patience, bound ≤ patience →
        (walk direction patience (v.extentsFrom offset) (.start buffer offset)).run host state =
          (stop, after) ∧
        (walk direction patience (v.extentsFrom offset) (.start buffer offset)).exchanges host
          state = exchanges := by
  have hclean : sound (state, ([] : List (Exchange Handle Cache))).1 := h
  obtain ⟨last, ⟨bound, -, hlast⟩, hstalled⟩ := request_settles steady.recorded buffer offset hclean
  refine ⟨last.1, last.2.1, last.2.2, bound, hstalled, ?_⟩
  intro patience hle
  have hrun := hlast patience hle
  rw [Program.run_recorded, List.nil_append] at hrun
  constructor
  · exact Prod.ext (congrArg (fun last => last.1) hrun) (congrArg (fun last => last.2.1) hrun)
  · exact congrArg (fun last => last.2.2) hrun

theorem Steady.settles_readFiles (steady : v.Steady expected host .reading sound) (buffer : Bytes)
    (offset : Nat) {state : σ} (h : sound state) :
    ∃ reading after exchanges bound, reading.outcome ≠ .error (.fault .stalled) ∧
      ∀ patience, bound ≤ patience →
        (v.readFiles patience buffer offset).run host state = (reading, after) ∧
        (v.readFiles patience buffer offset).exchanges host state = exchanges := by
  obtain ⟨stop, after, exchanges, bound, hstalled, hlast⟩ := steady.settles_request buffer offset h
  refine ⟨stop.reading, after, exchanges, bound, reading_ne_stalled hstalled, ?_⟩
  intro patience hle
  obtain ⟨hrun, hexchanges⟩ := hlast patience hle
  constructor
  · rw [run_readFiles, hrun]
  · rw [readFiles, Program.bind_eq, Program.exchanges_bind, hexchanges]
    exact List.append_nil _

theorem Steady.settles_writeFiles (steady : v.Steady expected host .writing sound) (data : Bytes)
    (offset : Nat) {state : σ} (h : sound state) :
    ∃ outcome after exchanges bound, outcome ≠ .error (.fault .stalled) ∧
      ∀ patience, bound ≤ patience →
        (v.writeFiles patience data offset).run host state = (outcome, after) ∧
        (v.writeFiles patience data offset).exchanges host state = exchanges := by
  obtain ⟨stop, after, exchanges, bound, hstalled, hlast⟩ := steady.settles_request data offset h
  refine ⟨stop.writing, after, exchanges, bound, writing_ne_stalled hstalled, ?_⟩
  intro patience hle
  obtain ⟨hrun, hexchanges⟩ := hlast patience hle
  constructor
  · rw [run_writeFiles, hrun]
  · rw [writeFiles, Program.bind_eq, Program.exchanges_bind, hexchanges]
    exact List.append_nil _

end Volume

end FlatVolume
