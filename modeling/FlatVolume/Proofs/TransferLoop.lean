import FlatVolume.Transfer

/-!
# What a transfer keeps

A transfer is a loop of calls on one file. To know what holds when it ends it is enough
to know what one call does: `going` is kept by every call after which the loop goes on,
and `stopped` holds after a call that ends it. Nothing is assumed about the file: it may
count more than it was asked to move.
-/

namespace FlatVolume.Transfer

variable {Handle Cache σ : Type}

/-- Whether an outcome ends a transfer: nothing was moved, or the file failed and was not
only interrupted. -/
def stops : Except (Failure IoError) Nat → Bool
  | .ok count => count = 0
  | .error failure => !isInterrupted (.error failure)

def stopFailure (direction : Direction) : Except (Failure IoError) Nat → Failure IoError
  | .ok _ => .error direction.standstill
  | .error failure => failure

/-- What a call leads to, by its outcome. -/
structure Leads (going : Nat → Bytes → σ → Prop)
    (stopped : Nat → Bytes → Except (Failure IoError) Nat → σ → Prop)
    (moved : Nat) (buffer : Bytes) (outcome : Except (Failure IoError) Nat) (state : σ) : Prop where
  interrupted : isInterrupted outcome = true → going moved buffer state
  advanced : ∀ count, outcome = .ok count → 0 < count → going (moved + count) buffer state
  ended : stops outcome = true → stopped moved buffer outcome state

/-- Each call of a transfer leads somewhere, with what has been passed in front of what it
leaves. -/
def CallsLead (host : Host Handle Cache σ) (direction : Direction) (handle : Handle)
    (length offset : Nat) (going : Nat → Bytes → σ → Prop)
    (stopped : Nat → Bytes → Except (Failure IoError) Nat → σ → Prop) : Prop :=
  ∀ done window state, window.length = length → done < length → going done window state →
    let reply := (call direction handle (window.drop done) (offset + done)).run host state
    Leads going stopped done (window.take done ++ reply.1.1) reply.1.2 reply.2

/-- How a transfer of `length` bytes from file position `offset` on ends. -/
inductive Ends (going : Nat → Bytes → σ → Prop)
    (stopped : Nat → Bytes → Except (Failure IoError) Nat → σ → Prop)
    (direction : Direction) (length offset : Nat) : Transfer → σ → Prop where
  | complete {window : Bytes} {moved : Nat} {state : σ} :
      length ≤ moved → going moved window state →
      Ends going stopped direction length offset ⟨window, moved, none⟩ state
  | ended {window : Bytes} {moved : Nat} {outcome : Except (Failure IoError) Nat} {state : σ} :
      moved < length → stops outcome = true → stopped moved window outcome state →
      Ends going stopped direction length offset
        ⟨window, moved, some (stopFailure direction outcome)⟩ state
  | stalled {window : Bytes} {moved : Nat} {state : σ} :
      moved < length → going moved window state →
      Ends going stopped direction length offset ⟨window, moved, some (.fault .stalled)⟩ state
  | overflowed {window : Bytes} {moved reached : Nat} {state : σ} :
      going reached window state → wordBound ≤ offset + reached →
      Ends going stopped direction length offset ⟨window, moved, some (.fault .overflow)⟩ state

variable {host : Host Handle Cache σ} {direction : Direction} {handle : Handle}

@[simp] theorem run_call_reading (window : Bytes) (offset : Nat) (state : σ) :
    (call .reading handle window offset).run host state =
      ((window.overlay 0
          (FileReading.bytes (host.answer (.readHandle handle window offset) state).1),
        (FileReading.outcome (host.answer (.readHandle handle window offset) state).1).mapError
          .error),
        (host.answer (.readHandle handle window offset) state).2) := rfl

@[simp] theorem run_call_writing (data : Bytes) (offset : Nat) (state : σ) :
    (call .writing handle data offset).run host state =
      ((data, (host.answer (.writeHandle handle data offset) state).1),
        (host.answer (.writeHandle handle data offset) state).2) := rfl

theorem length_call (host : Host Handle Cache σ) (direction : Direction) (handle : Handle)
    (window : Bytes) (offset : Nat) (state : σ) :
    ((call direction handle window offset).run host state).1.1.length = window.length := by
  cases direction <;> simp

theorem run_attempt_zero (offset : Nat) (window : Bytes) (state : σ) :
    (attempt direction handle offset 0 window).run host state =
      let first := (call direction handle window offset).run host state
      ((first.1.1, if isInterrupted first.1.2 then .error (.fault .stalled) else first.1.2),
        first.2) := by
  simp [attempt, Program.run_bind]

theorem run_attempt_succ (offset patience : Nat) (window : Bytes) (state : σ) :
    (attempt direction handle offset (patience + 1) window).run host state =
      let first := (call direction handle window offset).run host state
      if isInterrupted first.1.2 then
        (attempt direction handle offset patience first.1.1).run host first.2
      else first := by
  simp only [attempt, Program.bind_eq, Program.pure_eq, Program.run_bind]
  split <;> rfl

/-- A repeated call stalls, or ends as a call does that starts where the interrupted ones
have led. -/
theorem attempt_ends (going : Bytes → σ → Prop) {offset : Nat}
    (step : ∀ window state, going window state →
      isInterrupted ((call direction handle window offset).run host state).1.2 = true →
      going ((call direction handle window offset).run host state).1.1
        ((call direction handle window offset).run host state).2)
    (patience : Nat) {window : Bytes} {state : σ} (h : going window state) :
    let last := (attempt direction handle offset patience window).run host state
    (last.1.2 = .error (.fault .stalled) ∧ going last.1.1 last.2) ∨
      ∃ window' state', going window' state' ∧ isInterrupted last.1.2 = false ∧
        last = (call direction handle window' offset).run host state' := by
  induction patience generalizing window state with
  | zero =>
    rw [run_attempt_zero]
    dsimp only
    split
    · rename_i hi
      exact .inl ⟨rfl, step window state h hi⟩
    · rename_i hi
      exact .inr ⟨window, state, h, by simpa using hi, rfl⟩
  | succ patience ih =>
    rw [run_attempt_succ]
    dsimp only
    split
    · rename_i hi
      exact ih (step window state h hi)
    · rename_i hi
      exact .inr ⟨window, state, h, by simpa using hi, rfl⟩

/-- Where the next call goes is known as long as its place is a word. -/
theorem left_of_le {window : Bytes} {offset done : Nat} (h : done ≤ window.length) :
    left window offset done =
      if offset + done < wordBound then .ok (window.drop done, offset + done)
      else .error .overflow := by
  rw [left, Checked.sliceFrom_of_le h]
  split <;> rename_i hfits
  · rw [Checked.add_of_lt hfits]
    rfl
  · rw [Checked.add_of_le (Nat.le_of_not_lt hfits)]
    rfl

def proceed (direction : Direction) (patience : Nat) (handle : Handle) (offset attempts done : Nat)
    (window : Bytes) : Except (Failure IoError) Nat → Program Handle Cache Transfer
  | .error failure => .done ⟨window, done, some failure⟩
  | .ok 0 => .done ⟨window, done, some (.error direction.standstill)⟩
  | .ok (count + 1) =>
    match Checked.add done (count + 1) with
    | .error fault => .done ⟨window, done, some (.fault fault)⟩
    | .ok done => resume direction patience handle offset attempts done window

theorem resume_eq_done {patience offset attempts done : Nat} {window : Bytes}
    (h : window.length ≤ done) :
    (resume direction patience handle offset attempts done window : Program Handle Cache Transfer) =
      .done ⟨window, done, none⟩ := by
  cases attempts with
  | zero => rfl
  | succ attempts => rw [resume, if_neg (Nat.not_lt.mpr h)]; rfl

theorem resume_succ {patience offset attempts done : Nat} {window : Bytes}
    (h : done < window.length) :
    (resume direction patience handle offset (attempts + 1) done window :
        Program Handle Cache Transfer) =
      if offset + done < wordBound then
        (attempt direction handle (offset + done) patience (window.drop done)).bind fun last =>
          proceed direction patience handle offset attempts done (window.overlay done last.1) last.2
      else .done ⟨window, done, some (.fault .overflow)⟩ := by
  rw [resume, if_pos h, left_of_le (Nat.le_of_lt h)]
  by_cases hfits : offset + done < wordBound
  · rw [if_pos hfits, if_pos hfits]
    change Program.bind _ _ = _
    congr 1
    funext last
    obtain ⟨rest, outcome⟩ := last
    cases outcome with
    | error failure => rfl
    | ok count => cases count <;> rfl
  · rw [if_neg hfits, if_neg hfits]
    rfl

section Rule

variable {going : Nat → Bytes → σ → Prop}
    {stopped : Nat → Bytes → Except (Failure IoError) Nat → σ → Prop} {length offset : Nat}

theorem exhausted_ends {patience attempts done : Nat} {window : Bytes} {state : σ}
    (hdone : length ≤ done) (hlength : window.length = length) (h : going done window state) :
    let last := (resume direction patience handle offset attempts done window).run host state
    last.1.window.length = length ∧ Ends going stopped direction length offset last.1 last.2 := by
  rw [resume_eq_done (Nat.le_trans (Nat.le_of_eq hlength) hdone)]
  exact ⟨hlength, .complete hdone h⟩

theorem proceed_ends {patience attempts done : Nat} {window : Bytes}
    {outcome : Except (Failure IoError) Nat} {state : σ}
    (rest : ∀ count, outcome = .ok count → 0 < count → going (done + count) window state →
      let last := (resume direction patience handle offset attempts (done + count) window).run
        host state
      last.1.window.length = length ∧ Ends going stopped direction length offset last.1 last.2)
    (hlength : window.length = length) (hdone : done < length)
    (hint : isInterrupted outcome = false) (h : Leads going stopped done window outcome state) :
    let last := (proceed direction patience handle offset attempts done window outcome).run host state
    last.1.window.length = length ∧ Ends going stopped direction length offset last.1 last.2 := by
  cases outcome with
  | error failure =>
    have hstops : stops (.error failure) = true := by simp [stops, hint]
    exact ⟨hlength, .ended hdone hstops (h.ended hstops)⟩
  | ok count =>
    cases count with
    | zero =>
      have hstops : stops (.ok 0) = true := rfl
      exact ⟨hlength, .ended hdone hstops (h.ended hstops)⟩
    | succ count =>
      have hgoing := h.advanced (count + 1) rfl (Nat.succ_pos count)
      rw [proceed]
      by_cases hsum : done + (count + 1) < wordBound
      · rw [Checked.add_of_lt hsum]
        exact rest (count + 1) rfl (Nat.succ_pos count) hgoing
      · rw [Checked.add_of_le (Nat.le_of_not_lt hsum)]
        exact ⟨hlength, .overflowed hgoing (by omega)⟩

theorem call_leads (calls : CallsLead host direction handle length offset going stopped)
    {done : Nat} {front rest : Bytes} {state : σ} (hfront : front.length = done)
    (hdone : done < length) (hrest : rest.length = length - done) (h : going done (front ++ rest) state) :
    let reply := (call direction handle rest (offset + done)).run host state
    Leads going stopped done (front ++ reply.1.1) reply.1.2 reply.2 := by
  have hlead := calls done (front ++ rest) state (by rw [List.length_append]; omega) hdone h
  rw [List.drop_left' hfront, List.take_left' hfront] at hlead
  exact hlead

/-- A repeated call for the rest of a window stalls, or leads where a single one does. -/
theorem attempt_leads (calls : CallsLead host direction handle length offset going stopped)
    (patience : Nat) {done : Nat} {window : Bytes} {state : σ} (hlength : window.length = length)
    (hdone : done < length) (h : going done window state) :
    let last := (attempt direction handle (offset + done) patience (window.drop done)).run host state
    (last.1.2 = .error (.fault .stalled) ∧ going done (window.overlay done last.1.1) last.2) ∨
      isInterrupted last.1.2 = false ∧
        Leads going stopped done (window.overlay done last.1.1) last.1.2 last.2 := by
  intro last
  have hfront : (window.take done).length = done := by
    rw [List.length_take]
    omega
  have hcall : ∀ rest state, rest.length = length - done →
      going done (window.take done ++ rest) state →
      let reply := (call direction handle rest (offset + done)).run host state
      Leads going stopped done (window.take done ++ reply.1.1) reply.1.2 reply.2 :=
    fun rest state => call_leads calls hfront hdone
  have hlast := attempt_ends
    (fun rest state => rest.length = length - done ∧ going done (window.take done ++ rest) state)
    (fun rest state hk hi =>
      ⟨by rw [length_call]; exact hk.1, (hcall rest state hk.1 hk.2).interrupted hi⟩)
    patience ⟨by rw [List.length_drop, hlength], by rwa [List.take_append_drop]⟩
  rcases hlast with ⟨hout, hl, hg⟩ | ⟨rest₀, state₀, ⟨hl, hg⟩, hint, heq⟩
  · left
    rw [← Bytes.overlay_of_length (by omega)] at hg
    exact ⟨hout, hg⟩
  · right
    have hleads := hcall rest₀ state₀ hl hg
    have hl' := length_call host direction handle rest₀ (offset + done) state₀
    dsimp only at hleads
    rw [← heq] at hleads hl'
    rw [← Bytes.overlay_of_length (by omega)] at hleads
    exact ⟨hint, hleads⟩

theorem resume_ends (calls : CallsLead host direction handle length offset going stopped)
    {patience attempts done : Nat} {window : Bytes} {state : σ}
    (hlength : window.length = length) (hattempts : length ≤ done + attempts)
    (h : going done window state) :
    let last := (resume direction patience handle offset attempts done window).run host state
    last.1.window.length = length ∧ Ends going stopped direction length offset last.1 last.2 := by
  -- An attempt is left for each byte: a call after which the loop goes on has moved one.
  induction attempts generalizing done window state with
  | zero => exact exhausted_ends hattempts hlength h
  | succ attempts ih =>
    by_cases hdone : length ≤ done
    · exact exhausted_ends hdone hlength h
    replace hdone := Nat.lt_of_not_le hdone
    rw [resume_succ (by omega)]
    split
    · have hlast := attempt_leads calls patience hlength hdone h
      rw [Program.run_bind]
      dsimp only at hlast
      generalize (attempt direction handle (offset + done) patience (window.drop done)).run host
        state = last at hlast
      have hlaid : (window.overlay done last.1.1).length = length := by
        rw [Bytes.length_overlay, hlength]
      rcases hlast with ⟨hout, hg⟩ | ⟨hint, hleads⟩
      · rw [hout]
        exact ⟨hlaid, .stalled hdone hg⟩
      · refine proceed_ends (fun count _ hcount hgoing => ?_) hlaid hdone hint hleads
        exact ih hlaid (by omega) hgoing
    · exact ⟨hlength, .overflowed h (by omega)⟩

theorem transfer_ends {window : Bytes}
    (calls : CallsLead host direction handle length offset going stopped)
    {patience : Nat} {state : σ} (hlength : window.length = length) (h : going 0 window state) :
    let last := (transfer direction patience handle offset window).run host state
    last.1.window.length = length ∧ Ends going stopped direction length offset last.1 last.2 :=
  resume_ends calls hlength (by omega) h

end Rule

end FlatVolume.Transfer
