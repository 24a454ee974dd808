import FlatVolume.Proofs.Schedule

/-!
# Transfers that are split

A file may serve a transfer in any number of calls and interrupt it in between. The calls are
known from the replies, one after the other, and so is what the transfer reports in the end. Over
a file that holds a byte string the report, the window and the bytes are the same however the
transfer has been split.
-/

namespace FlatVolume

namespace Bytes

/-- Puts `data` at `place`, with zeros in between where `b` ends before that. -/
def store (b : Bytes) (place : Nat) : Bytes → Bytes
  | [] => b
  | data => (b.extend (place + data.length)).overlay place data

theorem store_of_ne_nil {b data : Bytes} {place : Nat} (h : data ≠ []) :
    b.store place data = (b.extend (place + data.length)).overlay place data := by
  cases data with
  | nil => exact absurd rfl h
  | cons byte rest => rfl

theorem store_append (b : Bytes) (place : Nat) (front back : Bytes) :
    (b.store place front).store (place + front.length) back = b.store place (front ++ back) := by
  by_cases hfront : front = []
  · rw [hfront]
    rfl
  by_cases hback : back = []
  · rw [hback, List.append_nil]
    rfl
  have happend : front ++ back ≠ [] := List.append_ne_nil_of_left_ne_nil hfront back
  have hroom : place + front.length ≤ (b.extend (place + front.length)).length := by
    rw [length_extend]
    exact Nat.le_max_right _ _
  rw [store_of_ne_nil hfront, store_of_ne_nil hback, store_of_ne_nil happend,
    extend_overlay _ hroom, extend_extend b (Nat.le_add_right _ _), overlay_append,
    List.length_append, Nat.add_assoc]

theorem store_of_le {b data : Bytes} {place : Nat} (h : place + data.length ≤ b.length) :
    b.store place data = b.overlay place data := by
  by_cases hdata : data = []
  · rw [hdata, overlay_nil]
    rfl
  · rw [store_of_ne_nil hdata, extend_of_le h]

end Bytes

namespace Transfer

variable {Handle Cache σ : Type}

/-- The call is for all that is still to be moved, at the place where that belongs. -/
structure Asks (direction : Direction) (handle : Handle) (offset done : Nat) (buffer : Bytes)
    (x : Exchange Handle Cache) : Prop where
  lt : done < buffer.length
  request : x.request = .move direction handle (buffer.drop done) (offset + done)

/-- The calls after which a transfer goes on, the bytes that they have moved, and the window as the
replies have left it. -/
inductive Course (direction : Direction) (handle : Handle) (offset : Nat) (window : Bytes) :
    List (Exchange Handle Cache) → Nat → Bytes → Prop where
  | start : Course direction handle offset window [] 0 window
  | interrupted {exchanges : List (Exchange Handle Cache)} {done : Nat} {buffer : Bytes}
      {x : Exchange Handle Cache} {e : IoError} :
      Course direction handle offset window exchanges done buffer →
      Asks direction handle offset done buffer x →
      x.outcome? = some (.error (.error e)) → e.kind = .interrupted →
      Course direction handle offset window (exchanges ++ [x]) done (buffer.overlay done x.laid)
  | advanced {exchanges : List (Exchange Handle Cache)} {done : Nat} {buffer : Bytes}
      {x : Exchange Handle Cache} {count : Nat} :
      Course direction handle offset window exchanges done buffer →
      Asks direction handle offset done buffer x →
      x.outcome? = some (.ok count) → 0 < count →
      Course direction handle offset window (exchanges ++ [x]) (done + count)
        (buffer.overlay done x.laid)

/-- The kind of error for a call that moves nothing: a read has come to the end of its file, a
write has stored no byte. -/
def endKind : Direction → IoKind
  | .reading => .unexpectedEof
  | .writing => .writeZero

/-- What a transfer reports after its calls. It ends when its window is done, or else with the
first call that moves nothing or fails. -/
inductive Reports (direction : Direction) (handle : Handle) (offset : Nat) (window : Bytes) :
    List (Exchange Handle Cache) → Transfer → Prop where
  | complete {exchanges : List (Exchange Handle Cache)} {buffer : Bytes} :
      Course direction handle offset window exchanges window.length buffer →
      Reports direction handle offset window exchanges ⟨buffer, window.length, none⟩
  | standstill {exchanges : List (Exchange Handle Cache)} {done : Nat} {buffer : Bytes}
      {x : Exchange Handle Cache} :
      Course direction handle offset window exchanges done buffer →
      Asks direction handle offset done buffer x → x.outcome? = some (.ok 0) →
      Reports direction handle offset window (exchanges ++ [x])
        ⟨buffer.overlay done x.laid, done,
          some (.error ⟨endKind direction, direction.standstill.message⟩)⟩
  | failed {exchanges : List (Exchange Handle Cache)} {done : Nat} {buffer : Bytes}
      {x : Exchange Handle Cache} {e : IoError} :
      Course direction handle offset window exchanges done buffer →
      Asks direction handle offset done buffer x →
      x.outcome? = some (.error (.error e)) → e.kind ≠ .interrupted →
      Reports direction handle offset window (exchanges ++ [x])
        ⟨buffer.overlay done x.laid, done, some (.error e)⟩

/-- Given the patience, a transfer makes these calls and comes to this end. More patience makes no
difference, so it does not stop for want of it. -/
def ComesTo (host : Host Handle Cache σ) (direction : Direction) (handle : Handle) (offset : Nat)
    (window : Bytes) (state : σ) (exchanges : List (Exchange Handle Cache)) (last : Transfer)
    (after : σ) : Prop :=
  ∃ bound, ∀ patience, bound ≤ patience →
    (transfer direction patience handle offset window).run host state = (last, after) ∧
    (transfer direction patience handle offset window).exchanges host state = exchanges

/-- The first `count` bytes of a window have been moved from a file that holds a byte string, or
to it. -/
def Moved (direction : Direction) (place count : Nat) (before window left after : Bytes) : Prop :=
  match direction with
  | .reading => left.take count = before.window place count ∧ after = before
  | .writing => left = window ∧ after = before.store place (window.take count)

/-- In `sound` states a file holds a byte string up to `stop`: a call that does not end a transfer
has moved what it counts. -/
def Holds (host : Host Handle Cache σ) (direction : Direction) (handle : Handle) (stop : Nat)
    (sound : σ → Prop) (contents : σ → Bytes) : Prop :=
  ∀ window place state, 0 < window.length → place + window.length ≤ stop → sound state →
    let reply := (call direction handle window place).run host state
    stops reply.1.2 = false →
      Moved direction place (counted reply.1.2) (contents state) window reply.1.1 (contents reply.2)

/-- A transfer over some file that has held `before` comes to this end, and the file then holds
`after`. Each call has moved something or was interrupted. -/
inductive Passes (direction : Direction) (offset : Nat) (window before : Bytes) :
    Transfer → Bytes → Prop where
  | intro {Handle Cache σ : Type} {expected : Nat → Prop} {host : Host Handle Cache σ}
      {handle : Handle} {sound : σ → Prop} {contents : σ → Bytes} {state after : σ}
      {exchanges : List (Exchange Handle Cache)} {last : Transfer} :
      Orderly expected host direction handle (offset + window.length) sound →
      Holds host direction handle (offset + window.length) sound contents →
      sound state → contents state = before →
      ComesTo host direction handle offset window state exchanges last after →
      (∀ x ∈ exchanges, ¬ x.Fails) →
      Passes direction offset window before last (contents after)

variable {host : Host Handle Cache σ} {direction : Direction} {handle : Handle} {offset : Nat}
    {window : Bytes} {expected : Nat → Prop} {sound : σ → Prop} {contents : σ → Bytes} {state : σ}

theorem isInterrupted_iff {outcome : Except (Failure IoError) Nat} :
    isInterrupted outcome = true ↔
      ∃ e : IoError, outcome = .error (.error e) ∧ e.kind = .interrupted := by
  constructor
  · intro h
    cases outcome with
    | ok count => cases h
    | error failure =>
      cases failure with
      | error e => exact ⟨e, rfl, of_decide_eq_true h⟩
      | fault f => cases h
  · rintro ⟨e, rfl, he⟩
    exact decide_eq_true he

section Calls

variable {exchanges : List (Exchange Handle Cache)} {done : Nat} {buffer : Bytes}

theorem Course.length_eq (course : Course direction handle offset window exchanges done buffer) :
    buffer.length = window.length := by
  induction course with
  | start => rfl
  | interrupted _ _ _ _ ih => rw [Bytes.length_overlay, ih]
  | advanced _ _ _ _ ih => rw [Bytes.length_overlay, ih]

theorem Course.not_fails (course : Course direction handle offset window exchanges done buffer) :
    ∀ x ∈ exchanges, ¬ x.Fails := by
  induction course with
  | start => simp
  | interrupted _ _ houtcome he ih =>
    intro x hx
    rcases List.mem_append.mp hx with hx | hx
    · exact ih x hx
    · obtain rfl := List.mem_singleton.mp hx
      rw [Exchange.fails_iff houtcome]
      simp [stops, isInterrupted, he]
  | advanced _ _ houtcome hpos ih =>
    intro x hx
    rcases List.mem_append.mp hx with hx | hx
    · exact ih x hx
    · obtain rfl := List.mem_singleton.mp hx
      rw [Exchange.fails_iff houtcome]
      simp [stops, Nat.pos_iff_ne_zero.mp hpos]

end Calls

theorem rest_fits {buffer : Bytes} {done : Nat} (hlength : buffer.length = window.length)
    (hdone : done < window.length) (offset : Nat) :
    0 < (buffer.drop done).length ∧
      offset + done + (buffer.drop done).length ≤ offset + window.length := by
  rw [List.length_drop]
  omega

theorem Orderly.next
    (orderly : Orderly expected host direction handle (offset + window.length) sound)
    {buffer : Bytes} {done : Nat} (hlength : buffer.length = window.length)
    (hdone : done < window.length) (h : sound state) :
    let reply := (call direction handle (buffer.drop done) (offset + done)).run host state
    done + counted reply.1.2 ≤ window.length ∧ (∀ fault, reply.1.2 ≠ .error (.fault fault)) ∧
      (stops reply.1.2 = false → sound reply.2) := by
  obtain ⟨hpos, hfit⟩ := rest_fits hlength hdone offset
  have hcounted := orderly.counted_le (buffer.drop done) (offset + done) state hpos hfit h
  refine ⟨?_, orderly.unfaulted _ _ state hpos hfit h, orderly.goes _ _ state hpos hfit h⟩
  dsimp only at hcounted
  omega

/-- What is kept while a transfer goes on that keeps a record of its calls. -/
def OnCourse (direction : Direction) (handle : Handle) (offset : Nat) (window : Bytes)
    (sound : σ → Prop) (done : Nat) (buffer : Bytes) (s : σ × List (Exchange Handle Cache)) : Prop :=
  Course direction handle offset window s.2 done buffer ∧ done ≤ window.length ∧ sound s.1

/-- What holds after the call that ends a transfer before its window is done. -/
def AtStop (direction : Direction) (handle : Handle) (offset : Nat) (window : Bytes) (moved : Nat)
    (left : Bytes) (outcome : Except (Failure IoError) Nat)
    (s : σ × List (Exchange Handle Cache)) : Prop :=
  Reports direction handle offset window s.2 ⟨left, moved, some (stopFailure direction outcome)⟩

theorem Course.leads {exchanges : List (Exchange Handle Cache)} {done : Nat} {buffer : Bytes}
    (course : Course direction handle offset window exchanges done buffer)
    {x : Exchange Handle Cache} (hasks : Asks direction handle offset done buffer x)
    {outcome : Except (Failure IoError) Nat} {after : σ} (houtcome : x.outcome? = some outcome)
    (hcounted : done + counted outcome ≤ window.length)
    (hunfaulted : ∀ fault, outcome ≠ .error (.fault fault))
    (hsound : stops outcome = false → sound after) :
    Leads (OnCourse direction handle offset window sound) (AtStop direction handle offset window)
      done (buffer.overlay done x.laid) outcome (after, exchanges ++ [x]) where
  interrupted hint := by
    obtain ⟨e, rfl, he⟩ := isInterrupted_iff.mp hint
    exact ⟨.interrupted course hasks houtcome he, hcounted, hsound (stops_of_isInterrupted hint)⟩
  advanced count hcount hpos := by
    subst hcount
    refine ⟨.advanced course hasks houtcome hpos, hcounted, hsound ?_⟩
    exact decide_eq_false (Nat.pos_iff_ne_zero.mp hpos)
  ended hstops := by
    cases outcome with
    | ok count =>
      obtain rfl : count = 0 := of_decide_eq_true hstops
      have hkind : direction.standstill = ⟨endKind direction, direction.standstill.message⟩ := by
        cases direction <;> rfl
      rw [AtStop, stopFailure, hkind]
      exact .standstill course hasks houtcome
    | error failure =>
      cases failure with
      | fault fault => exact absurd rfl (hunfaulted fault)
      | error e =>
        apply Reports.failed course hasks houtcome
        simpa [stops, isInterrupted] using hstops

theorem OnCourse.call
    (orderly : Orderly expected host direction handle (offset + window.length) sound)
    {done : Nat} {buffer : Bytes} {s : σ × List (Exchange Handle Cache)} (hdone : done < window.length)
    (h : OnCourse direction handle offset window sound done buffer s) :
    let reply := (call direction handle (buffer.drop done) (offset + done)).run host.recorded s
    Leads (OnCourse direction handle offset window sound) (AtStop direction handle offset window)
      done (buffer.take done ++ reply.1.1) reply.1.2 reply.2 := by
  obtain ⟨before, record⟩ := s
  obtain ⟨course, -, hsound⟩ := h
  have hlength := course.length_eq
  obtain ⟨x, hrequest, -, hlaid, houtcome, hleft, hrun⟩ :=
    run_call_recorded host direction handle (buffer.drop done) (offset + done) before record
  obtain ⟨hcounted, hunfaulted, hgoes⟩ := orderly.next hlength hdone hsound
  intro reply
  simp only [reply, hrun]
  rw [hleft, Bytes.take_append_overlay (by omega) hlaid]
  exact course.leads ⟨by omega, hrequest⟩ houtcome hcounted hunfaulted hgoes

/-- A transfer that is not given up reports just what its calls have come to. -/
theorem run_reports (hfits : offset + window.length < wordBound)
    (orderly : Orderly expected host direction handle (offset + window.length) sound)
    (h : sound state) {patience : Nat} {last : Transfer} {after : σ}
    (hrun : (transfer direction patience handle offset window).run host state = (last, after))
    (hstalled : last.failure ≠ some (.fault .stalled)) :
    Reports direction handle offset window
      ((transfer direction patience handle offset window).exchanges host state) last := by
  have hstart : OnCourse direction handle offset window sound 0 window
      (state, ([] : List (Exchange Handle Cache))) := ⟨.start, Nat.zero_le _, h⟩
  have hends : ∀ last, (transfer direction patience handle offset window).run host.recorded
      (state, []) = last →
      Ends (OnCourse direction handle offset window sound) (AtStop direction handle offset window)
        direction window.length offset last.1 last.2 := by
    rintro _ rfl
    exact (transfer_ends (fun _ _ _ _ hdone hgoing => hgoing.call orderly hdone) rfl hstart).2
  rw [Program.run_recorded, hrun, List.nil_append] at hends
  specialize hends _ rfl
  cases hends with
  | complete hle hgoing =>
    obtain ⟨course, hge, -⟩ := hgoing
    obtain rfl := Nat.le_antisymm hle hge
    exact .complete course
  | ended _ _ hstop => exact hstop
  | stalled _ _ => exact absurd rfl hstalled
  | overflowed hgoing hover =>
    obtain ⟨-, hle, -⟩ := hgoing
    omega

theorem ComesTo.unique {exchanges exchanges' : List (Exchange Handle Cache)} {last last' : Transfer}
    {after after' : σ}
    (h : ComesTo host direction handle offset window state exchanges last after)
    (h' : ComesTo host direction handle offset window state exchanges' last' after') :
    exchanges = exchanges' ∧ last = last' ∧ after = after' := by
  obtain ⟨bound, hlast⟩ := h
  obtain ⟨bound', hlast'⟩ := h'
  obtain ⟨hrun, hexchanges⟩ := hlast (max bound bound') (Nat.le_max_left _ _)
  obtain ⟨hrun', hexchanges'⟩ := hlast' (max bound bound') (Nat.le_max_right _ _)
  rw [hrun] at hrun'
  rw [hexchanges] at hexchanges'
  exact ⟨hexchanges', congrArg (·.1) hrun', congrArg (·.2) hrun'⟩

/-- Where no call is interrupted for ever, a transfer ends and says what its calls have come to. -/
theorem exists_comesTo (hfits : offset + window.length < wordBound)
    (orderly : Orderly expected host direction handle (offset + window.length) sound)
    (h : sound state) :
    ∃ exchanges last after,
      ComesTo host direction handle offset window state exchanges last after ∧
        Reports direction handle offset window exchanges last := by
  have hclean : sound (state, ([] : List (Exchange Handle Cache))).1 := h
  obtain ⟨⟨last, after, exchanges⟩, ⟨bound, -, hlast⟩, hstalled, -⟩ :=
    transfer_settles orderly.recorded (Nat.le_refl _) hclean
  have hcomes : ∀ patience, bound ≤ patience →
      (transfer direction patience handle offset window).run host state = (last, after) ∧
      (transfer direction patience handle offset window).exchanges host state = exchanges := by
    intro patience hle
    have hrun := hlast patience hle
    rw [Program.run_recorded, List.nil_append, Prod.ext_iff, Prod.ext_iff] at hrun
    exact ⟨Prod.ext hrun.1 hrun.2.1, hrun.2.2⟩
  refine ⟨exchanges, last, after, ⟨bound, hcomes⟩, ?_⟩
  obtain ⟨hrun, hexchanges⟩ := hcomes bound (Nat.le_refl _)
  rw [← hexchanges]
  exact run_reports hfits orderly h hrun hstalled

theorem ComesTo.reports (hfits : offset + window.length < wordBound)
    (orderly : Orderly expected host direction handle (offset + window.length) sound)
    (h : sound state) {exchanges : List (Exchange Handle Cache)} {last : Transfer} {after : σ}
    (hcomes : ComesTo host direction handle offset window state exchanges last after) :
    Reports direction handle offset window exchanges last := by
  obtain ⟨exchanges', last', after', hcomes', hreports⟩ := exists_comesTo hfits orderly h
  obtain ⟨rfl, rfl, -⟩ := hcomes.unique hcomes'
  exact hreports

theorem Reports.failure_eq_none_iff {exchanges : List (Exchange Handle Cache)} {last : Transfer}
    (h : Reports direction handle offset window exchanges last) :
    last.failure = none ↔ ∀ x ∈ exchanges, ¬ x.Fails := by
  cases h with
  | complete course => exact ⟨fun _ => course.not_fails, fun _ => rfl⟩
  | standstill _ _ houtcome =>
    constructor
    · nofun
    · intro hnone
      exact absurd ⟨_, houtcome, rfl⟩ (hnone _ (List.mem_append_right _ List.mem_cons_self))
  | @failed _ _ _ _ e _ _ houtcome he =>
    constructor
    · nofun
    · intro hnone
      have hstops : stops (.error (.error e)) = true := by
        simpa [stops, isInterrupted] using he
      exact absurd ⟨_, houtcome, hstops⟩ (hnone _ (List.mem_append_right _ List.mem_cons_self))

theorem Reports.moved_eq {exchanges : List (Exchange Handle Cache)} {last : Transfer}
    (h : Reports direction handle offset window exchanges last) (hfailure : last.failure = none) :
    last.moved = window.length := by
  cases h with
  | complete _ => rfl
  | standstill _ _ _ => cases hfailure
  | failed _ _ _ _ => cases hfailure

theorem Course.not_asks {exchanges : List (Exchange Handle Cache)} {done : Nat} {buffer : Bytes}
    (course : Course direction handle offset [] exchanges done buffer) (x : Exchange Handle Cache) :
    ¬ Asks direction handle offset done buffer x := by
  intro hasks
  have hlength := course.length_eq
  have hlt := hasks.lt
  rw [List.length_nil] at hlength
  omega

theorem Course.exchanges_eq_nil {exchanges : List (Exchange Handle Cache)} {done : Nat}
    {buffer : Bytes} (course : Course direction handle offset [] exchanges done buffer) :
    exchanges = [] := by
  cases course with
  | start => rfl
  | interrupted course hasks _ _ => exact absurd hasks (course.not_asks _)
  | advanced course hasks _ _ => exact absurd hasks (course.not_asks _)

theorem Reports.exchanges_eq_nil {exchanges : List (Exchange Handle Cache)} {last : Transfer}
    (h : Reports direction handle offset [] exchanges last) : exchanges = [] := by
  cases h with
  | complete course => exact course.exchanges_eq_nil
  | standstill course hasks _ => exact absurd hasks (course.not_asks _)
  | failed course hasks _ _ => exact absurd hasks (course.not_asks _)

theorem Moved.trans {place m n : Nat} {before window middle left between after : Bytes}
    (hm : m ≤ window.length) (hmiddle : middle.length = window.length)
    (hn : n ≤ left.length)
    (first : Moved direction place m before window middle between)
    (next : Moved direction (place + m) n between (middle.drop m) left after) :
    Moved direction place (m + n) before window (middle.take m ++ left) after := by
  cases direction with
  | reading =>
    obtain ⟨hfront, rfl⟩ := first
    obtain ⟨hback, rfl⟩ := next
    refine ⟨?_, rfl⟩
    rw [← Bytes.window_append, ← hfront, ← hback, List.take_append, List.take_of_length_le]
    · rw [List.length_take, hmiddle, Nat.min_eq_left hm, Nat.add_sub_cancel_left]
    · rw [List.length_take]
      omega
  | writing =>
    obtain ⟨rfl, rfl⟩ := first
    obtain ⟨rfl, rfl⟩ := next
    refine ⟨List.take_append_drop m middle, ?_⟩
    have hplace : place + m = place + (middle.take m).length := by
      rw [List.length_take, Nat.min_eq_left hm]
    rw [hplace, Bytes.store_append, List.take_add]

theorem Moved.zero (direction : Direction) (place : Nat) (before window : Bytes) :
    Moved direction place 0 before window window before := by
  cases direction with
  | reading => exact ⟨rfl, rfl⟩
  | writing => exact ⟨rfl, rfl⟩

theorem Moved.unique {place : Nat} {before left left' after after' : Bytes}
    (h : Moved direction place window.length before window left after)
    (h' : Moved direction place window.length before window left' after')
    (hlength : left.length = window.length) (hlength' : left'.length = window.length) :
    left = left' ∧ after = after' := by
  cases direction with
  | reading =>
    obtain ⟨hleft, rfl⟩ := h
    obtain ⟨hleft', rfl⟩ := h'
    rw [List.take_of_length_le (Nat.le_of_eq hlength)] at hleft
    rw [List.take_of_length_le (Nat.le_of_eq hlength')] at hleft'
    exact ⟨hleft.trans hleft'.symm, rfl⟩
  | writing =>
    obtain ⟨rfl, rfl⟩ := h
    obtain ⟨rfl, rfl⟩ := h'
    exact ⟨rfl, rfl⟩

/-- What is kept while a transfer over a file that held `before` goes on. -/
structure HeldSoFar (direction : Direction) (offset : Nat) (window before : Bytes) (sound : σ → Prop)
    (contents : σ → Bytes) (done : Nat) (buffer : Bytes) (state : σ) : Prop where
  sound : sound state
  le : done ≤ window.length
  length_eq : buffer.length = window.length
  moved : Moved direction offset done before window buffer (contents state)

theorem HeldSoFar.call
    (orderly : Orderly expected host direction handle (offset + window.length) sound)
    (holds : Holds host direction handle (offset + window.length) sound contents) {before : Bytes}
    {done : Nat} {buffer : Bytes} (hdone : done < window.length)
    (h : HeldSoFar direction offset window before sound contents done buffer state) :
    let reply := (call direction handle (buffer.drop done) (offset + done)).run host state
    Leads (HeldSoFar direction offset window before sound contents) (fun _ _ _ _ => True)
      done (buffer.take done ++ reply.1.1) reply.1.2 reply.2 := by
  have hlength := h.length_eq
  obtain ⟨hpos, hfit⟩ := rest_fits hlength hdone offset
  obtain ⟨hcounted, -, hgoes⟩ := orderly.next hlength hdone h.sound
  have hleft := length_call host direction handle (buffer.drop done) (offset + done) state
  apply Leads.of_counted
  · intro hstops
    have hmoved := holds (buffer.drop done) (offset + done) state hpos hfit h.sound hstops
    refine ⟨hgoes hstops, hcounted, ?_, h.moved.trans h.le hlength ?_ hmoved⟩
    · rw [List.length_append, List.length_take, hleft, List.length_drop]
      omega
    · rw [hleft, List.length_drop, hlength]
      exact Nat.le_sub_of_add_le' hcounted
  · intro _
    trivial

theorem run_moved
    (orderly : Orderly expected host direction handle (offset + window.length) sound)
    (holds : Holds host direction handle (offset + window.length) sound contents)
    (h : sound state) {patience : Nat} {last : Transfer} {after : σ}
    (hrun : (transfer direction patience handle offset window).run host state = (last, after))
    (hfailure : last.failure = none) :
    last.window.length = window.length ∧
      Moved direction offset window.length (contents state) window last.window (contents after) := by
  have hstart : HeldSoFar direction offset window (contents state) sound contents 0 window state :=
    ⟨h, Nat.zero_le _, rfl, .zero direction offset _ _⟩
  have hends : ∀ last, (transfer direction patience handle offset window).run host state = last →
      Ends (HeldSoFar direction offset window (contents state) sound contents) (fun _ _ _ _ => True)
        direction window.length offset last.1 last.2 := by
    rintro _ rfl
    exact (transfer_ends (fun _ _ _ _ hdone hgoing => hgoing.call orderly holds hdone) rfl hstart).2
  specialize hends _ hrun
  cases hends with
  | complete hle hgoing =>
    obtain rfl := Nat.le_antisymm hle hgoing.le
    exact ⟨hgoing.length_eq, hgoing.moved⟩
  | ended _ _ _ => cases hfailure
  | stalled _ _ => cases hfailure
  | overflowed _ _ => cases hfailure

/-- A transfer that nothing fails has moved its whole window, as a single call would. -/
theorem Passes.moved (hfits : offset + window.length < wordBound) {before after : Bytes}
    {last : Transfer} (h : Passes direction offset window before last after) :
    last.moved = window.length ∧ last.failure = none ∧ last.window.length = window.length ∧
      Moved direction offset window.length before window last.window after := by
  cases h with
  | intro orderly holds hsound hbefore hcomes hnone =>
    subst hbefore
    have hreports := hcomes.reports hfits orderly hsound
    have hfailure := hreports.failure_eq_none_iff.mpr hnone
    obtain ⟨bound, hlast⟩ := hcomes
    obtain ⟨hrun, -⟩ := hlast bound (Nat.le_refl _)
    exact ⟨hreports.moved_eq hfailure, hfailure, run_moved orderly holds hsound hrun hfailure⟩

/-- How a transfer is split does not show. -/
theorem Passes.unique (hfits : offset + window.length < wordBound) {before after after' : Bytes}
    {last last' : Transfer} (h : Passes direction offset window before last after)
    (h' : Passes direction offset window before last' after') : last = last' ∧ after = after' := by
  obtain ⟨hmoved, hfailure, hlength, hall⟩ := h.moved hfits
  obtain ⟨hmoved', hfailure', hlength', hall'⟩ := h'.moved hfits
  obtain ⟨hwindow, hafter⟩ := hall.unique hall' hlength hlength'
  obtain ⟨left, moved, failure⟩ := last
  obtain ⟨left', moved', failure'⟩ := last'
  dsimp only at hmoved hfailure hmoved' hfailure' hwindow
  subst hmoved hfailure hmoved' hfailure' hwindow
  exact ⟨rfl, hafter⟩

/-- A transfer ends, and it reports what its calls have come to. Over a file that holds a byte
string it shows neither into how many calls it was split nor how often it was interrupted. -/
theorem ends_however_split (hfits : offset + window.length < wordBound)
    (orderly : Orderly expected host direction handle (offset + window.length) sound)
    (h : sound state) :
    ∃ exchanges last after,
      ComesTo host direction handle offset window state exchanges last after ∧
      Reports direction handle offset window exchanges last ∧ (window = [] → exchanges = []) ∧
      ∀ contents, Holds host direction handle (offset + window.length) sound contents →
        (∀ x ∈ exchanges, ¬ x.Fails) →
        last.moved = window.length ∧ last.failure = none ∧
          Moved direction offset window.length (contents state) window last.window
            (contents after) ∧
          ∀ last' bytes, Passes direction offset window (contents state) last' bytes →
            last' = last ∧ bytes = contents after := by
  obtain ⟨exchanges, last, after, hcomes, hreports⟩ := exists_comesTo hfits orderly h
  refine ⟨exchanges, last, after, hcomes, hreports, ?_, ?_⟩
  · rintro rfl
    exact hreports.exchanges_eq_nil
  · intro contents holds hnone
    have passes : Passes direction offset window (contents state) last (contents after) :=
      .intro orderly holds h rfl hcomes hnone
    obtain ⟨hmoved, hfailure, -, hall⟩ := passes.moved hfits
    refine ⟨hmoved, hfailure, hall, ?_⟩
    intro last' bytes passes'
    exact passes'.unique hfits passes

end Transfer

namespace Scheduled

/-- The first bytes of a file. -/
def front (file stop : Nat) (s : Scheduled) : Bytes :=
  (List.range stop).map (s.byte file)

theorem length_front (file stop : Nat) (s : Scheduled) : (s.front file stop).length = stop := by
  simp [front]

theorem getElem?_front {file stop i : Nat} (s : Scheduled) (h : i < stop) :
    (s.front file stop)[i]? = some (s.byte file i) := by
  simp [front, h]

theorem window_front {file stop place count : Nat} (s : Scheduled) (h : place + count ≤ stop) :
    (s.front file stop).window place count =
      (List.range count).map fun i => s.byte file (place + i) := by
  apply List.ext_getElem?
  intro i
  rw [Bytes.window, List.getElem?_take, List.getElem?_drop, List.getElem?_map]
  by_cases hi : i < count
  · rw [if_pos hi, s.getElem?_front (by omega), List.getElem?_range hi]
    rfl
  · rw [if_neg hi, List.getElem?_eq_none (by rw [List.length_range]; omega)]
    rfl

theorem front_put {file stop place : Nat} {data : Bytes} (s : Scheduled) (turns : List Turn)
    (h : place + data.length ≤ stop) :
    front file stop ⟨put s.byte file place data, turns⟩ = (s.front file stop).store place data := by
  rw [Bytes.store_of_le (by rw [length_front]; exact h)]
  apply List.ext_getElem?
  intro i
  rw [Bytes.getElem?_overlay, length_front]
  by_cases hi : i < stop
  · rw [getElem?_front _ hi, getElem?_front s hi]
    dsimp only [put]
    by_cases hdata : place ≤ i ∧ i < place + data.length
    · rw [if_pos ⟨rfl, hdata.1⟩, if_pos (by omega), List.getD_eq_getElem?_getD,
        List.getElem?_eq_getElem (by omega), Option.getD_some]
    · rw [if_neg (show ¬ (place ≤ i ∧ i < place + data.length ∧ i < stop) by omega)]
      split
      · rw [List.getD_eq_getElem?_getD, List.getElem?_eq_none (by omega), Option.getD_none]
      · rfl
  · rw [if_neg (by omega), List.getElem?_eq_none (by rw [length_front]; omega),
      List.getElem?_eq_none (by rw [length_front]; omega)]

theorem orderly (direction : Direction) (file stop : Nat) :
    Transfer.Orderly (fun _ => True) host direction file stop (fun _ => True) where
  patience := .all
  goes _ _ _ _ _ _ _ := trivial
  counted_le window place s _ _ _ := by
    dsimp only
    rw [(run_call direction file place window s).1, Transfer.counted_mapError]
    exact s.counted_outcome_le window.length
  unfaulted window place s _ _ _ := by
    dsimp only
    rw [(run_call direction file place window s).1]
    exact Transfer.mapError_ne_fault _
  answered window place s _ _ _ := by
    obtain ⟨count, hcount⟩ := answered file place window s
    exact ⟨count, trivial, hcount⟩

theorem holds (direction : Direction) (file stop : Nat) :
    Transfer.Holds host direction file stop (fun _ => True) (front file stop) := by
  intro window place s hpos hfit _
  have hcounted := s.counted_outcome_le window.length
  dsimp only
  intro _
  rw [(run_call direction file place window s).1, Transfer.counted_mapError]
  have hroom : place + Transfer.counted (s.outcome window.length) ≤ stop := by omega
  cases direction with
  | reading =>
    refine ⟨?_, rfl⟩
    change (Bytes.overlay window 0 ((List.range (Transfer.counted (s.outcome window.length))).map
      fun i => s.byte file (place + i))).take _ = _
    rw [s.window_front hroom, Bytes.overlay_zero (by simpa using hcounted)]
    exact List.take_left' (by simp)
  | writing =>
    refine ⟨rfl, s.front_put s.turns.tail ?_⟩
    rw [List.length_take]
    omega

end Scheduled

/-- A write of five bytes that is interrupted twice and moves them in three calls leaves just what
any other transfer of them leaves. A file that moves two of them and then nothing, with an
interruption in between, ends a read and a write in an error of its kind. -/
theorem Transfer.ends_however_split_scheduled :
    let window : Bytes := [9, 8, 7, 6, 5]
    let s : Scheduled := ⟨fun _ i => UInt8.ofNat i, [.fails ⟨.interrupted, "interrupted"⟩, .upTo 2,
      .fails ⟨.interrupted, "interrupted"⟩, .upTo 1]⟩
    let dry : Scheduled := ⟨fun _ i => UInt8.ofNat i, [.upTo 2, .fails ⟨.interrupted, "interrupted"⟩,
      .upTo 0]⟩
    (∀ last bytes, Passes .writing 3 window (s.front 0 8) last bytes →
      last = ⟨window, 5, none⟩ ∧ bytes = [0, 1, 2, 9, 8, 7, 6, 5]) ∧
    ∀ direction, ∃ exchanges last after e,
      ComesTo Scheduled.host direction 0 3 window dry exchanges last after ∧
        Reports direction 0 3 window exchanges last ∧ exchanges.length = 3 ∧ last.moved = 2 ∧
        last.failure = some (.error e) ∧
        e.kind = match direction with
          | .reading => .unexpectedEof
          | .writing => .writeZero := by
  intro window s dry
  have hfits : 3 + window.length < wordBound := by decide
  constructor
  · intro last bytes passes
    have holds := Scheduled.holds .writing 0 (3 + window.length)
    obtain ⟨exchanges, last', after, ⟨bound, hlast⟩, -, -, hall⟩ :=
      @ends_however_split _ _ _ Scheduled.host .writing 0 3 window _ (fun _ => True) s hfits
        (Scheduled.orderly .writing 0 _) trivial
    -- An interrupted call is made once more, so the patience is to be given as a successor twice.
    obtain ⟨-, hexchanges⟩ := hlast (bound + 2) (Nat.le_add_right bound 2)
    have hcalls : exchanges = [
        ⟨.writeHandle 0 [9, 8, 7, 6, 5] 3, .error (.error ⟨.interrupted, "interrupted"⟩)⟩,
        ⟨.writeHandle 0 [9, 8, 7, 6, 5] 3, .ok 2⟩,
        ⟨.writeHandle 0 [7, 6, 5] 5, .error (.error ⟨.interrupted, "interrupted"⟩)⟩,
        ⟨.writeHandle 0 [7, 6, 5] 5, .ok 1⟩,
        ⟨.writeHandle 0 [6, 5] 6, .ok 2⟩] := by
      rw [← hexchanges]
      rfl
    have hnone : ∀ x ∈ exchanges, ¬ x.Fails := by
      rw [hcalls]
      simp [Exchange.Fails, Exchange.outcome?, stops, isInterrupted]
    obtain ⟨hmoved, hfailure, ⟨hwindow, hafter⟩, hunique⟩ := hall _ holds hnone
    obtain ⟨rfl, rfl⟩ := hunique last bytes passes
    obtain ⟨left, moved, failure⟩ := last
    dsimp only at hmoved hfailure hwindow
    subst hmoved hfailure hwindow
    exact ⟨rfl, hafter⟩
  · intro direction
    obtain ⟨exchanges, last, after, hcomes, hreports, -⟩ :=
      @ends_however_split _ _ _ Scheduled.host direction 0 3 window _ (fun _ => True) dry hfits
        (Scheduled.orderly direction 0 _) trivial
    obtain ⟨bound, hlast⟩ := id hcomes
    obtain ⟨hrun, hexchanges⟩ := hlast (bound + 2) (Nat.le_add_right bound 2)
    refine ⟨exchanges, last, after, direction.standstill, hcomes, hreports, ?_⟩
    obtain rfl : _ = last := congrArg Prod.fst hrun
    rw [← hexchanges]
    cases direction <;> exact ⟨rfl, rfl, rfl, rfl⟩

end FlatVolume
