import FlatVolume.Proofs.TransferLoop
import FlatVolume.Proofs.Tiling
import FlatVolume.Volume.Walk

/-!
# What a walk keeps

The rule for transfers, one level up: what one call of a walk does, said in terms of the
whole request, decides what holds when the walk ends. A call is known by the extent it is
made for and by the number of bytes moved before it. That the walk never comes to an
extent too late, and never leaves one for the next too early, is proved here once.
-/

namespace FlatVolume

variable {Handle Cache σ : Type}

/-- A walk that has moved some bytes of a request of `length` bytes at `offset` is at the byte
that comes next. -/
structure Progress.At (p : Progress) (length offset : Nat) : Prop where
  length_buffer : p.buffer.length = length
  offset_eq : p.offset = offset + p.moved

/-- What every call of a walk over `extents` does, in terms of the request at `offset` that the
walk is for. -/
def Volume.CallsLead (host : Host Handle Cache σ) (direction : Direction)
    (extents : List (Extent Handle)) (length offset : Nat) (going : Nat → Bytes → σ → Prop)
    (stopped : Nat → Bytes → Except (Failure IoError) Nat → σ → Prop) : Prop :=
  ∀ e ∈ extents, ∀ moved buffer state, buffer.length = length → moved < length →
    e.start ≤ offset + moved → offset + moved < e.start + e.length → going moved buffer state →
    let window := (buffer.drop moved).take (e.start + e.length - (offset + moved))
    let reply := (Transfer.call direction e.handle window (offset + moved - e.start)).run host state
    Transfer.Leads going stopped moved (buffer.overlay moved reply.1.1) reply.1.2 reply.2

/-- How a walk over extents that end at `stop` ends. -/
inductive WalkEnd.Ends (going : Nat → Bytes → σ → Prop)
    (stopped : Nat → Bytes → Except (Failure IoError) Nat → σ → Prop) (direction : Direction)
    (extents : List (Extent Handle)) (length offset stop : Nat) : WalkEnd → σ → Prop where
  | complete {p : Progress} {state : σ} :
      p.At length offset → length ≤ p.moved ∨ stop ≤ offset + p.moved →
      going p.moved p.buffer state →
      Ends going stopped direction extents length offset stop ⟨p, none⟩ state
  | failed {p : Progress} {e : Extent Handle} {outcome : Except (Failure IoError) Nat}
      {cause : IoError} {state : σ} :
      e ∈ extents → e.start ≤ offset + p.moved → offset + p.moved < e.start + e.length →
      p.buffer.length = length → p.moved < length → Transfer.stops outcome = true →
      Transfer.stopFailure direction outcome = .error cause →
      stopped p.moved p.buffer outcome state →
      Ends going stopped direction extents length offset stop
        ⟨p, some (.error (.io (Word.addSat offset p.moved) p.moved cause))⟩ state
  | refused {p : Progress} {moved : Nat} {outcome : Except (Failure IoError) Nat} {fault : Fault}
      {state : σ} :
      Transfer.stops outcome = true → Transfer.stopFailure direction outcome = .fault fault →
      stopped moved p.buffer outcome state →
      Ends going stopped direction extents length offset stop ⟨p, some (.fault fault)⟩ state
  | stalled {p : Progress} {moved : Nat} {state : σ} :
      going moved p.buffer state →
      Ends going stopped direction extents length offset stop ⟨p, some (.fault .stalled)⟩ state
  | overflowed {p : Progress} {moved : Nat} {state : σ} :
      going moved p.buffer state → 0 < moved → wordBound ≤ offset + moved →
      Ends going stopped direction extents length offset stop ⟨p, some (.fault .overflow)⟩ state

namespace WalkEnd

variable {p : Progress}

/-- A walk that has moved no more than there is leaves zeros behind that. -/
theorem reading_of_le (h : p.moved ≤ p.buffer.length) :
    reading ⟨p, none⟩ =
      ⟨p.buffer.overlay p.moved (Bytes.zeros (p.buffer.length - p.moved)),
        .ok p.buffer.length⟩ := by
  simp only [reading, Checked.sliceFrom_of_le h, List.length_drop]

/-- A walk that has moved no more than there is looks for the first byte behind that which is not
zero, and that byte has a number. -/
theorem writing_of_le (h : p.moved ≤ p.buffer.length) :
    writing ⟨p, none⟩ =
      match (p.buffer.drop p.moved).findIdx? (· ≠ 0) with
      | none => .ok p.buffer.length
      | some position =>
        .error (.error
          (.nonZeroTrailingData (Word.addSat p.offset position) (p.moved + position))) := by
  simp only [writing, Checked.sliceFrom_of_le h]
  cases hfind : (p.buffer.drop p.moved).findIdx? (· ≠ 0) with
  | none => rfl
  | some position =>
    obtain ⟨hposition, -⟩ := List.findIdx?_eq_some_iff_getElem.mp hfind
    rw [List.length_drop] at hposition
    simp only [Checked.number_of_le (show p.moved + position ≤ p.buffer.length by omega)]

end WalkEnd

namespace Progress

variable {p : Progress} {length offset : Nat}

theorem at_start (buffer : Bytes) (offset : Nat) :
    (start buffer offset).At buffer.length offset :=
  ⟨rfl, rfl⟩

/-- As long as there is something to move, an extent that starts at or before the byte that comes
next backs the buffer from there on, or ends before it. -/
theorem At.next_eq (h : p.At length offset) {e : Extent Handle} (hm : p.moved < length)
    (hle : e.start ≤ p.offset) (hbound : e.start + e.length < wordBound) :
    p.next e =
      .ok (if p.offset - e.start < e.length then
        some (p.offset - e.start, p.buffer.window p.moved (e.length - (p.offset - e.start)))
      else none) := by
  have hlength := h.length_buffer
  have hoffset := h.offset_eq
  have hremaining : Checked.sub p.buffer.length p.moved = .ok (p.buffer.length - p.moved) :=
    Checked.sub_of_le (by omega)
  rw [next, Checked.sub_of_le hle]
  generalize hplace : p.offset - e.start = place
  split <;> rename_i hlt
  · have hspace : Checked.sub e.length place = .ok (e.length - place) :=
      Checked.sub_of_le (Nat.le_of_lt hlt)
    have hclamp : clamp (p.buffer.length - p.moved) (e.length - place) =
        min (p.buffer.length - p.moved) (e.length - place) := if_pos (by omega)
    have hstop := Checked.add_of_lt
      (show p.moved + min (p.buffer.length - p.moved) (e.length - place) < wordBound by omega)
    have hslice := Checked.slice_of_le
      (Nat.le_add_right p.moved (min (p.buffer.length - p.moved) (e.length - place)))
      (show _ ≤ p.buffer.length by omega)
    rw [Nat.add_sub_cancel_left, Bytes.window_min] at hslice
    simp only [bind, Except.bind, if_pos hlt, hremaining, hspace, hclamp, hstop, hslice]
  · simp only [bind, Except.bind, if_neg hlt]

end Progress

namespace Volume

variable {host : Host Handle Cache σ} {direction : Direction} {extents : List (Extent Handle)}
    {length offset stop : Nat} {going : Nat → Bytes → σ → Prop}
    {stopped : Nat → Bytes → Except (Failure IoError) Nat → σ → Prop} {p : Progress} {state : σ}

theorem transfer_leads (calls : CallsLead host direction extents length offset going stopped)
    (at_p : p.At length offset) {e : Extent Handle} (he : e ∈ extents) (hm : p.moved < length)
    (hle : e.start ≤ p.offset) (hlt : p.offset - e.start < e.length)
    (h : going p.moved p.buffer state) (patience : Nat) :
    let space := e.length - (p.offset - e.start)
    let last := (transfer direction patience e.handle (p.offset - e.start)
      (p.buffer.window p.moved space)).run host state
    Transfer.Ends
      (fun done window => going (p.moved + done) (p.buffer.overlay p.moved window))
      (fun done window => stopped (p.moved + done) (p.buffer.overlay p.moved window))
      direction (min (length - p.moved) space) (p.offset - e.start) last.1 last.2 := by
  intro space
  have hoffset := at_p.offset_eq
  have hwindow : (p.buffer.window p.moved space).length = min (length - p.moved) space := by
    rw [Bytes.length_window, at_p.length_buffer, Nat.min_comm]
  refine (Transfer.transfer_ends ?_ hwindow ?_).2
  · intro done window state hw hdone hgoing
    have hlen := at_p.length_buffer
    have hspace : e.start + e.length - (offset + (p.moved + done)) = space - done := by omega
    have hposition : offset + (p.moved + done) - e.start = p.offset - e.start + done := by omega
    have hrest : ((p.buffer.overlay p.moved window).drop (p.moved + done)).take (space - done) =
        window.drop done :=
      Bytes.take_drop_overlay (by omega) (by omega) (by omega)
    have hcall := calls e he (p.moved + done) (p.buffer.overlay p.moved window) state
      (by simpa using hlen) (by omega) (by omega) (by omega) hgoing
    simp only [hspace, hposition, hrest] at hcall
    have hleft := Transfer.length_call host direction e.handle (window.drop done)
      (p.offset - e.start + done) state
    rw [List.length_drop] at hleft
    rw [Bytes.overlay_overlay (by omega) hleft] at hcall
    exact ⟨hcall.interrupted, fun count hcount hpos => by
      rw [← Nat.add_assoc]
      exact hcall.advanced count hcount hpos, hcall.ended⟩
  · rw [Bytes.overlay_window]
    exact h

theorem complete_leads (stop : Nat) (at_p : p.At length offset) {e : Extent Handle}
    (hbound : e.start + e.length < wordBound) (hm : p.moved < length) (hle : e.start ≤ p.offset)
    (hlt : p.offset - e.start < e.length) {window : Bytes} {moved : Nat}
    (hdone : min (length - p.moved) (e.length - (p.offset - e.start)) ≤ moved)
    (hgoing : going (p.moved + moved) (p.buffer.overlay p.moved window) state) :
    (∃ p', p.advance ⟨window, moved, none⟩ = .ok p' ∧ p'.At length offset ∧
      going p'.moved p'.buffer state ∧ (p'.moved < length → e.start + e.length ≤ p'.offset)) ∨
    ∃ w, p.advance ⟨window, moved, none⟩ = .error w ∧
      WalkEnd.Ends going stopped direction extents length offset stop w state := by
  have hoffset := at_p.offset_eq
  cases hmoved : Word.add? p.moved moved with
  | none =>
    have hadvance : p.advance ⟨window, moved, none⟩ =
        .error ⟨⟨p.buffer.overlay p.moved window, p.moved, p.offset⟩, some (.fault .overflow)⟩ := by
      simp only [Progress.advance, hmoved]
    have hover := Word.add?_eq_none_iff.mp hmoved
    exact .inr ⟨_, hadvance, .overflowed hgoing (by omega) (by omega)⟩
  | some reached =>
    obtain ⟨-, rfl⟩ := Word.add?_eq_some_iff.mp hmoved
    cases hnext : Word.add? p.offset moved with
    | none =>
      have hadvance : p.advance ⟨window, moved, none⟩ =
          .error ⟨⟨p.buffer.overlay p.moved window, p.moved + moved, p.offset⟩,
            some (.fault .overflow)⟩ := by
        simp only [Progress.advance, hmoved, hnext]
      have hover := Word.add?_eq_none_iff.mp hnext
      exact .inr ⟨_, hadvance, .overflowed hgoing (by omega) (by omega)⟩
    | some next =>
      obtain ⟨-, rfl⟩ := Word.add?_eq_some_iff.mp hnext
      have hadvance : p.advance ⟨window, moved, none⟩ =
          .ok ⟨p.buffer.overlay p.moved window, p.moved + moved, p.offset + moved⟩ := by
        simp only [Progress.advance, hmoved, hnext]
      refine .inl ⟨_, hadvance, ⟨?_, by dsimp only; omega⟩, hgoing, ?_⟩
      · rw [Bytes.length_overlay, at_p.length_buffer]
      · intro hm'
        dsimp only at hm' ⊢
        omega

theorem advance_leads (stop : Nat) (at_p : p.At length offset) {e : Extent Handle} (he : e ∈ extents)
    (hbound : e.start + e.length < wordBound) (hm : p.moved < length) (hle : e.start ≤ p.offset)
    (hlt : p.offset - e.start < e.length) {t : Transfer}
    (ends : Transfer.Ends
      (fun done window => going (p.moved + done) (p.buffer.overlay p.moved window))
      (fun done window => stopped (p.moved + done) (p.buffer.overlay p.moved window))
      direction (min (length - p.moved) (e.length - (p.offset - e.start))) (p.offset - e.start)
      t state) :
    (∃ p', p.advance t = .ok p' ∧ p'.At length offset ∧ going p'.moved p'.buffer state ∧
      (p'.moved < length → e.start + e.length ≤ p'.offset)) ∨
    ∃ w, p.advance t = .error w ∧
      WalkEnd.Ends going stopped direction extents length offset stop w state := by
  have hoffset := at_p.offset_eq
  have hlength : (p.buffer.overlay p.moved t.window).length = length := by
    rw [Bytes.length_overlay, at_p.length_buffer]
  cases ends with
  | @complete window moved _ hdone hgoing =>
    exact complete_leads stop at_p hbound hm hle hlt hdone hgoing
  | @ended window moved outcome _ hdone hstops hstopped =>
    cases hfailure : Transfer.stopFailure direction outcome with
    | fault fault =>
      have hadvance : p.advance ⟨window, moved, some (.fault fault)⟩ =
          .error ⟨⟨p.buffer.overlay p.moved window, p.moved, p.offset⟩, some (.fault fault)⟩ := rfl
      exact .inr ⟨_, hadvance, .refused hstops hfailure hstopped⟩
    | error cause =>
      have hmoved : Word.add? p.moved moved = some (p.moved + moved) :=
        Word.add?_eq_some_iff.mpr ⟨by omega, rfl⟩
      have hsat : Word.addSat p.offset moved = Word.addSat offset (p.moved + moved) := by
        rw [Word.addSat, Word.addSat, hoffset, Nat.add_assoc]
      have hadvance : p.advance ⟨window, moved, some (.error cause)⟩ =
          .error ⟨⟨p.buffer.overlay p.moved window, p.moved + moved, p.offset⟩,
            some (.error (.io (Word.addSat offset (p.moved + moved)) (p.moved + moved) cause))⟩ := by
        simp only [Progress.advance, hmoved, ← hsat]
      refine .inr ⟨_, hadvance, .failed he ?_ ?_ hlength ?_ hstops hfailure hstopped⟩
      all_goals
        dsimp only
        omega
  | @stalled window moved _ hdone hgoing =>
    exact .inr ⟨_, rfl, .stalled hgoing⟩
  | @overflowed window moved reached _ hgoing hover =>
    have hadvance : p.advance ⟨window, moved, some (.fault .overflow)⟩ =
        .error ⟨⟨p.buffer.overlay p.moved window, p.moved, p.offset⟩, some (.fault .overflow)⟩ := rfl
    exact .inr ⟨_, hadvance, .overflowed hgoing (by omega) (by omega)⟩

theorem extent_leads (stop : Nat)
    (calls : CallsLead host direction extents length offset going stopped)
    (at_p : p.At length offset) {e : Extent Handle} (he : e ∈ extents)
    (hbound : e.start + e.length < wordBound) (hm : p.moved < length) (hle : e.start ≤ p.offset)
    (hlt : p.offset - e.start < e.length) (h : going p.moved p.buffer state) (patience : Nat) :
    let space := e.length - (p.offset - e.start)
    let last := (transfer direction patience e.handle (p.offset - e.start)
      (p.buffer.window p.moved space)).run host state
    (∃ p', p.advance last.1 = .ok p' ∧ p'.At length offset ∧ going p'.moved p'.buffer last.2 ∧
      (p'.moved < length → e.start + e.length ≤ p'.offset)) ∨
    ∃ w, p.advance last.1 = .error w ∧
      WalkEnd.Ends going stopped direction extents length offset stop w last.2 :=
  advance_leads stop at_p he hbound hm hle hlt (transfer_leads calls at_p he hm hle hlt h patience)

/-- Whatever the file of an extent replies, a walk that goes on behind it has come to its end or has
nothing left to move. -/
theorem extent_passed (host : Host Handle Cache σ) (direction : Direction) (patience : Nat)
    (at_p : p.At length offset) {e : Extent Handle} (hbound : e.start + e.length < wordBound)
    (hm : p.moved < length) (hle : e.start ≤ p.offset) (hlt : p.offset - e.start < e.length)
    (state : σ) :
    let space := e.length - (p.offset - e.start)
    let last := (transfer direction patience e.handle (p.offset - e.start)
      (p.buffer.window p.moved space)).run host state
    (∃ p', p.advance last.1 = .ok p' ∧ p'.At length offset ∧
      (p'.moved < length → e.start + e.length ≤ p'.offset)) ∨
    ∃ w, p.advance last.1 = .error w := by
  intro space last
  have anything : CallsLead host direction [e] length offset (fun _ _ _ => True)
      (fun _ _ _ _ => True) :=
    fun _ _ _ _ _ _ _ _ _ _ => ⟨fun _ => trivial, fun _ _ _ => trivial, fun _ => trivial⟩
  rcases extent_leads (e.start + e.length) anything at_p List.mem_cons_self hbound hm hle hlt trivial
    patience with ⟨p', hadvance, at_p', -, reached⟩ | ⟨w, hadvance, -⟩
  · exact .inl ⟨p', hadvance, at_p', reached⟩
  · exact .inr ⟨w, hadvance⟩

/-- The walk, by induction on the extents that are left. As long as there is something to
move, the first of them starts at or before the byte that comes next. -/
theorem walk_ends (calls : CallsLead host direction extents length offset going stopped)
    (bound : stop < wordBound) (patience : Nat) {rest : List (Extent Handle)} {start : Nat}
    (hrest : ∀ e ∈ rest, e ∈ extents) (tiles : Tiles start rest stop) (at_p : p.At length offset)
    (reached : p.moved < length → start ≤ p.offset) (h : going p.moved p.buffer state) :
    let last := (walk direction patience rest p).run host state
    WalkEnd.Ends going stopped direction extents length offset stop last.1 last.2 := by
  have hoffset := at_p.offset_eq
  induction rest generalizing start p state with
  | nil =>
    have hstart : start = stop := tiles
    refine .complete at_p ?_ h
    by_cases hm : p.moved < length
    · have := reached hm
      exact .inr (by omega)
    · exact .inl (Nat.le_of_not_lt hm)
  | cons e rest ih =>
    obtain ⟨rfl, tiles⟩ := tiles
    rw [walk, at_p.length_buffer]
    by_cases hm : p.moved < length
    · have hle := reached hm
      have hbound := tiles.le
      have he : e ∈ extents := hrest e List.mem_cons_self
      rw [if_pos hm, at_p.next_eq hm hle (by omega)]
      by_cases hlt : p.offset - e.start < e.length
      · rw [if_pos hlt]
        dsimp only
        rw [Program.bind_eq, Program.run_bind]
        rcases extent_leads stop calls at_p he (by omega) hm hle hlt h patience with
          ⟨p', hadvance, at_p', hgoing, reached'⟩ | ⟨w, hadvance, hend⟩
        · rw [hadvance]
          exact ih (fun e he => hrest e (List.mem_cons_of_mem _ he)) tiles at_p' reached' hgoing
            at_p'.offset_eq
        · rw [hadvance]
          exact hend
      · rw [if_neg hlt]
        exact ih (fun e he => hrest e (List.mem_cons_of_mem _ he)) tiles at_p
          (fun _ => by omega) h hoffset
    · rw [if_neg hm]
      exact .complete at_p (.inl (Nat.le_of_not_lt hm)) h

theorem request_ends (v : Volume Handle Cache) (buffer : Bytes)
    (calls : CallsLead host direction v.layout.extents buffer.length offset going stopped)
    (patience : Nat) (h : going 0 buffer state) :
    let last := (walk direction patience (v.extentsFrom offset) (.start buffer offset)).run host state
    WalkEnd.Ends going stopped direction v.layout.extents buffer.length offset v.total
      last.1 last.2 := by
  obtain ⟨start, tiles, hle⟩ := v.layout.tiles_drop_find offset
  exact walk_ends calls v.layout.total_lt patience (fun e he => List.mem_of_mem_drop he) tiles
    (Progress.at_start buffer offset) (fun _ => hle) h

theorem run_readFiles (v : Volume Handle Cache) (patience : Nat) (buffer : Bytes) (offset : Nat)
    (state : σ) :
    (v.readFiles patience buffer offset).run host state =
      let last := (walk .reading patience (v.extentsFrom offset) (.start buffer offset)).run
        host state
      (last.1.reading, last.2) := by
  simp [readFiles, Program.run_bind]

theorem run_writeFiles (v : Volume Handle Cache) (patience : Nat) (data : Bytes) (offset : Nat)
    (state : σ) :
    (v.writeFiles patience data offset).run host state =
      let last := (walk .writing patience (v.extentsFrom offset) (.start data offset)).run
        host state
      (last.1.writing, last.2) := by
  simp [writeFiles, Program.run_bind]

end Volume

end FlatVolume
