import FlatVolume.Proofs.Backing
import FlatVolume.Proofs.FlatArray
import FlatVolume.Proofs.Recording
import FlatVolume.Proofs.WalkLoop

/-!
# Honest files

A file is honest if it counts no more than it was asked to move and has moved just what it
counts. Nothing is said about how much that is, or about when it fails. What a read or a
write of a volume has done is then known from its result, wherever it has ended.
-/

namespace FlatVolume

variable {Handle Cache File σ : Type}

def Host.write (host : Host Handle Cache σ) (handle : Handle) (data : Bytes) (place : Nat)
    (state : σ) : Except (Failure IoError) Nat × σ :=
  host.answer (.writeHandle handle data place) state

def Host.read (host : Host Handle Cache σ) (handle : Handle) (window : Bytes) (place : Nat)
    (state : σ) : FileReading × σ :=
  host.answer (.readHandle handle window place) state

def Transfer.counted {ε : Type} : Except ε Nat → Nat
  | .ok count => count
  | .error _ => 0

/-- A call for some bytes of an extent and none behind it. -/
structure Volume.Backs (v : Volume Handle Cache) (e : Extent Handle) (place length : Nat) : Prop where
  mem : e ∈ v.layout.extents
  pos : 0 < length
  fits : place + length ≤ e.length

namespace Transfer

theorem counted_eq_zero {outcome : Except (Failure IoError) Nat}
    (h : stops outcome = true ∨ isInterrupted outcome = true) : counted outcome = 0 := by
  cases outcome with
  | ok count => simpa [stops, isInterrupted, counted] using h
  | error failure => rfl

theorem stops_of_isInterrupted {outcome : Except (Failure IoError) Nat}
    (h : isInterrupted outcome = true) : stops outcome = false := by
  cases outcome with
  | ok count => simp [isInterrupted] at h
  | error failure => simp [stops, h]

theorem counted_mapError (outcome : Except IoError Nat) :
    counted (outcome.mapError Failure.error) = counted outcome := by
  cases outcome <;> rfl

theorem mapError_ne_fault (outcome : Except IoError Nat) (fault : Fault) :
    outcome.mapError Failure.error ≠ .error (.fault fault) := by
  intro h
  cases outcome with
  | ok count => cases h
  | error e => cases h

theorem stopFailure_ne_fault {direction : Direction} {outcome : Except (Failure IoError) Nat}
    (h : ∀ fault, outcome ≠ .error (.fault fault)) (fault : Fault) :
    stopFailure direction outcome ≠ .fault fault := by
  cases outcome with
  | ok count => simp [stopFailure]
  | error failure =>
    rintro rfl
    exact h fault rfl

/-- It is enough to know what a call leads to that goes on from the bytes it counts. -/
theorem Leads.of_counted {going : Nat → Bytes → σ → Prop}
    {stopped : Nat → Bytes → Except (Failure IoError) Nat → σ → Prop} {moved : Nat}
    {buffer : Bytes} {outcome : Except (Failure IoError) Nat} {state : σ}
    (goes : stops outcome = false → going (moved + counted outcome) buffer state)
    (ends : stops outcome = true → stopped (moved + counted outcome) buffer outcome state) :
    Leads going stopped moved buffer outcome state where
  interrupted hint := by
    have hnext := goes (stops_of_isInterrupted hint)
    rwa [counted_eq_zero (.inr hint)] at hnext
  advanced count hcount hpos := by
    have hnext := goes (by rw [hcount]; exact decide_eq_false (by omega))
    rwa [hcount] at hnext
  ended hstops := by
    have hlast := ends hstops
    rwa [counted_eq_zero (.inl hstops)] at hlast

end Transfer

theorem Volume.Backs.window {v : Volume Handle Cache} {e : Extent Handle}
    (he : e ∈ v.layout.extents) {current : Bytes} {offset moved : Nat}
    (hm : moved < current.length) (hle : e.start ≤ offset + moved)
    (hlt : offset + moved < e.start + e.length) :
    v.Backs e (offset + moved - e.start)
      (current.window moved (e.start + e.length - (offset + moved))).length := by
  have hwindow := Bytes.length_window current moved (e.start + e.length - (offset + moved))
  exact ⟨he, by omega, by omega⟩

namespace Backing

/-- A write that has stored what it counts, and nothing where it has failed. -/
structure WriteCall (b : Backing Handle File σ) (file : File) (data : Bytes) (place : Nat)
    (before : σ) (reply : Except (Failure IoError) Nat × σ) : Prop where
  counted_le : Transfer.counted reply.1 ≤ data.length
  lays : b.Lays before reply.2 file place (data.take (Transfer.counted reply.1))
  unfaulted : ∀ fault, reply.1 ≠ .error (.fault fault)

/-- A read that has put the bytes of the file that it counts at the front of the window, and
nothing where it has failed. -/
structure ReadCall (b : Backing Handle File σ) (file : File) (window : Bytes) (place : Nat)
    (before : σ) (reply : FileReading × σ) : Prop where
  counted_le : Transfer.counted reply.1.outcome ≤ window.length
  fills : window.overlay 0 reply.1.bytes =
    b.stretch before file place (Transfer.counted reply.1.outcome) ++
      window.drop (Transfer.counted reply.1.outcome)
  same : b.Same before reply.2

/-- In `sound` states the files of a volume are honest about writes; a call that ends a transfer
leaves a `broken` state, every other one a sound state. -/
structure Writes (b : Backing Handle File σ) (host : Host Handle Cache σ) (v : Volume Handle Cache)
    (sound broken : σ → Prop) : Prop where
  honest : ∀ e data place state, v.Backs e place data.length → sound state →
    b.WriteCall (b.file e.handle) data place state (host.write e.handle data place state)
  goes : ∀ e data place state, v.Backs e place data.length → sound state →
    Transfer.stops (host.write e.handle data place state).1 = false →
    sound (host.write e.handle data place state).2
  breaks : ∀ e data place state, v.Backs e place data.length → sound state →
    Transfer.stops (host.write e.handle data place state).1 = true →
    broken (host.write e.handle data place state).2

structure Reads (b : Backing Handle File σ) (host : Host Handle Cache σ) (v : Volume Handle Cache)
    (sound broken : σ → Prop) : Prop where
  honest : ∀ e window place state, v.Backs e place window.length → sound state →
    b.ReadCall (b.file e.handle) window place state (host.read e.handle window place state)
  goes : ∀ e window place state, v.Backs e place window.length → sound state →
    Transfer.stops ((host.read e.handle window place state).1.outcome.mapError .error) = false →
    sound (host.read e.handle window place state).2
  breaks : ∀ e window place state, v.Backs e place window.length → sound state →
    Transfer.stops ((host.read e.handle window place state).1.outcome.mapError .error) = true →
    broken (host.read e.handle window place state).2

structure WriteSoFar (b : Backing Handle File σ) (v : Volume Handle Cache) (data : Bytes)
    (offset : Nat) (before : σ) (status : σ → Prop) (moved : Nat) (buffer : Bytes) (state : σ) :
    Prop where
  buffer_eq : buffer = data
  status : status state
  le : moved ≤ data.length
  inside : 0 < moved → offset + moved ≤ v.total
  overlaid : b.Overlaid v before state offset (data.take moved)

structure ReadSoFar (b : Backing Handle File σ) (v : Volume Handle Cache) (buffer : Bytes)
    (offset : Nat) (before : σ) (status : σ → Prop) (moved : Nat) (current : Bytes) (state : σ) :
    Prop where
  current_eq : current = (b.flat v before).window offset moved ++ buffer.drop moved
  status : status state
  le : moved ≤ buffer.length
  inside : 0 < moved → offset + moved ≤ v.total
  same : b.Same before state

variable {b : Backing Handle File σ} {host : Host Handle Cache σ} {v : Volume Handle Cache}
    {sound broken status : σ → Prop} {data buffer : Bytes} {offset moved : Nat} {before state : σ}

theorem WriteSoFar.call (independent : b.Independent v) {status' : σ → Prop} {rest : Bytes}
    (h : b.WriteSoFar v data offset before status moved rest state) {e : Extent Handle}
    (he : e ∈ v.layout.extents) (hle : e.start ≤ offset + moved)
    (hlt : offset + moved < e.start + e.length)
    {reply : Except (Failure IoError) Nat × σ}
    (call : b.WriteCall (b.file e.handle)
      ((data.drop moved).take (e.start + e.length - (offset + moved))) (offset + moved - e.start)
      state reply)
    (hstatus : status' reply.2) :
    b.WriteSoFar v data offset before status' (moved + Transfer.counted reply.1) data reply.2 := by
  have hcount := call.counted_le
  have hlays := call.lays
  rw [List.length_take, List.length_drop] at hcount
  rw [List.take_take, Nat.min_eq_left (by omega)] at hlays
  have hbounds := v.layout.tiles.bounds he
  have hnew : ((data.drop moved).take (Transfer.counted reply.1)).length =
      Transfer.counted reply.1 := by
    rw [List.length_take, List.length_drop]
    omega
  have hadded := hlays.overlaid independent he (by rw [hnew]; omega)
  refine ⟨rfl, hstatus, ?_, ?_, ?_⟩
  · have := h.le
    omega
  · unfold Volume.total
    omega
  · rw [List.take_add]
    refine h.overlaid.trans ?_
    have hplace : offset + (data.take moved).length = e.start + (offset + moved - e.start) := by
      have := h.le
      rw [List.length_take]
      omega
    rw [hplace]
    exact hadded

theorem ReadSoFar.length_window {current : Bytes}
    (h : b.ReadSoFar v buffer offset before status moved current state) :
    ((b.flat v before).window offset moved).length = moved := by
  have := h.inside
  rw [Bytes.length_window, length_flat]
  omega

theorem ReadSoFar.call {status' : σ → Prop} {current : Bytes}
    (h : b.ReadSoFar v buffer offset before status moved current state) {e : Extent Handle}
    (he : e ∈ v.layout.extents) (hle : e.start ≤ offset + moved)
    (hlt : offset + moved < e.start + e.length)
    {reply : FileReading × σ} {window : Bytes}
    (hwindow : window = (current.drop moved).take (e.start + e.length - (offset + moved)))
    (call : b.ReadCall (b.file e.handle) window (offset + moved - e.start) state reply)
    (hstatus : status' reply.2) :
    b.ReadSoFar v buffer offset before status' (moved + Transfer.counted reply.1.outcome)
      (current.overlay moved (window.overlay 0 reply.1.bytes)) reply.2 := by
  have hcount := call.counted_le
  have hbounds := v.layout.tiles.bounds he
  have hfront := h.length_window
  have hrest : current.drop moved = buffer.drop moved := by
    rw [h.current_eq, List.drop_left' hfront]
  rw [hrest] at hwindow
  have hlength : window.length ≤ buffer.length - moved := by
    rw [hwindow, List.length_take, List.length_drop]
    omega
  have hspace : window.length ≤ e.start + e.length - (offset + moved) := by
    rw [hwindow]
    exact List.length_take_le _ _
  refine ⟨?_, hstatus, ?_, ?_, h.same.trans call.same⟩
  · have hstretch : b.stretch state (b.file e.handle) (offset + moved - e.start)
        (Transfer.counted reply.1.outcome) =
        (b.flat v before).window (offset + moved) (Transfer.counted reply.1.outcome) := by
      rw [← window_flat v state he (by omega), flat_congr v h.same]
      congr 1
      omega
    have hbehind : window.drop (Transfer.counted reply.1.outcome) ++
        (buffer.drop moved).drop window.length =
        buffer.drop (moved + Transfer.counted reply.1.outcome) := by
      rw [← List.drop_drop, hwindow]
      exact Bytes.drop_take_append (hwindow ▸ hcount)
    have hnew : (window.overlay 0 reply.1.bytes).length ≤ (buffer.drop moved).length := by
      rw [Bytes.length_overlay, List.length_drop]
      exact hlength
    have hlaid := Bytes.overlay_append_length ((b.flat v before).window offset moved) hnew
    rw [hfront, ← h.current_eq, Bytes.length_overlay, call.fills, hstretch] at hlaid
    rw [call.fills, hstretch, hlaid, List.append_assoc, hbehind, ← List.append_assoc,
      Bytes.window_append]
  · have := h.le
    omega
  · unfold Volume.total
    omega

theorem Writes.lead (independent : b.Independent v) (writes : b.Writes host v sound broken)
    (data : Bytes) (offset : Nat) (before : σ) :
    Volume.CallsLead host .writing v.layout.extents data.length offset
      (b.WriteSoFar v data offset before sound)
      (fun moved buffer outcome state => b.WriteSoFar v data offset before broken moved buffer state ∧
        ∀ fault, outcome ≠ .error (.fault fault)) := by
  intro e he moved buffer state _ hm hle hlt h window reply
  obtain rfl := h.buffer_eq
  have backs : v.Backs e (offset + moved - e.start) window.length := .window he hm hle hlt
  have hcall := writes.honest e window _ state backs h.status
  have hcounted : ∀ status : σ → Prop, status reply.2 → b.WriteSoFar v buffer offset before status
      (moved + Transfer.counted reply.1.2) buffer reply.2 :=
    fun _ hstatus => WriteSoFar.call independent h he hle hlt hcall hstatus
  rw [show buffer.overlay moved reply.1.1 = buffer from Bytes.overlay_window buffer moved _]
  refine .of_counted (fun hgoes => hcounted sound ?_)
    (fun hstops => ⟨hcounted broken ?_, hcall.unfaulted⟩)
  · exact writes.goes e window _ state backs h.status hgoes
  · exact writes.breaks e window _ state backs h.status hstops

theorem Reads.lead (reads : b.Reads host v sound broken) (buffer : Bytes) (offset : Nat)
    (before : σ) :
    Volume.CallsLead host .reading v.layout.extents buffer.length offset
      (b.ReadSoFar v buffer offset before sound)
      (fun moved current outcome state =>
        b.ReadSoFar v buffer offset before broken moved current state ∧
          ∀ fault, outcome ≠ .error (.fault fault)) := by
  intro e he moved current state hlength hm hle hlt h window reply
  have backs : v.Backs e (offset + moved - e.start) window.length :=
    .window he (by omega) hle hlt
  have hcall := reads.honest e window _ state backs h.status
  have hcount : Transfer.counted reply.1.2 = Transfer.counted
      (host.read e.handle window (offset + moved - e.start) state).1.outcome :=
    Transfer.counted_mapError _
  have hcounted : ∀ status : σ → Prop, status reply.2 → b.ReadSoFar v buffer offset before status
      (moved + Transfer.counted reply.1.2) (current.overlay moved reply.1.1) reply.2 := by
    intro status hstatus
    rw [hcount]
    exact ReadSoFar.call h he hle hlt rfl hcall hstatus
  refine .of_counted (fun hgoes => hcounted sound ?_)
    (fun hstops => ⟨hcounted broken ?_, Transfer.mapError_ne_fault _⟩)
  · exact reads.goes e window _ state backs h.status hgoes
  · exact reads.breaks e window _ state backs h.status hstops

/-- How a write ends, and what of it is then in the files. -/
inductive WriteEnds (b : Backing Handle File σ) (v : Volume Handle Cache) (data : Bytes)
    (offset : Nat) (before : σ) (sound broken : σ → Prop) :
    Except (Failure VolumeError) Nat → σ → Prop where
  | stored {after : σ} :
      FlatArray.trailing? v.total data offset = none → sound after →
      b.Overlaid v before after offset data →
      WriteEnds b v data offset before sound broken (.ok data.length) after
  | refused {t : Nat} {after : σ} :
      FlatArray.trailing? v.total data offset = some t → sound after →
      b.Overlaid v before after offset (data.take t) →
      WriteEnds b v data offset before sound broken
        (.error (.error (.nonZeroTrailingData (Word.addSat offset t) t))) after
  | failed {t : Nat} {cause : IoError} {after : σ} :
      t < data.length → offset + t < v.total → broken after →
      b.Overlaid v before after offset (data.take t) →
      WriteEnds b v data offset before sound broken
        (.error (.error (.io (Word.addSat offset t) t cause))) after
  | stalled {after : σ} :
      sound after → WriteEnds b v data offset before sound broken (.error (.fault .stalled)) after

/-- How a read ends, and what is then in its buffer. -/
inductive ReadEnds (b : Backing Handle File σ) (v : Volume Handle Cache) (buffer : Bytes)
    (offset : Nat) (before : σ) (sound broken : σ → Prop) : Reading → σ → Prop where
  | filled {after : σ} :
      sound after → b.Same before after →
      ReadEnds b v buffer offset before sound broken
        ⟨FlatArray.read (b.flat v before) buffer.length offset, .ok buffer.length⟩ after
  | failed {t : Nat} {cause : IoError} {after : σ} :
      t < buffer.length → offset + t < v.total → broken after → b.Same before after →
      ReadEnds b v buffer offset before sound broken
        ⟨(b.flat v before).window offset t ++ buffer.drop t,
          .error (.error (.io (Word.addSat offset t) t cause))⟩ after
  | stalled {current : Bytes} {after : σ} :
      sound after → b.Same before after →
      ReadEnds b v buffer offset before sound broken ⟨current, .error (.fault .stalled)⟩ after

/-- Where a failure breaks nothing, every end of a write leaves a sound state. -/
theorem WriteEnds.sound_after {outcome : Except (Failure VolumeError) Nat} {after : σ}
    (h : b.WriteEnds v data offset before sound sound outcome after) : sound after := by
  cases h with
  | stored _ hsound _ | refused _ hsound _ | failed _ _ hsound _ | stalled hsound => exact hsound

theorem ReadEnds.sound_after {reading : Reading} {after : σ}
    (h : b.ReadEnds v buffer offset before sound sound reading after) : sound after := by
  cases h with
  | filled hsound _ | failed _ _ hsound _ | stalled hsound _ => exact hsound

theorem WriteSoFar.start (b : Backing Handle File σ) (v : Volume Handle Cache) (data : Bytes)
    (offset : Nat) (h : sound state) :
    b.WriteSoFar v data offset state sound 0 data state :=
  ⟨rfl, h, Nat.zero_le _, fun h => absurd h (Nat.lt_irrefl 0), (Same.refl state).overlaid offset⟩

theorem ReadSoFar.start (b : Backing Handle File σ) (v : Volume Handle Cache) (buffer : Bytes)
    (offset : Nat) (h : sound state) :
    b.ReadSoFar v buffer offset state sound 0 buffer state :=
  ⟨by simp [Bytes.window], h, Nat.zero_le _, fun h => absurd h (Nat.lt_irrefl 0), Same.refl state⟩

theorem WriteSoFar.overlaid_of_end {rest : Bytes}
    (h : b.WriteSoFar v data offset before status moved rest state) {t : Nat}
    (hend : data.length ≤ moved ∨ v.total ≤ offset + moved) (ht : moved ≤ t) :
    b.Overlaid v before state offset (data.take t) := by
  refine ⟨?_, h.overlaid.outside⟩
  rw [h.overlaid.flat_eq]
  rcases hend with hend | hend
  · rw [List.take_of_length_le hend, List.take_of_length_le (by omega)]
  · rw [Bytes.overlay_take_of_le _ (by rw [length_flat]; omega),
      Bytes.overlay_take_of_le _ (by rw [length_flat]; omega)]

theorem WriteSoFar.ends {p : Progress} (at_p : p.At data.length offset)
    (hend : data.length ≤ p.moved ∨ v.total ≤ offset + p.moved)
    (h : b.WriteSoFar v data offset before sound p.moved p.buffer state) :
    b.WriteEnds v data offset before sound broken (WalkEnd.writing ⟨p, none⟩) state := by
  have htrailing := FlatArray.trailing?_eq_findIdx? data h.inside hend
  have hbuffer := h.buffer_eq
  rw [WalkEnd.writing_of_le (by rw [at_p.length_buffer]; exact h.le), hbuffer]
  cases hfind : (data.drop p.moved).findIdx? (· ≠ 0) with
  | none =>
    rw [hfind] at htrailing
    refine .stored htrailing h.status ?_
    have := h.overlaid_of_end hend h.le
    rwa [List.take_length] at this
  | some position =>
    rw [hfind, Option.map_some] at htrailing
    have hsat : Word.addSat p.offset position = Word.addSat offset (p.moved + position) := by
      rw [Word.addSat, Word.addSat, at_p.offset_eq, Nat.add_assoc]
    dsimp only
    rw [hsat]
    exact .refused htrailing h.status (h.overlaid_of_end hend (Nat.le_add_right _ _))

theorem ReadSoFar.ends {p : Progress} (at_p : p.At buffer.length offset)
    (hend : buffer.length ≤ p.moved ∨ v.total ≤ offset + p.moved)
    (h : b.ReadSoFar v buffer offset before sound p.moved p.buffer state) :
    b.ReadEnds v buffer offset before sound broken (WalkEnd.reading ⟨p, none⟩) state := by
  have hfront := h.length_window
  have hbytes : p.buffer.overlay p.moved (Bytes.zeros (buffer.length - p.moved)) =
      FlatArray.read (b.flat v before) buffer.length offset := by
    have hnew : (Bytes.zeros (buffer.length - p.moved)).length = (buffer.drop p.moved).length := by
      rw [Bytes.length_zeros, List.length_drop]
    have hlaid := Bytes.overlay_append_length ((b.flat v before).window offset p.moved)
      (Nat.le_of_eq hnew)
    rw [hfront, hnew, List.drop_length, List.append_nil, ← h.current_eq] at hlaid
    rw [hlaid]
    exact FlatArray.window_append_zeros h.le (by rw [length_flat]; exact h.inside)
      (by rw [length_flat]; exact hend)
  rw [WalkEnd.reading_of_le (by rw [at_p.length_buffer]; exact h.le), at_p.length_buffer, hbytes]
  exact .filled h.status h.same

/-- Where a write ends if all of its calls add to what is stored. -/
theorem WriteEnds.of_lead
    (calls : Volume.CallsLead host .writing v.layout.extents data.length offset
      (b.WriteSoFar v data offset state sound)
      (fun moved buffer outcome after => b.WriteSoFar v data offset state broken moved buffer after ∧
        ∀ fault, outcome ≠ .error (.fault fault)))
    (patience : Nat) (h : sound state) :
    let last := (v.writeFiles patience data offset).run host state
    b.WriteEnds v data offset state sound broken last.1 last.2 := by
  have hend := v.request_ends data calls patience (WriteSoFar.start b v data offset h)
  rw [Volume.run_writeFiles]
  generalize (Volume.walk .writing patience (v.extentsFrom offset) (.start data offset)).run host
    state = last at hend ⊢
  obtain ⟨w, after⟩ := last
  dsimp only at hend ⊢
  cases hend with
  | complete at_p hreach hgoing => exact hgoing.ends at_p hreach
  | failed he _ hlt _ hm _ _ hstopped =>
    obtain ⟨hstopped, -⟩ := hstopped
    have := (v.layout.tiles.bounds he).2
    exact .failed hm (by unfold Volume.total; omega) hstopped.status hstopped.overlaid
  | refused _ hfault hstopped => exact absurd hfault (Transfer.stopFailure_ne_fault hstopped.2 _)
  | stalled hgoing => exact .stalled hgoing.status
  | overflowed hgoing hpos hover =>
    have := hgoing.inside hpos
    have := v.layout.total_lt
    unfold Volume.total at *
    omega

theorem Writes.ends_independent (independent : b.Independent v)
    (writes : b.Writes host v sound broken) (patience : Nat) (data : Bytes) (offset : Nat)
    (h : sound state) :
    let last := (v.writeFiles patience data offset).run host state
    b.WriteEnds v data offset state sound broken last.1 last.2 :=
  .of_lead (writes.lead independent data offset state) patience h

theorem Writes.ends (distinct : b.Distinct v) (writes : b.Writes host v sound broken)
    (patience : Nat) (data : Bytes) (offset : Nat) (h : sound state) :
    let last := (v.writeFiles patience data offset).run host state
    b.WriteEnds v data offset state sound broken last.1 last.2 :=
  writes.ends_independent distinct.independent patience data offset h

/-- Where a read ends if all of its calls add to what is filled in. -/
theorem ReadEnds.of_lead
    (calls : Volume.CallsLead host .reading v.layout.extents buffer.length offset
      (b.ReadSoFar v buffer offset state sound)
      (fun moved current outcome after =>
        b.ReadSoFar v buffer offset state broken moved current after ∧
          ∀ fault, outcome ≠ .error (.fault fault)))
    (patience : Nat) (h : sound state) :
    let last := (v.readFiles patience buffer offset).run host state
    b.ReadEnds v buffer offset state sound broken last.1 last.2 := by
  have hend := v.request_ends buffer calls patience (ReadSoFar.start b v buffer offset h)
  rw [Volume.run_readFiles]
  generalize (Volume.walk .reading patience (v.extentsFrom offset) (.start buffer offset)).run host
    state = last at hend ⊢
  obtain ⟨w, after⟩ := last
  dsimp only at hend ⊢
  cases hend with
  | complete at_p hreach hgoing => exact hgoing.ends at_p hreach
  | @failed p _ _ _ _ he _ hlt _ hm _ _ hstopped =>
    obtain ⟨hstopped, -⟩ := hstopped
    have := (v.layout.tiles.bounds he).2
    rw [WalkEnd.reading]
    dsimp only
    rw [hstopped.current_eq]
    exact .failed hm (by unfold Volume.total; omega) hstopped.status hstopped.same
  | refused _ hfault hstopped => exact absurd hfault (Transfer.stopFailure_ne_fault hstopped.2 _)
  | stalled hgoing => exact .stalled hgoing.status hgoing.same
  | overflowed hgoing hpos hover =>
    have := hgoing.inside hpos
    have := v.layout.total_lt
    unfold Volume.total at *
    omega

theorem Reads.ends (reads : b.Reads host v sound broken) (patience : Nat) (buffer : Bytes)
    (offset : Nat) (h : sound state) :
    let last := (v.readFiles patience buffer offset).run host state
    b.ReadEnds v buffer offset state sound broken last.1 last.2 :=
  .of_lead (reads.lead buffer offset state) patience h

end Backing

end FlatVolume
