import FlatVolume.Proofs.Patience

/-!
# Files without faults

Files that move something at every call, never more than they were asked to and just what
they count. A volume over them is one array of bytes, to reads and to writes, whatever the
lengths of the transfers are.
-/

namespace FlatVolume

variable {Handle Cache File σ : Type}

namespace Backing

/-- In `sound` states every call on the files of a volume succeeds and leaves a sound state. -/
structure Faultless (b : Backing Handle File σ) (host : Host Handle Cache σ)
    (v : Volume Handle Cache) (sound : σ → Prop) : Prop where
  write : ∀ e data place state, v.Backs e place data.length → sound state →
    let reply := host.write e.handle data place state
    ∃ count, reply.1 = .ok count ∧ 0 < count ∧ count ≤ data.length ∧
      b.Lays state reply.2 (b.file e.handle) place (data.take count) ∧ sound reply.2
  read : ∀ e window place state, v.Backs e place window.length → sound state →
    let reply := host.read e.handle window place state
    ∃ count, reply.1.outcome = .ok count ∧ 0 < count ∧ count ≤ window.length ∧
      window.overlay 0 reply.1.bytes =
        b.stretch state (b.file e.handle) place count ++ window.drop count ∧
      b.Same state reply.2 ∧ sound reply.2

variable {b : Backing Handle File σ} {host : Host Handle Cache σ} {v : Volume Handle Cache}
    {sound : σ → Prop} {state : σ}

/-- Where no call is interrupted, no walk stalls. -/
theorem walk_ne_stalled {direction : Direction} (steady : v.Steady (· = 0) host direction sound)
    (patience : Nat) (buffer : Bytes) (offset : Nat) (hs : sound state) :
    ((Volume.walk direction patience (v.extentsFrom offset) (.start buffer offset)).run host
      state).1.failure ≠ some (.fault .stalled) := by
  obtain ⟨last, ⟨_, rfl, hlast⟩, hstalled⟩ := Volume.request_settles steady buffer offset hs
  rw [hlast patience (Nat.zero_le patience)]
  exact hstalled

/-- A read that nothing breaks and nothing interrupts answers as the array does. -/
theorem ReadEnds.answered {patience offset : Nat} {buffer : Bytes}
    (hends : let last := (v.readFiles patience buffer offset).run host state
      b.ReadEnds v buffer offset state sound (fun _ => False) last.1 last.2)
    (steady : v.Steady (· = 0) host .reading sound) (hs : sound state) :
    ∃ after, (v.readFiles patience buffer offset).run host state =
        (⟨FlatArray.read (b.flat v state) buffer.length offset, .ok buffer.length⟩, after) ∧
      sound after ∧ b.Same state after := by
  have hstalled := Volume.reading_ne_stalled (walk_ne_stalled steady patience buffer offset hs)
  have hrun : ((v.readFiles patience buffer offset).run host state).1 =
      ((Volume.walk .reading patience (v.extentsFrom offset) (.start buffer offset)).run host
        state).1.reading := by
    rw [Volume.run_readFiles]
  rw [← hrun] at hstalled
  generalize (v.readFiles patience buffer offset).run host state = last at hends hstalled
  obtain ⟨reading, after⟩ := last
  cases hends with
  | filled hsound hsame => exact ⟨after, rfl, hsound, hsame⟩
  | failed _ _ hbroken _ => exact hbroken.elim
  | stalled _ _ => exact absurd rfl hstalled

theorem WriteEnds.answered {patience offset : Nat} {data : Bytes}
    (hends : let last := (v.writeFiles patience data offset).run host state
      b.WriteEnds v data offset state sound (fun _ => False) last.1 last.2)
    (steady : v.Steady (· = 0) host .writing sound) (hs : sound state) :
    ∃ after, (v.writeFiles patience data offset).run host state =
        ((FlatArray.answer v.total data offset).mapError .error, after) ∧
      sound after ∧ b.Overlaid v state after offset data := by
  have hstalled := Volume.writing_ne_stalled (walk_ne_stalled steady patience data offset hs)
  have hrun : ((v.writeFiles patience data offset).run host state).1 =
      ((Volume.walk .writing patience (v.extentsFrom offset) (.start data offset)).run host
        state).1.writing := by
    rw [Volume.run_writeFiles]
  rw [← hrun] at hstalled
  generalize (v.writeFiles patience data offset).run host state = last at hends hstalled
  obtain ⟨outcome, after⟩ := last
  cases hends with
  | stored htrailing hsound hlaid =>
    refine ⟨after, ?_, hsound, hlaid⟩
    rw [FlatArray.answer, htrailing]
    rfl
  | @refused t _ htrailing hsound hlaid =>
    obtain ⟨-, hpast, -⟩ := FlatArray.trailing?_eq_some_iff.mp htrailing
    refine ⟨after, ?_, hsound, ?_, hlaid.outside⟩
    · rw [FlatArray.answer, htrailing]
      rfl
    · rw [hlaid.flat_eq, Bytes.overlay_take_of_le _ (by rw [length_flat]; exact hpast)]
  | failed _ _ hbroken _ => exact hbroken.elim
  | stalled _ => exact absurd rfl hstalled

/-- Files that are byte strings, as long as their extents and longer: every call inside an extent
moves all that it was asked to. -/
structure Solid (b : Backing Handle File σ) (host : Host Handle Cache σ)
    (v : Volume Handle Cache) (sound : σ → Prop) (bytes : σ → File → Bytes) : Prop where
  byte : ∀ state file i, b.byte state file i = (bytes state file).getD i 0
  covers : ∀ e ∈ v.layout.extents, ∀ state, sound state →
    e.length ≤ (bytes state (b.file e.handle)).length
  write : ∀ e data place state, v.Backs e place data.length → sound state →
    ∃ after, host.write e.handle data place state = (.ok data.length, after) ∧
      bytes after (b.file e.handle) = (bytes state (b.file e.handle)).overlay place data ∧
      (∀ other, other ≠ b.file e.handle → bytes after other = bytes state other) ∧ sound after
  read : ∀ e window place state, v.Backs e place window.length → sound state →
    host.read e.handle window place state =
      (.found ((bytes state (b.file e.handle)).window place window.length), state)

namespace Solid

variable {bytes : σ → File → Bytes}

theorem stretch_eq (h : b.Solid host v sound bytes) {file : File} {place length : Nat}
    (hfit : place + length ≤ (bytes state file).length) :
    b.stretch state file place length = (bytes state file).window place length := by
  apply List.ext_getElem?
  intro i
  rw [getElem?_stretch, Bytes.window, List.getElem?_take, List.getElem?_drop]
  split
  · rw [h.byte, List.getD_eq_getElem?_getD, List.getElem?_eq_getElem (by omega), Option.getD_some]
  · rfl

theorem lays (h : b.Solid host v sound bytes) {after : σ} {file : File} {place : Nat} {data : Bytes}
    (hfit : place + data.length ≤ (bytes state file).length)
    (hfile : bytes after file = (bytes state file).overlay place data)
    (hother : ∀ other, other ≠ file → bytes after other = bytes state other) :
    b.Lays state after file place data where
  laid i hi := by
    rw [h.byte, hfile, Bytes.getD_overlay, if_pos (by omega), Nat.add_sub_cancel_left,
      List.getD_eq_getElem?_getD, List.getElem?_eq_getElem hi, Option.getD_some]
  kept other i hout := by
    rw [h.byte, h.byte]
    rcases Classical.em (other = file) with rfl | hne
    · have := hout rfl
      rw [hfile, Bytes.getD_overlay, if_neg (by omega)]
    · rw [hother other hne]

theorem faultless (h : b.Solid host v sound bytes) : b.Faultless host v sound where
  write e data place state backs hs := by
    obtain ⟨after, hreply, hfile, hother, hsound⟩ := h.write e data place state backs hs
    have hcovers := h.covers e backs.mem state hs
    have hfits := backs.fits
    rw [hreply]
    refine ⟨data.length, rfl, backs.pos, Nat.le_refl _, ?_, hsound⟩
    rw [List.take_length]
    exact h.lays (by omega) hfile hother
  read e window place state backs hs := by
    have hcovers := h.covers e backs.mem state hs
    have hfits := backs.fits
    have hfit : place + window.length ≤ (bytes state (b.file e.handle)).length := by omega
    have hfound := h.stretch_eq hfit
    rw [h.read e window place state backs hs, ← hfound]
    refine ⟨window.length, ?_, backs.pos, Nat.le_refl _, ?_, .refl state, hs⟩
    · rw [FileReading.found, length_stretch]
    · have hlaid := Bytes.overlay_zero
        (Nat.le_of_eq (length_stretch (b := b) state (b.file e.handle) place window.length))
      rw [length_stretch] at hlaid
      exact hlaid

end Solid

namespace Faultless

theorem writes (h : b.Faultless host v sound) : b.Writes host v sound (fun _ => False) where
  honest e data place state backs hs := by
    obtain ⟨count, hreply, -, hle, hlays, -⟩ := h.write e data place state backs hs
    exact ⟨by rw [hreply]; exact hle, by rw [hreply]; exact hlays, by rw [hreply]; exact nofun⟩
  goes e data place state backs hs _ := by
    obtain ⟨_, -, -, -, -, hsound⟩ := h.write e data place state backs hs
    exact hsound
  breaks e data place state backs hs hstops := by
    obtain ⟨count, hreply, hpos, -⟩ := h.write e data place state backs hs
    rw [hreply] at hstops
    exact absurd (of_decide_eq_true hstops) (Nat.ne_of_gt hpos)

theorem reads (h : b.Faultless host v sound) : b.Reads host v sound (fun _ => False) where
  honest e window place state backs hs := by
    obtain ⟨count, hreply, -, hle, hfills, hsame, -⟩ := h.read e window place state backs hs
    exact ⟨by rw [hreply]; exact hle, by rw [hreply]; exact hfills, hsame⟩
  goes e window place state backs hs _ := by
    obtain ⟨_, -, -, -, -, -, hsound⟩ := h.read e window place state backs hs
    exact hsound
  breaks e window place state backs hs hstops := by
    obtain ⟨count, hreply, hpos, -⟩ := h.read e window place state backs hs
    rw [hreply] at hstops
    exact absurd (of_decide_eq_true hstops) (Nat.ne_of_gt hpos)

theorem steady (h : b.Faultless host v sound) (direction : Direction) :
    v.Steady (· = 0) host direction sound where
  patience := ⟨rfl, by rintro a b rfl rfl; rfl⟩
  goes e window place state backs hs := by
    cases direction with
    | reading => exact h.reads.goes e window place state backs hs
    | writing => exact h.writes.goes e window place state backs hs
  counted_le e window place state backs hs := by
    cases direction with
    | reading =>
      have hcall := (h.reads.honest e window place state backs hs).counted_le
      rw [← Transfer.counted_mapError] at hcall
      exact hcall
    | writing => exact (h.writes.honest e window place state backs hs).counted_le
  unfaulted e window place state backs hs := by
    cases direction with
    | reading => exact Transfer.mapError_ne_fault _
    | writing => exact (h.writes.honest e window place state backs hs).unfaulted
  answered e window place state backs hs := by
    refine ⟨0, rfl, .now ?_⟩
    cases direction with
    | reading =>
      obtain ⟨count, hreply, -⟩ := h.read e window place state backs hs
      change Transfer.isInterrupted (Except.mapError Failure.error
        (host.read e.handle window place state).1.outcome) = false
      rw [hreply]
      rfl
    | writing =>
      obtain ⟨count, hreply, -⟩ := h.write e window place state backs hs
      change Transfer.isInterrupted (host.write e.handle window place state).1 = false
      rw [hreply]
      rfl

theorem run_readFiles (h : b.Faultless host v sound) (patience : Nat) (buffer : Bytes)
    (offset : Nat) (hs : sound state) :
    ∃ after, (v.readFiles patience buffer offset).run host state =
        (⟨FlatArray.read (b.flat v state) buffer.length offset, .ok buffer.length⟩, after) ∧
      sound after ∧ b.Same state after :=
  (h.reads.ends patience buffer offset hs).answered (h.steady .reading) hs

theorem run_writeFiles_independent (h : b.Faultless host v sound) (independent : b.Independent v)
    (patience : Nat) (data : Bytes) (offset : Nat) (hs : sound state) :
    ∃ after, (v.writeFiles patience data offset).run host state =
        ((FlatArray.answer v.total data offset).mapError .error, after) ∧
      sound after ∧ b.Overlaid v state after offset data :=
  (h.writes.ends_independent independent patience data offset hs).answered (h.steady .writing) hs

theorem run_writeFiles (h : b.Faultless host v sound) (distinct : b.Distinct v) (patience : Nat)
    (data : Bytes) (offset : Nat) (hs : sound state) :
    ∃ after, (v.writeFiles patience data offset).run host state =
        ((FlatArray.answer v.total data offset).mapError .error, after) ∧
      sound after ∧ b.Overlaid v state after offset data :=
  h.run_writeFiles_independent distinct.independent patience data offset hs

end Faultless

end Backing

end FlatVolume
