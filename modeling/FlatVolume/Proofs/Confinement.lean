import FlatVolume.Proofs.Recording
import FlatVolume.Proofs.WalkLoop

/-!
# Where the calls of a walk go

Whatever the files reply, every call of a walk is for bytes that the request covers and
that one extent backs, and it is made at the place where the extent has them. The extents
are called in their order, and no call leaves the declared length of a file.
-/

namespace FlatVolume

variable {Handle Cache σ : Type}

/-- A call of a walk: the number of the extent, and the part of the buffer that is to be
moved. -/
structure FileCall where
  index : Nat
  position : Nat
  length : Nat

namespace Exchange

/-- A reply that only interrupts, or that counts some of the bytes asked for and no more. -/
def Proper (x : Exchange Handle Cache) : Prop :=
  ∃ outcome, x.outcome? = some outcome ∧ (Transfer.isInterrupted outcome = true ∨
    ∃ count, outcome = .ok count ∧ 0 < count ∧ count ≤ x.asked)

theorem Proper.not_fails {x : Exchange Handle Cache} (h : x.Proper) : ¬ x.Fails := by
  obtain ⟨outcome, hx, hproper⟩ := h
  rw [fails_iff hx]
  rcases hproper with hint | ⟨count, rfl, hpos, -⟩
  · cases outcome with
    | ok count => simp [Transfer.isInterrupted] at hint
    | error failure => simp [Transfer.stops, hint]
  · simp [Transfer.stops]
    omega

theorem Proper.count_le {x : Exchange Handle Cache} (h : x.Proper) {count : Nat}
    (hx : x.outcome? = some (.ok count)) : count ≤ x.asked := by
  obtain ⟨outcome, hx', hproper⟩ := h
  obtain rfl : outcome = .ok count := Option.some.inj (hx'.symm.trans hx)
  rcases hproper with hint | ⟨count', hcount, -, hle⟩
  · simp [Transfer.isInterrupted] at hint
  · cases hcount
    exact hle

end Exchange

namespace Volume

/-- The call is for bytes of a request at `offset` that the extent of its index backs, and the
exchange asks for them at their place in that extent, out of the buffer as it is. -/
def Confines (v : Volume Handle Cache) (direction : Direction) (offset : Nat) (buffer : Bytes)
    (c : FileCall) (x : Exchange Handle Cache) : Prop :=
  0 < c.length ∧ c.position + c.length ≤ buffer.length ∧
    ∃ e place, v.layout.extents[c.index]? = some e ∧ e.start + place = offset + c.position ∧
      place + c.length ≤ e.length ∧
      x.request = .move direction e.handle (buffer.window c.position c.length) place

/-- The calls for a request that starts with `buffer`, in order, with their exchanges and with
the buffer that the replies have left. -/
inductive Walked (v : Volume Handle Cache) (direction : Direction) (buffer : Bytes) (offset : Nat) :
    List FileCall → List (Exchange Handle Cache) → Bytes → Prop where
  | start : Walked v direction buffer offset [] [] buffer
  | call {calls : List FileCall} {exchanges : List (Exchange Handle Cache)} {current : Bytes}
      {c : FileCall} {x : Exchange Handle Cache} :
      Walked v direction buffer offset calls exchanges current →
      (∀ earlier ∈ calls, earlier.index ≤ c.index) → v.Confines direction offset current c x →
      Walked v direction buffer offset (calls ++ [c]) (exchanges ++ [x])
        (current.overlay c.position x.laid)

/-- The offsets of an extent and those of `length` bytes at `offset` have one in common. -/
def Meets (e : Extent Handle) (offset length : Nat) : Prop :=
  max e.start offset < min (e.start + e.length) (offset + length)

variable {v : Volume Handle Cache} {direction : Direction} {buffer : Bytes} {offset : Nat}

theorem Walked.inside {calls : List FileCall} {exchanges : List (Exchange Handle Cache)}
    {current : Bytes} (h : v.Walked direction buffer offset calls exchanges current) :
    current.length = buffer.length ∧ ∀ c ∈ calls, ∃ e, v.layout.extents[c.index]? = some e ∧
      e.start ≤ offset + c.position ∧ offset + c.position < e.start + e.length ∧
      c.position < buffer.length := by
  induction h with
  | start => simp
  | call _ _ hc ih =>
    obtain ⟨hlength, hcalls⟩ := ih
    refine ⟨by rw [Bytes.length_overlay, hlength], fun c hmem => ?_⟩
    rcases List.mem_append.mp hmem with hmem | hmem
    · exact hcalls c hmem
    · obtain rfl := List.mem_singleton.mp hmem
      obtain ⟨hpos, hfit, e, place, he, hplace, hinside, -⟩ := hc
      exact ⟨e, he, by omega, by omega, by omega⟩

/-- What is kept while a walk goes on: the calls so far are confined and for bytes up to those
moved, and where all replies were proper they have met every extent up to there. -/
def CallsSoFar (v : Volume Handle Cache) (direction : Direction) (buffer : Bytes)
    (offset moved : Nat) (current : Bytes) (state : σ × List (Exchange Handle Cache)) : Prop :=
  ∃ calls, v.Walked direction buffer offset calls state.2 current ∧
    (∀ c ∈ calls, c.position ≤ moved) ∧
    ((∀ x ∈ state.2, x.Proper) →
      ∀ i e, v.layout.extents[i]? = some e → Meets e offset moved → ∃ c ∈ calls, c.index = i)

def CallsAtStop (v : Volume Handle Cache) (direction : Direction) (buffer : Bytes) (offset _moved : Nat)
    (current : Bytes) (_outcome : Except (Failure IoError) Nat)
    (state : σ × List (Exchange Handle Cache)) : Prop :=
  (∃ calls, v.Walked direction buffer offset calls state.2 current) ∧ ∃ x ∈ state.2, ¬ x.Proper

theorem Meets.of_add {i : Nat} {e : Extent Handle} (hi : v.layout.extents[i]? = some e)
    {moved count : Nat} (hle : e.start ≤ offset + moved)
    (hfit : offset + moved + count ≤ e.start + e.length) {j : Nat} {e' : Extent Handle}
    (hj : v.layout.extents[j]? = some e') (h : Meets e' offset (moved + count)) :
    Meets e' offset moved ∨ j = i := by
  unfold Meets at *
  by_cases hold : max e'.start offset < min (e'.start + e'.length) (offset + moved)
  · exact .inl hold
  · exact .inr (v.layout.tiles.index_unique (q := max e'.start (offset + moved)) hj hi
      (by omega) (by omega))

theorem callsLead_confined (host : Host Handle Cache σ) (v : Volume Handle Cache)
    (direction : Direction) (buffer : Bytes) (offset : Nat) :
    CallsLead host.recorded direction v.layout.extents buffer.length offset
      (v.CallsSoFar direction buffer offset) (v.CallsAtStop direction buffer offset) := by
  intro e he moved current ⟨state, before⟩ hlength hm hle hlt ⟨calls, hwalked, hpositions, hmet⟩
    window reply
  obtain ⟨i, hi⟩ := List.mem_iff_getElem?.mp he
  obtain ⟨x, hrequest, hasked, hlaid, houtcome, hleft, hrun⟩ :=
    Transfer.run_call_recorded host direction e.handle window (offset + moved - e.start) state before
  have hrecord : reply.2.2 = before ++ [x] := congrArg (fun last => last.2.2) hrun
  rw [← congrArg (fun last => last.1) hrun] at hleft houtcome
  change reply.1.1 = _ at hleft
  change _ = some reply.1.2 at houtcome
  have hwindow : window.length = min (e.start + e.length - (offset + moved))
      (buffer.length - moved) := by
    rw [← hlength]
    exact Bytes.length_window current moved _
  -- The new call is for the rest of the buffer, as far as the extent backs it.
  have hconfined : v.Confines direction offset current ⟨i, moved, window.length⟩ x := by
    refine ⟨by dsimp only; omega, by dsimp only; omega, e, offset + moved - e.start, hi,
      by dsimp only; omega, by dsimp only; omega, ?_⟩
    rw [hrequest]
    dsimp only
    rw [show window = current.window moved _ from rfl, Bytes.window_length_window]
  have horder : ∀ earlier ∈ calls, earlier.index ≤ i := by
    intro earlier hmem
    obtain ⟨e', he', hle', hlt', -⟩ := hwalked.inside.2 earlier hmem
    have hposition := hpositions earlier hmem
    apply Nat.le_of_not_lt
    intro hlt
    have := v.layout.tiles.stop_le_start hlt hi he'
    omega
  have hwalked' : v.Walked direction buffer offset (calls ++ [⟨i, moved, window.length⟩])
      reply.2.2 (current.overlay moved reply.1.1) := by
    rw [hrecord, hleft, show window = current.window moved _ from rfl,
      Bytes.overlay_overlay_window hlaid]
    exact .call hwalked horder hconfined
  have hx : x ∈ reply.2.2 := by
    rw [hrecord]
    exact List.mem_append_right _ List.mem_cons_self
  have hgoing : ∀ count, (x.Proper → count ≤ window.length) →
      v.CallsSoFar direction buffer offset (moved + count) (current.overlay moved reply.1.1)
        reply.2 := by
    intro count hcount
    refine ⟨_, hwalked', ?_, ?_⟩
    · intro c hc
      rcases List.mem_append.mp hc with hc | hc
      · exact Nat.le_trans (hpositions c hc) (Nat.le_add_right moved count)
      · obtain rfl := List.mem_singleton.mp hc
        exact Nat.le_add_right moved count
    · intro hproper j e' hj hmeets
      have hfit := hcount (hproper x hx)
      rcases Meets.of_add hi hle (by omega) hj hmeets with hold | rfl
      · have hbefore : ∀ y ∈ before, y.Proper := by
          intro y hy
          exact hproper y (by rw [hrecord]; exact List.mem_append_left _ hy)
        obtain ⟨c, hc, hindex⟩ := hmet hbefore j e' hj hold
        exact ⟨c, List.mem_append_left _ hc, hindex⟩
      · exact ⟨_, List.mem_append_right _ List.mem_cons_self, rfl⟩
  refine ⟨fun _ => hgoing 0 (fun _ => Nat.zero_le _), fun count hcount _ => ?_, fun hstops => ?_⟩
  · refine hgoing count fun hproper => ?_
    rw [← hasked]
    exact hproper.count_le (hcount ▸ houtcome)
  · exact ⟨⟨_, hwalked'⟩, x, hx, fun hproper =>
      hproper.not_fails ((Exchange.fails_iff houtcome).mpr hstops)⟩

/-- The exchanges are those of confined calls, none of them on an empty file. If the request has
`returned` after proper replies only, then it has called every file that it meets and no
other. -/
def AllConfined (v : Volume Handle Cache) (direction : Direction) (buffer : Bytes) (offset : Nat)
    (exchanges : List (Exchange Handle Cache)) (returned : Prop) : Prop :=
  ∃ calls current, v.Walked direction buffer offset calls exchanges current ∧
    (∀ c ∈ calls, ∃ e, v.layout.extents[c.index]? = some e ∧ 0 < e.length) ∧
    ((∀ x ∈ exchanges, x.Proper) → returned → ∀ i, (∃ c ∈ calls, c.index = i) ↔
      ∃ e, v.layout.extents[i]? = some e ∧ Meets e offset buffer.length)

theorem Walked.allConfined {calls : List FileCall} {exchanges : List (Exchange Handle Cache)}
    {current : Bytes} {returned : Prop}
    (h : v.Walked direction buffer offset calls exchanges current)
    (met : (∀ x ∈ exchanges, x.Proper) → returned → ∀ i e, v.layout.extents[i]? = some e →
      Meets e offset buffer.length → ∃ c ∈ calls, c.index = i) :
    v.AllConfined direction buffer offset exchanges returned := by
  refine ⟨calls, current, h, fun c hc => ?_, fun hproper hreturned i => ⟨?_, ?_⟩⟩
  · obtain ⟨e, he, hle, hlt, -⟩ := h.inside.2 c hc
    exact ⟨e, he, by omega⟩
  · rintro ⟨c, hc, rfl⟩
    obtain ⟨e, he, hle, hlt, hposition⟩ := h.inside.2 c hc
    exact ⟨e, he, by unfold Meets; omega⟩
  · rintro ⟨e, he, hmeets⟩
    exact met hproper hreturned i e he hmeets

theorem CallsSoFar.allConfined {moved : Nat} {current : Bytes}
    {state : σ × List (Exchange Handle Cache)} {returned : Prop}
    (h : v.CallsSoFar direction buffer offset moved current state)
    (reached : returned → ∀ e ∈ v.layout.extents, Meets e offset buffer.length →
      Meets e offset moved) :
    v.AllConfined direction buffer offset state.2 returned := by
  obtain ⟨calls, hwalked, -, hmet⟩ := h
  refine hwalked.allConfined fun hproper hreturned i e he hmeets => hmet hproper i e he ?_
  exact reached hreturned e (List.mem_of_getElem? he) hmeets

theorem CallsAtStop.allConfined {moved : Nat} {current : Bytes}
    {outcome : Except (Failure IoError) Nat} {state : σ × List (Exchange Handle Cache)}
    {returned : Prop} (h : v.CallsAtStop direction buffer offset moved current outcome state) :
    v.AllConfined direction buffer offset state.2 returned := by
  obtain ⟨⟨calls, hwalked⟩, x, hx, himproper⟩ := h
  exact hwalked.allConfined fun hproper => absurd (hproper x hx) himproper

theorem walk_confined (host : Host Handle Cache σ) (v : Volume Handle Cache) (direction : Direction)
    (patience : Nat) (buffer : Bytes) (offset : Nat) (state : σ) {returned : Prop}
    (hreturned : returned → ∀ fault, ((walk direction patience (v.extentsFrom offset)
      (.start buffer offset)).run host state).1.failure ≠ some (.fault fault)) :
    v.AllConfined direction buffer offset ((walk direction patience (v.extentsFrom offset)
      (.start buffer offset)).exchanges host state) returned := by
  have hstart : v.CallsSoFar direction buffer offset 0 buffer (state, []) := by
    refine ⟨[], .start, by simp, fun _ i e _ hmeets => ?_⟩
    unfold Meets at hmeets
    omega
  have hend := v.request_ends buffer (callsLead_confined host v direction buffer offset) patience
    hstart
  rw [Program.run_recorded, List.nil_append] at hend
  revert hreturned hend
  generalize (walk direction patience (v.extentsFrom offset) (.start buffer offset)).run host state =
    last
  generalize (walk direction patience (v.extentsFrom offset) (.start buffer offset)).exchanges
    host state = exchanges
  obtain ⟨w, state'⟩ := last
  intro hreturned hend
  dsimp only at hend
  generalize hrecord : (state', exchanges) = record at hend
  obtain rfl : exchanges = record.2 := congrArg (fun state => state.2) hrecord
  cases hend with
  | complete at_p hreach hgoing =>
    refine hgoing.allConfined fun _ e he hmeets => ?_
    have := (v.layout.tiles.bounds he).2
    unfold Meets total at *
    omega
  | failed _ _ _ _ _ _ _ hstopped => exact hstopped.allConfined
  | refused _ _ hstopped => exact hstopped.allConfined
  | stalled hgoing => exact hgoing.allConfined fun hr => absurd rfl (hreturned hr _)
  | overflowed hgoing _ _ => exact hgoing.allConfined fun hr => absurd rfl (hreturned hr _)

/-- The walk with something else to do where it has no next place or no next part of the buffer:
where an extent starts behind the offset that comes next, where more is moved than the buffer
has, or where the part leaves the words or the buffer. -/
def walkOr (early : Progress → Program Handle Cache WalkEnd) (direction : Direction)
    (patience : Nat) : List (Extent Handle) → Progress → Program Handle Cache WalkEnd
  | [], p => pure ⟨p, none⟩
  | e :: rest, p =>
    if p.moved < p.buffer.length then
      match p.next e with
      | .error _ => early p
      | .ok none => walkOr early direction patience rest p
      | .ok (some (place, window)) => do
        let t ← transfer direction patience e.handle place window
        match p.advance t with
        | .ok p => walkOr early direction patience rest p
        | .error stop => pure stop
    else
      pure ⟨p, none⟩

theorem run_walkOr {host : Host Handle Cache σ} (early : Progress → Program Handle Cache WalkEnd)
    {length stop : Nat} (bound : stop < wordBound) (patience : Nat)
    {rest : List (Extent Handle)} {start : Nat} {p : Progress} {state : σ}
    (tiles : Tiles start rest stop) (at_p : p.At length offset)
    (reached : p.moved < length → start ≤ p.offset) :
    (walkOr early direction patience rest p).run host state =
      (walk direction patience rest p).run host state := by
  induction rest generalizing start p state with
  | nil => rfl
  | cons e rest ih =>
    obtain ⟨rfl, tiles⟩ := tiles
    rw [walk, walkOr, at_p.length_buffer]
    by_cases hm : p.moved < length
    · have hle := reached hm
      have hbound := tiles.le
      rw [if_pos hm, if_pos hm, at_p.next_eq hm hle (by omega)]
      by_cases hlt : p.offset - e.start < e.length
      · rw [if_pos hlt]
        dsimp only
        rw [Program.bind_eq, Program.bind_eq, Program.run_bind, Program.run_bind]
        rcases extent_passed host direction patience at_p (by omega) hm hle hlt state with
          ⟨p', hadvance, at_p', reached'⟩ | ⟨w, hadvance⟩
        · rw [hadvance]
          exact ih tiles at_p' reached'
        · rw [hadvance]
      · rw [if_neg hlt]
        exact ih tiles at_p (fun _ => by omega)
    · rw [if_neg hm, if_neg hm]

/-- Reads and writes of the files call them inside their extents only, whatever the files
reply, and never look for an offset that lies before an extent. -/
theorem calls_stay_inside (host : Host Handle Cache σ) (v : Volume Handle Cache) (patience : Nat)
    (buffer : Bytes) (offset : Nat) (state : σ) :
    v.AllConfined .reading buffer offset ((v.readFiles patience buffer offset).exchanges host state)
      (∀ fault, ((v.readFiles patience buffer offset).run host state).1.outcome ≠
        .error (.fault fault)) ∧
    v.AllConfined .writing buffer offset ((v.writeFiles patience buffer offset).exchanges host state)
      (∀ fault, ((v.writeFiles patience buffer offset).run host state).1 ≠
        .error (.fault fault)) ∧
    ∀ direction early,
      (walkOr early direction patience (v.extentsFrom offset) (.start buffer offset)).run host
        state =
      (walk direction patience (v.extentsFrom offset) (.start buffer offset)).run host state := by
  refine ⟨?_, ?_, fun direction early => ?_⟩
  · rw [show (v.readFiles patience buffer offset).exchanges host state = _ from
      Program.exchanges_bind host _ _ state, run_readFiles]
    rw [Program.pure_eq, Program.exchanges_done, List.append_nil]
    refine walk_confined host v .reading patience buffer offset state fun hr fault hfault => ?_
    exact hr fault (by simp [WalkEnd.reading, hfault])
  · rw [show (v.writeFiles patience buffer offset).exchanges host state = _ from
      Program.exchanges_bind host _ _ state, run_writeFiles]
    rw [Program.pure_eq, Program.exchanges_done, List.append_nil]
    refine walk_confined host v .writing patience buffer offset state fun hr fault hfault => ?_
    exact hr fault (by simp [WalkEnd.writing, hfault])
  · obtain ⟨start, tiles, hle⟩ := v.layout.tiles_drop_find offset
    exact run_walkOr early v.layout.total_lt patience tiles (Progress.at_start buffer offset)
      fun _ => hle

end Volume

end FlatVolume
