import FlatVolume.Proofs.Patience

/-!
# Files that follow a schedule

Honest files whose failures are laid down beforehand: each call has its turn in a list, and
what comes after the list succeeds. So there are honest files for every finite pattern of
short transfers, interruptions and failures.
-/

namespace FlatVolume

/-- How a call turns out: it moves at most some bytes, or it fails. -/
inductive Turn where
  | upTo (count : Nat)
  | fails (e : IoError)

structure Scheduled where
  byte : Nat → Nat → UInt8
  turns : List Turn

namespace Scheduled

def outcome (s : Scheduled) (asked : Nat) : Except IoError Nat :=
  match s.turns with
  | [] => .ok asked
  | .upTo count :: _ => .ok (min count asked)
  | .fails e :: _ => .error e

def put (byte : Nat → Nat → UInt8) (file place : Nat) (data : Bytes) : Nat → Nat → UInt8 :=
  fun other i => if other = file ∧ place ≤ i then data.getD (i - place) (byte other i) else byte other i

def host : Host Nat Empty Scheduled where
  answer
    | .openFile _ _, s => (.ok 0, s)
    | .readHandle file window place, s =>
      let outcome := s.outcome window.length
      let bytes := (List.range (Transfer.counted outcome)).map fun i => s.byte file (place + i)
      (⟨bytes, outcome⟩, { s with turns := s.turns.tail })
    | .writeHandle file data place, s =>
      let outcome := s.outcome data.length
      let byte := put s.byte file place (data.take (Transfer.counted outcome))
      (outcome.mapError .error, ⟨byte, s.turns.tail⟩)
    | .closeHandle _, s => (.ok (), s)
    | .log _, s => ((), s)

def backing : Backing Nat Nat Scheduled :=
  ⟨id, byte⟩

theorem counted_outcome_le (s : Scheduled) (asked : Nat) :
    Transfer.counted (s.outcome asked) ≤ asked := by
  unfold outcome
  split
  · exact Nat.le_refl asked
  · exact Nat.min_le_right _ asked
  · exact Nat.zero_le asked

theorem outcome_moves (s : Scheduled) {asked : Nat}
    (h : ∀ turn ∈ s.turns, ∃ count, turn = .upTo (count + 1)) (hpos : 0 < asked) :
    ∃ count, s.outcome asked = .ok count ∧ 0 < count ∧ count ≤ asked := by
  unfold outcome
  cases hturns : s.turns with
  | nil => exact ⟨asked, rfl, hpos, Nat.le_refl asked⟩
  | cons turn rest =>
    obtain ⟨count, rfl⟩ := h turn (by rw [hturns]; exact List.mem_cons_self)
    exact ⟨min (count + 1) asked, rfl, by omega, by omega⟩

theorem lays_put (s : Scheduled) (file place : Nat) (data : Bytes) (turns : List Turn) :
    backing.Lays s ⟨put s.byte file place data, turns⟩ file place data where
  laid i hi := by
    simp only [backing, put]
    rw [if_pos ⟨trivial, Nat.le_add_right place i⟩, Nat.add_sub_cancel_left,
      List.getD_eq_getElem?_getD, List.getElem?_eq_getElem hi, Option.getD_some]
  kept other i hout := by
    simp only [backing, put]
    split
    · rename_i hin
      have := hout hin.1
      rw [List.getD_eq_getElem?_getD, List.getElem?_eq_none (by omega), Option.getD_none]
    · rfl

/-- Whatever the schedule is, the files are honest. -/
theorem writes (v : Volume Nat Empty) :
    backing.Writes host v (fun _ => True) (fun _ => True) where
  honest e data place s _ _ := by
    refine ⟨?_, ?_, Transfer.mapError_ne_fault (s.outcome data.length)⟩
    · exact Nat.le_trans (Nat.le_of_eq (Transfer.counted_mapError (s.outcome data.length)))
        (s.counted_outcome_le data.length)
    · have hcounted : Transfer.counted (host.write e.handle data place s).1 =
          Transfer.counted (s.outcome data.length) := Transfer.counted_mapError _
      rw [hcounted]
      exact s.lays_put e.handle place _ _
  goes _ _ _ _ _ _ _ := trivial
  breaks _ _ _ _ _ _ _ := trivial

theorem reads (v : Volume Nat Empty) :
    backing.Reads host v (fun _ => True) (fun _ => True) where
  honest e window place s _ _ := by
    have hcounted := s.counted_outcome_le window.length
    refine ⟨hcounted, ?_, fun _ _ => rfl⟩
    have hlength := Backing.length_stretch (b := backing) s e.handle place
      (Transfer.counted (s.outcome window.length))
    have hlaid := Bytes.overlay_zero (hlength ▸ hcounted)
    rw [hlength] at hlaid
    exact hlaid
  goes _ _ _ _ _ _ _ := trivial
  breaks _ _ _ _ _ _ _ := trivial

/-- A schedule comes to its end, and so do the interruptions of calls that are up to it. -/
theorem answered_of {Cache τ : Type} {host : Host Nat Cache τ} (files : τ → Scheduled)
    {direction : Direction} {file place : Nat}
    (hcall : ∀ window state,
      let reply := (Transfer.call direction file window place).run host state
      reply.1.2 = ((files state).outcome window.length).mapError .error ∧
        (files reply.2).turns = (files state).turns.tail)
    (window : Bytes) (state : τ) :
    ∃ count, Transfer.Answered host direction file place count window state := by
  generalize hturns : (files state).turns = turns
  induction turns generalizing window state with
  | nil =>
    have hall : (files state).outcome window.length = .ok window.length := by
      rw [outcome, hturns]
    refine ⟨0, .now ?_⟩
    rw [(hcall window state).1, hall]
    rfl
  | cons turn rest ih =>
    by_cases hint : Transfer.isInterrupted
        ((Transfer.call direction file window place).run host state).1.2 = true
    · have hrest := (hcall window state).2
      rw [hturns] at hrest
      obtain ⟨count, hcount⟩ := ih _ _ hrest
      exact ⟨count + 1, .later hint hcount⟩
    · exact ⟨0, .now (by simpa using hint)⟩

theorem run_call (direction : Direction) (file place : Nat) (window : Bytes) (s : Scheduled) :
    let reply := (Transfer.call direction file window place).run host s
    reply.1.2 = (s.outcome window.length).mapError .error ∧ reply.2.turns = s.turns.tail := by
  cases direction <;> exact ⟨rfl, rfl⟩

theorem answered {direction : Direction} (file place : Nat) (data : Bytes) (s : Scheduled) :
    ∃ count, Transfer.Answered host direction file place count data s :=
  answered_of id (run_call direction file place) data s

/-- The same files behind a cache that always gives the same replies. -/
def cached (reading : CacheReading) (ranges : List WriteBack) : Host Nat Unit Scheduled where
  answer
    | .openFile path length, s => host.answer (.openFile path length) s
    | .readHandle file window place, s => host.read file window place s
    | .writeHandle file data place, s => host.write file data place s
    | .closeHandle file, s => host.answer (.closeHandle file) s
    | .readCache _ _ _, s => (reading, s)
    | .writeCache _ _ _, s => (ranges, s)
    | .markCommitted _ _, s => ((), s)
    | .closeCache _, s => (.ok (), s)
    | .log line, s => host.answer (.log line) s

theorem reads_cached (reading : CacheReading) (ranges : List WriteBack) (v : Volume Nat Unit) :
    backing.Reads (cached reading ranges) v (fun _ => True) (fun _ => True) where
  honest e window place s backs _ :=
    (reads ⟨v.layout, none⟩).honest e window place s ⟨backs.mem, backs.pos, backs.fits⟩ trivial
  goes _ _ _ _ _ _ _ := trivial
  breaks _ _ _ _ _ _ _ := trivial

theorem writes_cached (reading : CacheReading) (ranges : List WriteBack) (v : Volume Nat Unit) :
    backing.Writes (cached reading ranges) v (fun _ => True) (fun _ => True) where
  honest e data place s backs _ :=
    (writes ⟨v.layout, none⟩).honest e data place s ⟨backs.mem, backs.pos, backs.fits⟩ trivial
  goes _ _ _ _ _ _ _ := trivial
  breaks _ _ _ _ _ _ _ := trivial

theorem answered_cached (reading : CacheReading) (ranges : List WriteBack) {direction : Direction}
    (file place : Nat) (window : Bytes) (s : Scheduled) :
    ∃ count, Transfer.Answered (cached reading ranges) direction file place count window s := by
  refine answered_of id ?_ window s
  intro window s
  cases direction <;> exact ⟨rfl, rfl⟩

end Scheduled

end FlatVolume
