import FlatVolume.Proofs.FaithfulCache
import FlatVolume.Proofs.Schedule

/-!
# A pocket for bytes

A small cache in front of files that follow a schedule. It has room for the first offsets
only: of a write it holds what belongs there and hands back the rest, together with all
that it held before. A piece is one byte, dropped when it is marked. So there are faithful
caches that hold, hand back and drop.
-/

namespace FlatVolume

/-- The files, and the bytes that are held. -/
structure Pocket where
  files : Scheduled
  held : Nat → Option UInt8

namespace Pocket

/-- Files without faults, and nothing held where there is no room. -/
structure Sound (room : Nat) (s : Pocket) : Prop where
  moves : ∀ turn ∈ s.files.turns, ∃ count, turn = .upTo (count + 1)
  empty : ∀ q, room ≤ q → s.held q = none

def backing : Backing Nat Nat Pocket :=
  ⟨id, fun s => s.files.byte⟩

def read (s : Pocket) (buffer : Bytes) (offset : Nat) : CacheReading :=
  let missing := (List.range buffer.length).filter fun i => (s.held (offset + i)).isNone
  ⟨(List.range buffer.length).map fun i => (s.held (offset + i)).getD (buffer.getD i 0),
    .ok (missing.map fun i => ⟨i, 1, offset + i⟩)⟩

def keep (room : Nat) (data : Bytes) (offset q : Nat) : Option UInt8 :=
  if offset ≤ q ∧ q < room then data[q - offset]? else none

def evicted (room : Nat) (s : Pocket) (data : Bytes) (offset : Nat) : List WriteBack :=
  ((List.range room).filter fun q => ¬ InRange offset data.length q).filterMap fun q =>
    (s.held q).map fun c => ⟨q, [c]⟩

def passed (room : Nat) (data : Bytes) (offset : Nat) : WriteBack :=
  ⟨max offset room, data.drop (room - offset)⟩

def host (room : Nat) : Host Nat Unit Pocket where
  answer
    | .openFile path length, s =>
      let (outcome, files) := Scheduled.host.answer (.openFile path length) s.files
      (outcome, { s with files })
    | .readHandle file window place, s =>
      let (reading, files) := Scheduled.host.read file window place s.files
      (reading, { s with files })
    | .writeHandle file data place, s =>
      let (outcome, files) := Scheduled.host.write file data place s.files
      (outcome, { s with files })
    | .closeHandle _, s => (.ok (), s)
    | .readCache _ buffer offset, s => (s.read buffer offset, s)
    | .writeCache _ data offset, s =>
      (passed room data offset :: s.evicted room data offset, { s with held := keep room data offset })
    | .markCommitted _ piece, s => ((), { s with held := fun q => if q = piece then none else s.held q })
    | .closeCache _, s => (.ok (), s)
    | .log _, s => ((), s)

variable {room : Nat} {s : Pocket}

theorem serves_read (s : Pocket) (buffer : Bytes) (offset : Nat) :
    ∃ gaps, (s.read buffer offset).gaps = .ok gaps ∧
      Serves s.held buffer offset (s.read buffer offset).bytes gaps := by
  refine ⟨_, rfl, fun i hi => ?_, fun gap hgap => ?_, fun i hi => ⟨?_, fun hnone => ?_⟩⟩
  · rw [Bytes.getD_overlay, if_pos ⟨Nat.zero_le i, by simpa [read] using hi, hi⟩]
    simp [read, List.getD_eq_getElem?_getD, hi]
  · obtain ⟨i, hi, rfl⟩ := List.mem_map.mp hgap
    have hlt := List.mem_range.mp (List.mem_filter.mp hi).1
    exact ⟨rfl, hlt⟩
  · rintro ⟨gap, hgap, hle, hlt⟩
    obtain ⟨j, hj, rfl⟩ := List.mem_map.mp hgap
    dsimp only at hle hlt
    obtain rfl : j = i := by omega
    simpa using (List.mem_filter.mp hj).2
  · refine ⟨⟨i, 1, offset + i⟩, List.mem_map_of_mem (List.mem_filter.mpr ⟨List.mem_range.mpr hi, ?_⟩),
      Nat.le_refl i, Nat.lt_succ_self i⟩
    rw [hnone]
    rfl

theorem takes_write (h : s.Sound room) (data : Bytes) (offset : Nat) :
    Takes s.held (keep room data offset) data offset
      (passed room data offset :: s.evicted room data offset) where
  request i c hc := by
    by_cases hroom : offset + i < room
    · refine .inl ?_
      rw [keep, if_pos ⟨Nat.le_add_right offset i, hroom⟩, Nat.add_sub_cancel_left, hc]
    · refine .inr ⟨by rw [keep, if_neg (by omega)], _, List.mem_cons_self, ?_, ?_⟩
      · dsimp only [passed]
        omega
      · dsimp only [passed]
        rw [List.getElem?_drop, ← hc]
        congr 1
        omega
  others q hout := by
    cases hq : s.held q with
    | none =>
      refine .inl ?_
      rw [keep]
      split
      · rw [List.getElem?_eq_none]
        unfold InRange at hout
        omega
      · rfl
    | some c =>
      have hroom : q < room := by
        refine Nat.lt_of_not_le fun hle => ?_
        rw [h.empty q hle] at hq
        cases hq
      refine .inr ⟨?_, c, rfl, ⟨q, [c]⟩, List.mem_cons_of_mem _ (List.mem_filterMap.mpr ⟨q, ?_, ?_⟩),
        Nat.le_refl q, by simp⟩
      · rw [keep]
        split
        · rw [List.getElem?_eq_none]
          unfold InRange at hout
          omega
        · rfl
      · exact List.mem_filter.mpr ⟨List.mem_range.mpr hroom, decide_eq_true hout⟩
      · rw [hq]
        rfl
  returned range hrange q c hhas := by
    obtain ⟨hle, hbyte⟩ := hhas
    rcases List.mem_cons.mp hrange with rfl | hrange
    · dsimp only [passed] at hle hbyte
      obtain ⟨hlt, -⟩ := List.getElem?_eq_some_iff.mp hbyte
      rw [List.length_drop] at hlt
      rw [List.getElem?_drop] at hbyte
      refine .inl ⟨⟨by omega, by omega⟩, ?_⟩
      rw [← hbyte]
      congr 1
      omega
    · obtain ⟨p, hp, hmap⟩ := List.mem_filterMap.mp hrange
      obtain ⟨c', hc', rfl⟩ := Option.map_eq_some_iff.mp hmap
      obtain ⟨hlt, -⟩ := List.getElem?_eq_some_iff.mp hbyte
      dsimp only [List.length_singleton] at hle hlt
      obtain rfl : q = p := by omega
      rw [Nat.sub_self] at hbyte
      obtain rfl : c' = c := by simpa using hbyte
      exact .inr ⟨of_decide_eq_true (List.mem_filter.mp hp).2, hc'⟩

theorem faithful (room : Nat) : backing.Faithful (host room) () held (Sound room) where
  read buffer offset s hs _ := ⟨hs, .refl s, rfl, s.serves_read buffer offset⟩
  write data offset s hs _ := by
    refine ⟨⟨hs.moves, fun q hq => ?_⟩, fun _ _ => rfl, takes_write hs data offset⟩
    change keep room data offset q = none
    rw [keep, if_neg (by omega)]
  mark piece s hs := by
    refine ⟨⟨hs.moves, fun q hq => ?_⟩, fun _ _ => rfl⟩
    change (if q = piece then none else s.held q) = none
    rw [hs.empty q hq, ite_self]

theorem faultless (v : Volume Nat Unit) (room : Nat) (kept : Nat → Option UInt8) :
    backing.Faultless (host room) v fun s => s.Sound room ∧ s.held = kept where
  write e data place s backs hs := by
    obtain ⟨count, hcount, hpos, hle⟩ := s.files.outcome_moves hs.1.moves backs.pos
    have hreply : (host room).write e.handle data place s = (.ok count,
        ⟨⟨Scheduled.put s.files.byte e.handle place (data.take count), s.files.turns.tail⟩,
          s.held⟩) := by
      change ((s.files.outcome data.length).mapError Failure.error, Pocket.mk ⟨Scheduled.put
        s.files.byte e.handle place (data.take (Transfer.counted (s.files.outcome data.length))),
        s.files.turns.tail⟩ s.held) = _
      rw [hcount]
      rfl
    have hlays := s.files.lays_put e.handle place (data.take count) s.files.turns.tail
    rw [hreply]
    refine ⟨count, rfl, hpos, hle, ⟨hlays.laid, hlays.kept⟩, ⟨fun turn ht => ?_, hs.1.empty⟩, hs.2⟩
    exact hs.1.moves turn (List.mem_of_mem_tail ht)
  read e window place s backs hs := by
    obtain ⟨count, hcount, hpos, hle⟩ := s.files.outcome_moves hs.1.moves backs.pos
    refine ⟨count, hcount, hpos, hle, ?_, fun _ _ => rfl, ⟨fun turn ht => ?_, hs.1.empty⟩, hs.2⟩
    · have hlength : (backing.stretch s e.handle place count).length ≤ window.length := by
        rw [Backing.length_stretch]
        exact hle
      have hlaid := Bytes.overlay_zero hlength
      rw [Backing.length_stretch] at hlaid
      have hbytes : ((host room).read e.handle window place s).1.bytes =
          backing.stretch s e.handle place count := by
        change (List.range (Transfer.counted (s.files.outcome window.length))).map _ = _
        rw [hcount]
        rfl
      rw [hbytes]
      exact hlaid
    · exact hs.1.moves turn (List.mem_of_mem_tail ht)

/-- Whatever the schedule is and whatever is held, the files are honest. -/
theorem writes (v : Volume Nat Unit) (room : Nat) :
    backing.Writes (host room) v (fun _ => True) (fun _ => True) where
  honest e data place s backs _ := by
    have call := (Scheduled.writes ⟨v.layout, none⟩).honest e data place s.files
      ⟨backs.mem, backs.pos, backs.fits⟩ trivial
    exact ⟨call.counted_le, ⟨call.lays.laid, call.lays.kept⟩, call.unfaulted⟩
  goes _ _ _ _ _ _ _ := trivial
  breaks _ _ _ _ _ _ _ := trivial

end Pocket

end FlatVolume
