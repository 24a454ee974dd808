import FlatVolume.Proofs.PocketCache

/-!
# A cached volume is one array

What a volume shows through a faithful cache is what the cache holds, and elsewhere what the
files have. Bytes move between the two with every write and every commit; what is shown
changes only where something is written. So a cache cannot be told from no cache.
-/

namespace FlatVolume

variable {Handle Cache File σ : Type}

inductive CachedAction where
  | read (buffer : Bytes) (offset : Nat)
  | write (data : Bytes) (offset : Nat)
  | commit (piece : Nat) (data : Bytes) (offset : Nat)

inductive CachedAnswer where
  | reading (reading : Reading)
  | writing (outcome : Except (Failure VolumeError) Nat)
  | committing (outcome : Except Fault Unit)

namespace CachedAction

def perform (patience : Nat) (v : Volume Handle Cache) :
    CachedAction → Program Handle Cache CachedAnswer
  | read buffer offset => do
    let reading ← v.read patience buffer offset
    pure (.reading reading)
  | write data offset => do
    let outcome ← v.write patience data offset
    pure (.writing outcome)
  | commit piece data offset => do
    let outcome ← v.commit patience piece data offset
    pure (.committing outcome)

def performAll (patience : Nat) (v : Volume Handle Cache) :
    List CachedAction → Program Handle Cache (List CachedAnswer)
  | [] => pure []
  | action :: rest => do
    let answer ← action.perform patience v
    let answers ← performAll patience v rest
    pure (answer :: answers)

/-- The action as it is on an array with zeros behind its end. -/
def onArray (a : Bytes) : CachedAction → CachedAnswer × Bytes
  | read buffer offset => (.reading ⟨FlatArray.read a buffer.length offset, .ok buffer.length⟩, a)
  | write data offset => (.writing (.ok data.length), a.overlay offset data)
  | commit _ data offset => (.committing (.ok ()), a.overlay offset data)

def allOnArray : List CachedAction → Bytes → List CachedAnswer × Bytes
  | [], a => ([], a)
  | action :: rest, a =>
    let (answer, a) := action.onArray a
    let (answers, a) := allOnArray rest a
    (answer :: answers, a)

/-- What is asked of an action: it ends at or before the last offset, only zeros come behind the
end of the volume, and a commit has the bytes that are held. When a commit is marked, no byte
is dropped that it was not for. -/
def Allowed (patience : Nat) (host : Host Handle Cache σ) (v : Volume Handle Cache) (cache : Cache)
    (held : σ → Nat → Option UInt8) (state : σ) : CachedAction → Prop
  | read buffer offset => offset + buffer.length ≤ wordBound
  | write data offset =>
    offset + data.length ≤ wordBound ∧ FlatArray.trailing? v.total data offset = none
  | commit piece data offset =>
    offset + data.length ≤ wordBound ∧ FlatArray.trailing? v.total data offset = none ∧
    (∀ q c, InRange offset data.length q → held state q = some c → data[q - offset]? = some c) ∧
    let written := ((v.writeFiles patience data offset).run host state).2
    ∀ q, held (host.markCommitted cache piece written) q = held written q ∨
      held (host.markCommitted cache piece written) q = none ∧ InRange offset data.length q

def AllAllowed (patience : Nat) (host : Host Handle Cache σ) (v : Volume Handle Cache)
    (cache : Cache) (held : σ → Nat → Option UInt8) : List CachedAction → σ → Prop
  | [], _ => True
  | action :: rest, state =>
    action.Allowed patience host v cache held state ∧
      AllAllowed patience host v cache held rest ((action.perform patience v).run host state).2

end CachedAction

namespace Backing

/-- What a volume shows: the bytes that are held, and those of the files elsewhere. -/
def view (b : Backing Handle File σ) (v : Volume Handle Cache) (held : σ → Nat → Option UInt8)
    (state : σ) : Bytes :=
  (List.range v.total).map fun q => (held state q).getD ((b.flat v state).getD q 0)

/-- A volume with a faithful cache, over files that are distinct, never fail, and change nothing
that is held. -/
structure Cached (b : Backing Handle File σ) (host : Host Handle Cache σ) (v : Volume Handle Cache)
    (cache : Cache) (held : σ → Nat → Option UInt8) (sound : σ → Prop) : Prop where
  attached : v.cache = some cache
  distinct : b.Distinct v
  files : ∀ kept, b.Faultless host v fun state => sound state ∧ held state = kept
  faithful : b.Faithful host cache held sound

/-- An array is shown, and nothing but zeros is held behind its end. -/
structure Shows (b : Backing Handle File σ) (v : Volume Handle Cache)
    (held : σ → Nat → Option UInt8) (a : Bytes) (state : σ) : Prop where
  length_eq : a.length = v.total
  byte_eq : ∀ q, a.getD q 0 = (held state q).getD ((b.flat v state).getD q 0)

variable {b : Backing Handle File σ} {host : Host Handle Cache σ} {v : Volume Handle Cache}
    {cache : Cache} {held : σ → Nat → Option UInt8} {sound : σ → Prop} {a : Bytes} {state : σ}

@[simp] theorem length_view (b : Backing Handle File σ) (v : Volume Handle Cache)
    (held : σ → Nat → Option UInt8) (state : σ) : (b.view v held state).length = v.total := by
  simp [view]

namespace Shows

theorem start (zero : ∀ q c, v.total ≤ q → held state q = some c → c = 0) :
    b.Shows v held (b.view v held state) state := by
  refine ⟨b.length_view v held state, fun q => ?_⟩
  rw [view, List.getD_eq_getElem?_getD, List.getElem?_map]
  by_cases hq : q < v.total
  · simp [hq]
  · have hflat : (b.flat v state).getD q 0 = 0 := by
      rw [List.getD_eq_getElem?_getD, List.getElem?_eq_none (by rw [length_flat]; omega),
        Option.getD_none]
    rw [List.getElem?_eq_none (by rw [List.length_range]; omega), hflat]
    cases hheld : held state q with
    | none => rfl
    | some c => rw [zero q c (Nat.le_of_not_lt hq) hheld]; rfl

theorem view_eq (h : b.Shows v held a state) : b.view v held state = a := by
  apply List.ext_getElem (by rw [length_view, h.length_eq])
  intro q hq hq'
  have hbyte := h.byte_eq q
  rw [List.getD_eq_getElem?_getD, List.getElem?_eq_getElem hq', Option.getD_some] at hbyte
  rw [hbyte]
  simp [view]

theorem of_held (h : b.Shows v held a state) {q : Nat} {c : UInt8} (hq : held state q = some c) :
    a.getD q 0 = c := by
  rw [h.byte_eq, hq, Option.getD_some]

theorem of_not_held (h : b.Shows v held a state) {q : Nat} (hq : held state q = none) :
    a.getD q 0 = (b.flat v state).getD q 0 := by
  rw [h.byte_eq, hq, Option.getD_none]

/-- To know what is shown it is enough to know, for every offset, the byte of what has it. -/
theorem of_bytes (hlength : a.length = v.total)
    (heldBytes : ∀ q c, held state q = some c → a.getD q 0 = c)
    (fileBytes : ∀ q < v.total, held state q = none → a.getD q 0 = (b.flat v state).getD q 0) :
    b.Shows v held a state := by
  refine ⟨hlength, fun q => ?_⟩
  cases hheld : held state q with
  | some c => rw [heldBytes q c hheld, Option.getD_some]
  | none =>
    rw [Option.getD_none]
    by_cases hq : q < v.total
    · exact fileBytes q hq hheld
    · rw [List.getD_eq_getElem?_getD, List.getElem?_eq_none (by omega), List.getD_eq_getElem?_getD,
        List.getElem?_eq_none (by rw [length_flat]; omega)]

theorem getD_overlay_outside (a : Bytes) {data : Bytes} {offset q : Nat}
    (hq : ¬ InRange offset data.length q) : (a.overlay offset data).getD q 0 = a.getD q 0 := by
  rw [Bytes.getD_overlay, if_neg]
  rintro ⟨hle, hlt, -⟩
  exact hq ⟨hle, hlt⟩

theorem read (h : b.Shows v held a state) (c : b.Cached host v cache held sound) (hs : sound state)
    (patience : Nat) {buffer : Bytes} {offset : Nat} (hbound : offset + buffer.length ≤ wordBound) :
    ∃ after, (v.read patience buffer offset).run host state =
        (⟨FlatArray.read a buffer.length offset, .ok buffer.length⟩, after) ∧
      sound after ∧ b.Shows v held a after := by
  obtain ⟨hsound, hsame, hheld, gaps, hgaps, serves⟩ := c.faithful.read buffer offset state hs hbound
  generalize hreply : host.readCache cache buffer offset state = reply at *
  obtain ⟨reading, middle⟩ := reply
  dsimp only at hsound hsame hheld hgaps serves
  obtain ⟨after, hrun, ⟨hsound', hheld'⟩, hsame'⟩ := (c.files (held middle)).run_read_served
    c.attached patience hreply hgaps serves ⟨hsound, rfl⟩
  rw [FlatArray.withHeld_read, flat_congr v hsame] at hrun
  refine ⟨after, ?_, hsound', h.length_eq, fun q => ?_⟩
  · rw [hrun, FlatArray.read, funext fun i => h.byte_eq (offset + i)]
  · rw [hheld', hheld, flat_congr v hsame', flat_congr v hsame]
    exact h.byte_eq q

theorem write (h : b.Shows v held a state) (c : b.Cached host v cache held sound) (hs : sound state)
    (patience : Nat) {data : Bytes} {offset : Nat} (hbound : offset + data.length ≤ wordBound)
    (htrailing : FlatArray.trailing? v.total data offset = none) :
    ∃ after, (v.write patience data offset).run host state = (.ok data.length, after) ∧
      sound after ∧ b.Shows v held (a.overlay offset data) after := by
  obtain ⟨hsound, hsame, takes⟩ := c.faithful.write data offset state hs hbound
  generalize hreply : host.writeCache cache data offset state = reply at *
  obtain ⟨ranges, middle⟩ := reply
  dsimp only at hsound hsame takes
  rw [← h.length_eq] at htrailing
  have hlength : (a.overlay offset data).length = v.total := by
    rw [Bytes.length_overlay, h.length_eq]
  have hdata : ∀ q c, InRange offset data.length q → data[q - offset]? = some c →
      (a.overlay offset data).getD q 0 = c :=
    fun q c hq hbyte => FlatArray.getD_overlay_of_trailing htrailing hq.1 hbyte
  obtain ⟨after, hrun, ⟨hsound', hheld'⟩, hflat⟩ := (c.files (held middle)).run_writeRanges c.distinct
    patience (fun q => (a.overlay offset data).getD q 0)
    (fun q hq => by
      rw [List.getD_eq_getElem?_getD, List.getElem?_eq_none (by omega), Option.getD_none])
    (fun range hrange q c hhas => by
      rcases takes.returned range hrange q c hhas with ⟨hq, hbyte⟩ | ⟨hq, hheld⟩
      · exact (hdata q c hq hbyte).symm
      · rw [getD_overlay_outside a hq, h.of_held hheld])
    ⟨hsound, rfl⟩
  refine ⟨after, Volume.run_write_cached c.attached hreply hrun, hsound',
    of_bytes hlength (fun q c hq => ?_) fun q hq hnone => ?_⟩
  · rw [hheld'] at hq
    rcases takes.of_held hq with ⟨hin, hbyte⟩ | ⟨hout, hold⟩
    · exact hdata q c hin hbyte
    · rw [getD_overlay_outside a hout, h.of_held hold]
  · rw [hheld'] at hnone
    obtain ⟨hback, hrest⟩ := hflat q hq
    by_cases hreturned : ∃ range ∈ ranges, ∃ c, range.Has q c
    · exact (hback hreturned).symm
    · rcases takes.of_not_held hnone with hback | ⟨hout, hold⟩
      · exact absurd hback hreturned
      · rw [hrest hreturned, flat_congr v hsame, getD_overlay_outside a hout, h.of_not_held hold]

theorem commit (h : b.Shows v held a state) (c : b.Cached host v cache held sound) (hs : sound state)
    {patience piece : Nat} {data : Bytes} {offset : Nat}
    (allowed : (CachedAction.commit piece data offset).Allowed patience host v cache held state) :
    ∃ after, (v.commit patience piece data offset).run host state = (.ok (), after) ∧
      sound after ∧ b.Shows v held (a.overlay offset data) after := by
  obtain ⟨-, htrailing, hagrees, hmarks⟩ := allowed
  obtain ⟨written, hrun, ⟨hsound, hheld⟩, hlaid⟩ :=
    (c.files (held state)).run_writeFiles c.distinct patience data offset ⟨hs, rfl⟩
  rw [FlatArray.answer, htrailing] at hrun
  rw [hrun] at hmarks
  dsimp only at hmarks
  rw [hheld] at hmarks
  obtain ⟨hsound', hsame⟩ := c.faithful.mark piece written hsound
  -- A byte that is dropped now is one that the files have got just before.
  rw [← h.length_eq] at htrailing
  refine ⟨_, Volume.run_commit_cached c.attached piece hrun, hsound',
    of_bytes (by rw [Bytes.length_overlay, h.length_eq]) (fun q c hq => ?_) fun q hq hnone => ?_⟩
  · rcases hmarks q with hkept | ⟨hgone, -⟩
    · rw [hkept] at hq
      by_cases hin : InRange offset data.length q
      · exact FlatArray.getD_overlay_of_trailing htrailing hin.1 (hagrees q c hin hq)
      · rw [getD_overlay_outside a hin, h.of_held hq]
    · rw [hq] at hgone
      cases hgone
  · rw [flat_congr v hsame, hlaid.flat_eq]
    by_cases hin : InRange offset data.length q
    · obtain ⟨hle, hlt⟩ := hin
      rw [Bytes.getD_overlay, Bytes.getD_overlay, length_flat, h.length_eq, if_pos ⟨hle, hlt, hq⟩,
        if_pos ⟨hle, hlt, hq⟩]
    · rcases hmarks q with hkept | ⟨-, hdropped⟩
      · rw [hkept] at hnone
        rw [getD_overlay_outside a hin, getD_overlay_outside _ hin, h.of_not_held hnone]
      · exact absurd hdropped hin

theorem perform (h : b.Shows v held a state) (c : b.Cached host v cache held sound)
    (hs : sound state) {patience : Nat} {action : CachedAction}
    (allowed : action.Allowed patience host v cache held state) :
    ∃ after, (action.perform patience v).run host state = ((action.onArray a).1, after) ∧
      sound after ∧ b.Shows v held (action.onArray a).2 after := by
  cases action with
  | read buffer offset =>
    obtain ⟨after, hrun, hrest⟩ := h.read c hs patience allowed
    refine ⟨after, ?_, hrest⟩
    rw [CachedAction.perform, Program.bind_eq, Program.run_bind, hrun]
    rfl
  | write data offset =>
    obtain ⟨after, hrun, hrest⟩ := h.write c hs patience allowed.1 allowed.2
    refine ⟨after, ?_, hrest⟩
    rw [CachedAction.perform, Program.bind_eq, Program.run_bind, hrun]
    rfl
  | commit piece data offset =>
    obtain ⟨after, hrun, hrest⟩ := h.commit c hs allowed
    refine ⟨after, ?_, hrest⟩
    rw [CachedAction.perform, Program.bind_eq, Program.run_bind, hrun]
    rfl

theorem performAll (h : b.Shows v held a state) (c : b.Cached host v cache held sound)
    (hs : sound state) {patience : Nat} {actions : List CachedAction}
    (allowed : CachedAction.AllAllowed patience host v cache held actions state) :
    ∃ after, (CachedAction.performAll patience v actions).run host state =
        ((CachedAction.allOnArray actions a).1, after) ∧
      sound after ∧ b.Shows v held (CachedAction.allOnArray actions a).2 after := by
  induction actions generalizing a state with
  | nil => exact ⟨state, rfl, hs, h⟩
  | cons action rest ih =>
    obtain ⟨hfirst, hrest⟩ := allowed
    obtain ⟨middle, hrun, hs', h'⟩ := h.perform c hs hfirst
    rw [hrun] at hrest
    obtain ⟨after, hrun', hs'', h''⟩ := ih h' hs' hrest
    refine ⟨after, ?_, hs'', h''⟩
    rw [CachedAction.performAll, Program.bind_eq, Program.run_bind, hrun]
    dsimp only
    rw [Program.bind_eq, Program.run_bind, hrun']
    rfl

end Shows

/-- A volume with a faithful cache is one array of bytes: every run of reads, writes and commits
answers as it does on the array that was shown at first, and what is shown at the end is
the array that is left of it. -/
theorem cached_volume_is_array (c : b.Cached host v cache held sound) (hs : sound state)
    (zero : ∀ q c, v.total ≤ q → held state q = some c → c = 0) {patience : Nat}
    {actions : List CachedAction}
    (allowed : CachedAction.AllAllowed patience host v cache held actions state) :
    let last := (CachedAction.performAll patience v actions).run host state
    let array := CachedAction.allOnArray actions (b.view v held state)
    last.1 = array.1 ∧ b.view v held last.2 = array.2 := by
  obtain ⟨after, hrun, -, hshows⟩ := (Shows.start zero).performAll c hs allowed
  rw [hrun]
  exact ⟨rfl, hshows.view_eq⟩

/-- Two files of three bytes, moved two at a time at first, behind a pocket for two bytes that
holds one: a commit of that byte, a write over both files and behind them, and a read. -/
theorem cached_volume_is_array_pocket :
    let v : Volume Nat Unit := ⟨⟨[⟨0, 3, 0⟩, ⟨3, 3, 1⟩], 6, ⟨rfl, rfl, rfl⟩, by decide⟩, some ()⟩
    let s : Pocket := ⟨⟨fun _ _ => 4, [.upTo 2, .upTo 2]⟩, fun q => if q = 1 then some 7 else none⟩
    let last := (CachedAction.performAll 0 v
      [.commit 1 [7] 1, .write [1, 2, 3, 4, 5, 0, 0] 1, .read [9, 9, 9, 9, 9, 9, 9] 0]).run
        (Pocket.host 2) s
    last.1 = [.committing (.ok ()), .writing (.ok 7), .reading ⟨[4, 1, 2, 3, 4, 5, 0], .ok 7⟩] ∧
      Pocket.backing.view v Pocket.held last.2 = [4, 1, 2, 3, 4, 5] := by
  intro v s last
  have hdistinct : Pocket.backing.Distinct v := by
    rw [Distinct, List.nodup_iff_pairwise_ne]
    decide
  have hcached : Pocket.backing.Cached (Pocket.host 2) v () Pocket.held (Pocket.Sound 2) :=
    ⟨rfl, hdistinct, Pocket.faultless v 2, Pocket.faithful 2⟩
  have hsound : s.Sound 2 :=
    ⟨by simp [s], fun q hq => if_neg (show q ≠ 1 by omega)⟩
  have hzero : ∀ q c, v.total ≤ q → s.held q = some c → c = 0 := by
    intro q c hq hheld
    rw [hsound.empty q (Nat.le_trans (by decide) hq)] at hheld
    cases hheld
  have hcommit : (CachedAction.commit 1 [7] 1).Allowed 0 (Pocket.host 2) v () Pocket.held s := by
    refine ⟨by decide, rfl, fun q c hin hq => ?_, fun q => ?_⟩
    · obtain ⟨hle, hlt⟩ := hin
      obtain rfl : q = 1 := Nat.le_antisymm (Nat.le_of_lt_succ hlt) hle
      exact hq
    · by_cases hq : q = 1
      · exact .inr ⟨if_pos hq, by rw [hq]; decide⟩
      · exact .inl (if_neg hq)
  have hread : 0 + 7 ≤ wordBound := by decide
  exact cached_volume_is_array hcached hsound hzero ⟨hcommit, ⟨by decide, rfl⟩, hread, trivial⟩

end Backing

end FlatVolume
