import FlatVolume.Proofs.Commits

/-!
# Freedom from faults

A volume brings no fault of its own. As long as the files count no more than they were asked to
move and do not interrupt for ever, every read and write ends with an answer or with an error,
whatever the offset is and whatever the cache gives back, and a commit ends in no other fault than
the one for a piece that could not be stored.
-/

namespace FlatVolume

variable {Handle Cache σ α β : Type}

namespace Volume

/-- In `sound` states the files of a volume count no more than they were asked to move, answer every
call in the end and do not fault themselves, and a cache that is attached says what it leaves
to the files. Which bytes they move, where the gaps lie and what is written back is left open. -/
structure Orderly (host : Host Handle Cache σ) (v : Volume Handle Cache) (sound : σ → Prop) :
    Prop where
  counted_le : ∀ direction e window place state, v.Backs e place window.length → sound state →
    Transfer.counted ((Transfer.call direction e.handle window place).run host state).1.2 ≤
      window.length
  unfaulted : ∀ direction e window place state, v.Backs e place window.length → sound state →
    ∀ fault, ((Transfer.call direction e.handle window place).run host state).1.2 ≠
      .error (.fault fault)
  answered : ∀ direction e window place state, v.Backs e place window.length → sound state →
    ∃ count, Transfer.Answered host direction e.handle place count window state
  gaps : ∀ cache buffer offset state, v.cache = some cache → sound state →
    ∃ gaps, (host.readCache cache buffer offset state).1.gaps = .ok gaps
  keeps : ∀ request state, request.kind ≠ .opening → request.kind ≠ .closing → sound state →
    sound (host.answer request state).2

/-- All of `length` bytes, or an error that comes before all of them were transferred. -/
def Accounts (length : Nat) (outcome : Except (Failure VolumeError) Nat) : Prop :=
  outcome = .ok length ∨ ∃ e, outcome = .error (.error e) ∧ e.transferred < length

/-- How a walk ends that comes to no fault. -/
inductive Halts (length offset : Nat) : WalkEnd → Prop where
  | complete {p : Progress} : p.At length offset → p.moved ≤ length → Halts length offset ⟨p, none⟩
  | failed {p : Progress} {e : VolumeError} :
      e.transferred < length → Halts length offset ⟨p, some (.error e)⟩

end Volume

/-- With enough patience a program always comes to the same end, with a good result in a sound
state. -/
def Program.Concludes (host : Host Handle Cache σ) (program : Nat → Program Handle Cache α)
    (state : σ) (sound : σ → Prop) (good : α → Prop) : Prop :=
  ∃ last, Settles (fun _ => True) host program state last ∧ good last.1 ∧ sound last.2

namespace Program.Concludes

variable {host : Host Handle Cache σ} {state : σ} {sound : σ → Prop} {good : α → Prop}
  {good' : β → Prop}

theorem of_done {a : α} (h : good a) (hs : sound state) :
    Concludes host (fun _ => done a) state sound good :=
  ⟨(a, state), .of_eq .all fun _ => rfl, h, hs⟩

theorem of_request {request : Request Handle Cache} {good : Reply request → Prop}
    (h : good (host.answer request state).1) (hs : sound (host.answer request state).2) :
    Concludes host (fun _ => Program.request request) state sound good :=
  ⟨host.answer request state, .of_eq .all fun _ => rfl, h, hs⟩

theorem bind {first : Nat → Program Handle Cache α} {next : Nat → α → Program Handle Cache β}
    (hfirst : Concludes host first state sound good)
    (hnext : ∀ a after, good a → sound after →
      Concludes host (fun patience => next patience a) after sound good') :
    Concludes host (fun patience => (first patience).bind (next patience)) state sound good' := by
  obtain ⟨middle, hsettles, hgood, hsound⟩ := hfirst
  obtain ⟨last, hlast, hrest⟩ := hnext middle.1 middle.2 hgood hsound
  exact ⟨last, hsettles.bind .all hlast, hrest⟩

theorem mono {program : Nat → Program Handle Cache α} {weaker : α → Prop}
    (h : Concludes host program state sound good) (hweaker : ∀ a, good a → weaker a) :
    Concludes host program state sound weaker := by
  obtain ⟨last, hsettles, hgood, hsound⟩ := h
  exact ⟨last, hsettles, hweaker _ hgood, hsound⟩

end Program.Concludes

theorem Program.Within.keeps {kinds : List RequestKind} {p : Program Handle Cache α}
    (h : p.Within kinds) {host : Host Handle Cache σ} {sound : σ → Prop}
    (keeps : ∀ request state, request.kind ∈ kinds → sound state →
      sound (host.answer request state).2)
    {state : σ} (hs : sound state) : sound (p.run host state).2 := by
  induction p generalizing state with
  | done a => exact hs
  | ask request next ih => exact ih _ (h.2 _) (keeps request state h.1 hs)

namespace Volume

variable {host : Host Handle Cache σ} {v : Volume Handle Cache} {sound : σ → Prop} {state : σ}

theorem Accounts.of_le {length length' : Nat} {e : VolumeError}
    (h : Accounts length (.error (.error e))) (hle : length ≤ length') : e.transferred < length' := by
  rcases h with hok | ⟨e', he, hlt⟩
  · cases hok
  · cases he
    omega

theorem Halts.reading {w : WalkEnd} {length offset : Nat} (h : Halts length offset w) :
    Accounts length w.reading.outcome := by
  cases h with
  | @complete p at_p hle =>
    obtain rfl := at_p.length_buffer
    rw [WalkEnd.reading_of_le hle]
    exact .inl rfl
  | failed hlt => exact .inr ⟨_, rfl, hlt⟩

/-- A byte behind the end that is not zero is one of those that were not moved. -/
theorem Halts.writing {w : WalkEnd} {length offset : Nat} (h : Halts length offset w) :
    Accounts length w.writing := by
  cases h with
  | @complete p at_p hle =>
    obtain rfl := at_p.length_buffer
    rw [WalkEnd.writing_of_le hle]
    cases hfind : (p.buffer.drop p.moved).findIdx? (· ≠ 0) with
    | none => exact .inl rfl
    | some position =>
      right
      obtain ⟨hlt, -⟩ := List.findIdx?_eq_some_iff_getElem.mp hfind
      rw [List.length_drop] at hlt
      refine ⟨_, rfl, ?_⟩
      change p.moved + position < p.buffer.length
      omega
  | failed hlt => exact .inr ⟨_, rfl, hlt⟩

namespace Orderly

theorem keeps_call (orderly : v.Orderly host sound) (direction : Direction) (handle : Handle)
    (window : Bytes) (place : Nat) (hs : sound state) :
    sound ((Transfer.call direction handle window place).run host state).2 := by
  cases direction with
  | reading => exact orderly.keeps (.readHandle handle window place) state nofun nofun hs
  | writing => exact orderly.keeps (.writeHandle handle window place) state nofun nofun hs

theorem steady (orderly : v.Orderly host sound) (direction : Direction) :
    v.Steady (fun _ => True) host direction sound where
  patience := .all
  goes e window place state _ hs _ := orderly.keeps_call direction e.handle window place hs
  counted_le e window place state backs hs := orderly.counted_le direction e window place state backs hs
  unfaulted e window place state backs hs := orderly.unfaulted direction e window place state backs hs
  answered e window place state backs hs := by
    obtain ⟨count, hanswered⟩ := orderly.answered direction e window place state backs hs
    exact ⟨count, trivial, hanswered⟩

/-- What is moved stays inside the request and inside the volume, so that neither the count nor
the offset leaves the words. -/
theorem lead (orderly : v.Orderly host sound) (direction : Direction) (length offset : Nat) :
    CallsLead host direction v.layout.extents length offset
      (fun moved _ state => moved ≤ length ∧ (0 < moved → offset + moved ≤ v.total) ∧ sound state)
      (fun _ _ outcome _ => ∀ fault, outcome ≠ .error (.fault fault)) := by
  intro e he moved buffer state hlength hm hle hlt h window reply
  obtain ⟨-, -, hs⟩ := h
  have backs : v.Backs e (offset + moved - e.start) window.length :=
    .window he (by omega) hle hlt
  have hcounted : Transfer.counted reply.1.2 ≤ window.length :=
    orderly.counted_le direction e window _ state backs hs
  have hbounds := (v.layout.tiles.bounds he).2
  have hwindow : window.length = min (e.start + e.length - (offset + moved)) (buffer.length - moved) :=
    Bytes.length_window buffer moved _
  refine .of_counted (fun _ => ⟨?_, fun _ => ?_, ?_⟩) fun _ => ?_
  · omega
  · change offset + (moved + Transfer.counted reply.1.2) ≤ v.layout.total
    omega
  · exact orderly.keeps_call direction e.handle window _ hs
  · exact orderly.unfaulted direction e window _ state backs hs

theorem concludes_walk (orderly : v.Orderly host sound) (direction : Direction) (buffer : Bytes)
    (offset : Nat) (hs : sound state) :
    Program.Concludes host
      (fun patience => walk direction patience (v.extentsFrom offset) (.start buffer offset)) state
      sound (Halts buffer.length offset) := by
  obtain ⟨last, hsettles, hstalled⟩ :=
    request_settles (orderly.steady direction) buffer offset hs
  refine ⟨last, hsettles, ?_, ?_⟩
  · obtain ⟨bound, -, hlast⟩ := hsettles
    have hend := v.request_ends buffer (orderly.lead direction buffer.length offset) bound
      ⟨Nat.zero_le _, fun hpos => absurd hpos (Nat.lt_irrefl 0), hs⟩
    rw [hlast bound (Nat.le_refl bound)] at hend
    obtain ⟨w, after⟩ := last
    have htotal := v.layout.total_lt
    cases hend with
    | complete at_p _ hgoing => exact .complete at_p hgoing.1
    | failed _ _ _ _ hlt _ _ _ => exact .failed hlt
    | refused _ hfailure hstopped =>
      exact absurd hfailure (Transfer.stopFailure_ne_fault hstopped _)
    | stalled _ => exact absurd rfl hstalled
    | overflowed hgoing hpos hover =>
      have hinside := hgoing.2.1 hpos
      unfold total at hinside
      omega
  · obtain ⟨bound, -, hlast⟩ := hsettles
    have hwithin : (walk direction bound (v.extentsFrom offset) (.start buffer offset) :
        Program Handle Cache _).Within [direction.kind] :=
      within_walk List.mem_cons_self bound _ _
    have hkinds : ∀ (request : Request Handle Cache) state, request.kind ∈ [direction.kind] →
        sound state → sound (host.answer request state).2 := by
      intro request state hkind
      rw [List.mem_singleton] at hkind
      apply orderly.keeps request state
      all_goals
        rw [hkind]
        cases direction <;> decide
    have hkept := hwithin.keeps hkinds hs
    rwa [hlast bound (Nat.le_refl bound)] at hkept

theorem concludes_readFiles (orderly : v.Orderly host sound) (buffer : Bytes) (offset : Nat)
    (hs : sound state) :
    Program.Concludes host (fun patience => v.readFiles patience buffer offset) state sound
      fun reading => Accounts buffer.length reading.outcome :=
  (orderly.concludes_walk .reading buffer offset hs).bind fun _ _ hhalts hafter =>
    .of_done hhalts.reading hafter

theorem concludes_writeFiles (orderly : v.Orderly host sound) (data : Bytes) (offset : Nat)
    (hs : sound state) :
    Program.Concludes host (fun patience => v.writeFiles patience data offset) state sound
      (Accounts data.length) :=
  (orderly.concludes_walk .writing data offset hs).bind fun _ _ hhalts hafter =>
    .of_done hhalts.writing hafter

theorem concludes_log (orderly : v.Orderly host sound) (line : LogLine) (hs : sound state) :
    Program.Concludes host (fun _ => Program.log line) state sound fun _ => True :=
  .of_request trivial (orderly.keeps (.log line) state nofun nofun hs)

/-- The gaps may lie anywhere; the failures among them are reported and stop nothing. -/
theorem concludes_readGaps (orderly : v.Orderly host sound) (gaps : List Gap) {length : Nat}
    {buffer : Contents} {failed : Option VolumeError} (hsize : buffer.size = length)
    (hfailed : ∀ e, failed = some e → e.transferred < length) (hs : sound state) :
    Program.Concludes host (fun patience => v.readGaps patience gaps buffer failed) state sound
      fun reading => Accounts length reading.outcome := by
  induction gaps generalizing buffer failed state with
  | nil =>
    cases failed with
    | none =>
      apply Program.Concludes.of_done _ hs
      left
      rw [← hsize]
    | some e =>
      apply Program.Concludes.of_done _ hs
      right
      exact ⟨e, rfl, hfailed e rfl⟩
  | cons gap rest ih =>
    have hwindow : (buffer.read gap.position gap.length).length ≤ length := by
      rw [Contents.read_eq, Bytes.length_window, Contents.length_toBytes]
      omega
    apply (orderly.concludes_readFiles (buffer.read gap.position gap.length) gap.offset hs).bind
    intro reading after haccounts hafter
    have hsize' : (buffer.overlay gap.position reading.buffer).size = length := by
      rw [Contents.size_overlay, hsize]
    rcases houtcome : reading.outcome with (e | fault) | count
    · rw [houtcome] at haccounts
      apply (orderly.concludes_log _ hafter).bind
      intro _ logged _ hlogged
      apply ih hsize' _ hlogged
      rintro e' ⟨⟩
      exact haccounts.of_le hwindow
    · rw [houtcome] at haccounts
      rcases haccounts with hok | ⟨e, he, -⟩
      · cases hok
      · cases he
    · exact ih hsize' hfailed hafter

theorem concludes_read (orderly : v.Orderly host sound) (buffer : Bytes) (offset : Nat)
    (hs : sound state) :
    Program.Concludes host (fun patience => v.read patience buffer offset) state sound
      fun reading => Accounts buffer.length reading.outcome := by
  unfold read
  cases hcache : v.cache with
  | none => exact orderly.concludes_readFiles buffer offset hs
  | some cache =>
    obtain ⟨gaps, hgaps⟩ := orderly.gaps cache buffer offset state hcache hs
    have hasked := orderly.keeps (.readCache cache buffer offset) state nofun nofun hs
    have hrequest : Program.Concludes host (fun _ => Program.request (.readCache cache buffer offset))
        state sound fun reply => CacheReading.gaps reply = .ok gaps := .of_request hgaps hasked
    apply hrequest.bind
    intro reply after hreply hafter
    dsimp only
    rw [hreply]
    have hsize : (Contents.ofBytes (buffer.overlay 0 (CacheReading.bytes reply))).size =
        buffer.length := by
      rw [Contents.size_ofBytes, Bytes.length_overlay]
    exact orderly.concludes_readGaps gaps hsize nofun hafter

theorem concludes_writeRanges (orderly : v.Orderly host sound) (ranges : List WriteBack)
    (hs : sound state) :
    Program.Concludes host (fun patience => v.writeRanges patience ranges) state sound
      fun outcome => outcome = .ok () := by
  induction ranges generalizing state with
  | nil => exact .of_done rfl hs
  | cons range rest ih =>
    apply (orderly.concludes_writeFiles range.data range.offset hs).bind
    intro outcome after haccounts hafter
    rcases haccounts with rfl | ⟨e, rfl, -⟩
    · exact ih hafter
    · apply (orderly.concludes_log _ hafter).bind
      intro _ logged _ hlogged
      exact ih hlogged

theorem concludes_write (orderly : v.Orderly host sound) (data : Bytes) (offset : Nat)
    (hs : sound state) :
    Program.Concludes host (fun patience => v.write patience data offset) state sound
      (Accounts data.length) := by
  unfold write
  cases hcache : v.cache with
  | none => exact orderly.concludes_writeFiles data offset hs
  | some cache =>
    have hasked := orderly.keeps (.writeCache cache data offset) state nofun nofun hs
    have hrequest : Program.Concludes host (fun _ => Program.request (.writeCache cache data offset))
        state sound fun _ => True := .of_request trivial hasked
    apply hrequest.bind
    intro ranges middle _ hmiddle
    apply (orderly.concludes_writeRanges ranges hmiddle).bind
    rintro _ after rfl hafter
    exact .of_done (.inl rfl) hafter

theorem concludes_commit (orderly : v.Orderly host sound) (piece : Nat) (data : Bytes)
    (offset : Nat) (hs : sound state) :
    Program.Concludes host (fun patience => v.commit patience piece data offset) state sound
      fun outcome => outcome = .ok () ∨ ∃ e, outcome = .error (.commitFailed piece e) := by
  unfold commit
  cases hcache : v.cache with
  | none => exact .of_done (.inl rfl) hs
  | some cache =>
    apply (orderly.concludes_writeFiles data offset hs).bind
    intro outcome written haccounts hwritten
    rcases haccounts with rfl | ⟨e, rfl, -⟩
    · have hmarked := orderly.keeps (.markCommitted cache piece) written nofun nofun hwritten
      have hrequest : Program.Concludes host (fun _ => Program.request (.markCommitted cache piece))
          written sound fun _ => True := .of_request trivial hmarked
      apply hrequest.bind
      intro _ after _ hafter
      exact .of_done (.inl rfl) hafter
    · apply (orderly.concludes_log _ hwritten).bind
      intro _ after _ hafter
      exact .of_done (.inr ⟨e, rfl⟩) hafter

end Orderly

/-- Over orderly files and behind any cache no operation faults, at no offset and for no length: reads
and writes end with all bytes or with an error, and the only fault of a commit is the one that says
which piece could not be stored. -/
theorem never_faults (orderly : v.Orderly host sound) (hs : sound state) :
    (∀ buffer offset, Program.Concludes host (fun patience => v.readFiles patience buffer offset)
      state sound fun reading => Accounts buffer.length reading.outcome) ∧
    (∀ data offset, Program.Concludes host (fun patience => v.writeFiles patience data offset)
      state sound (Accounts data.length)) ∧
    (∀ buffer offset, Program.Concludes host (fun patience => v.read patience buffer offset)
      state sound fun reading => Accounts buffer.length reading.outcome) ∧
    (∀ data offset, Program.Concludes host (fun patience => v.write patience data offset)
      state sound (Accounts data.length)) ∧
    ∀ piece data offset,
      Program.Concludes host (fun patience => v.commit patience piece data offset) state sound
        fun outcome => ∀ fault, outcome = .error fault → ∃ e : VolumeError, fault.message? =
          some ("error committing piece " ++ toString piece ++ " to storage: " ++ e.message) := by
  refine ⟨fun buffer offset => orderly.concludes_readFiles buffer offset hs,
    fun data offset => orderly.concludes_writeFiles data offset hs,
    fun buffer offset => orderly.concludes_read buffer offset hs,
    fun data offset => orderly.concludes_write data offset hs, fun piece data offset => ?_⟩
  apply (orderly.concludes_commit piece data offset hs).mono
  rintro outcome hends fault rfl
  rcases hends with hok | ⟨e, he⟩
  · cases hok
  · cases he
    exact ⟨e, rfl⟩

end Volume

namespace Pocket

/-- What a call on a file counts is up to the schedule, in either direction. -/
theorem run_call (room : Nat) (direction : Direction) (file : Nat) (window : Bytes) (place : Nat)
    (s : Pocket) :
    let reply := (Transfer.call direction file window place).run (host room) s
    reply.1.2 = (s.files.outcome window.length).mapError .error ∧
      reply.2.files.turns = s.files.turns.tail := by
  cases direction <;> exact ⟨rfl, rfl⟩

theorem answered (room : Nat) (direction : Direction) (file place : Nat) (window : Bytes)
    (s : Pocket) :
    ∃ count, Transfer.Answered (host room) direction file place count window s :=
  Scheduled.answered_of Pocket.files
    (fun window s => run_call room direction file window place s) window s

theorem orderly (v : Volume Nat Unit) (room : Nat) : v.Orderly (host room) fun _ => True where
  counted_le direction e window place s _ _ := by
    rw [(run_call room direction e.handle window place s).1, Transfer.counted_mapError]
    exact s.files.counted_outcome_le window.length
  unfaulted direction e window place s _ _ := by
    rw [(run_call room direction e.handle window place s).1]
    exact Transfer.mapError_ne_fault (s.files.outcome window.length)
  answered direction e window place s _ _ := answered room direction e.handle place window s
  gaps _ buffer offset s _ _ := ⟨_, rfl⟩
  keeps _ _ _ _ _ := trivial

end Pocket

namespace Volume

/-- A volume of every offset there can be, with empty files at both ends. The first call on it is
interrupted, the second moves one byte and the third fails, and the requests go on behind the last
offset. -/
theorem never_faults_pocket :
    let v : Volume Nat Unit := ⟨⟨[⟨0, 0, 0⟩, ⟨0, 18446744073709551615, 1⟩,
      ⟨18446744073709551615, 0, 2⟩], 18446744073709551615, ⟨rfl, rfl, rfl, rfl⟩, by decide⟩,
      some ()⟩
    let s : Pocket := ⟨⟨fun _ _ => 0, [.fails ⟨.interrupted, "interrupted"⟩, .upTo 1,
      .fails ⟨.storageFull, "no space left"⟩]⟩, fun _ => none⟩
    v.Orderly (Pocket.host 2) (fun _ => True) ∧
      (Program.Concludes (Pocket.host 2) (fun patience => v.read patience [1, 2, 3] v.total) s
        (fun _ => True) fun reading => Accounts 3 reading.outcome) ∧
      Program.Concludes (Pocket.host 2) (fun patience => v.commit patience 5 [1, 2, 3] (v.total - 1))
        s (fun _ => True) fun outcome => ∀ fault, outcome = .error fault → ∃ e : VolumeError,
          fault.message? =
            some ("error committing piece " ++ toString 5 ++ " to storage: " ++ e.message) := by
  intro v s
  have horderly := Pocket.orderly v 2
  obtain ⟨-, -, hread, -, hcommit⟩ :=
    @never_faults Nat Unit Pocket (Pocket.host 2) v (fun _ => True) s horderly trivial
  exact ⟨horderly, hread [1, 2, 3] v.total, hcommit 5 [1, 2, 3] (v.total - 1)⟩

end Volume

end FlatVolume
