import FlatVolume.Proofs.Confinement
import FlatVolume.Proofs.Contracts
import FlatVolume.Proofs.FaithfulCache

/-!
# Files that others write to

A read or a write of a volume while the files change by themselves, but not where the request
is. Seen through the places of the request only, nothing happens but the request.
-/

namespace FlatVolume

variable {Handle Cache File σ : Type}

namespace Backing

/-- The place in a file is one of `length` flat offsets from `offset` on. -/
def Holds (b : Backing Handle File σ) (v : Volume Handle Cache) (offset length : Nat) (file : File)
    (i : Nat) : Prop :=
  ∃ e ∈ v.layout.extents, b.file e.handle = file ∧ i < e.length ∧
    InRange offset length (e.start + i)

/-- The state stays sound, and the bytes at some places stay the same. -/
def Leaves (b : Backing Handle File σ) (sound : σ → Prop) (places : File → Nat → Prop)
    (before after : σ) : Prop :=
  sound before → sound after ∧
    ∀ file i, places file i → b.byte after file i = b.byte before file i

open Classical in
/-- The bytes at `length` flat offsets from `offset` on, and zeros everywhere else. -/
noncomputable def only (b : Backing Handle File σ) (v : Volume Handle Cache) (offset length : Nat) :
    Backing Handle File (Nat × σ) where
  file := b.file
  byte state file i := if b.Holds v offset length file i then b.byte state.2 file i else 0

variable {b : Backing Handle File σ} {host : Host Handle Cache σ} {v : Volume Handle Cache}
  {sound : σ → Prop} {places : File → Nat → Prop} {offset length place count : Nat}
  {e : Extent Handle} {s s' s'' : σ}

namespace Leaves

theorem refl (b : Backing Handle File σ) (sound : σ → Prop) (places : File → Nat → Prop) (s : σ) :
    b.Leaves sound places s s :=
  fun h => ⟨h, fun _ _ _ => rfl⟩

theorem trans (h : b.Leaves sound places s s') (h' : b.Leaves sound places s' s'') :
    b.Leaves sound places s s'' := by
  intro hs
  obtain ⟨hs', hsame⟩ := h hs
  obtain ⟨hs'', hsame'⟩ := h' hs'
  exact ⟨hs'', fun file i hi => (hsame' file i hi).trans (hsame file i hi)⟩

theorem mono {places' : File → Nat → Prop} (h : b.Leaves sound places s s')
    (hsub : ∀ file i, places' file i → places file i) : b.Leaves sound places' s s' := by
  intro hs
  obtain ⟨hs', hsame⟩ := h hs
  exact ⟨hs', fun file i hi => hsame file i (hsub file i hi)⟩

end Leaves

theorem Holds.of_inside (he : e ∈ v.layout.extents) (hfit : place + count ≤ e.length)
    (hle : offset ≤ e.start + place) (hlt : e.start + place + count ≤ offset + length) {i : Nat}
    (hi : i < count) : b.Holds v offset length (b.file e.handle) (place + i) :=
  ⟨e, he, rfl, by omega, by unfold InRange; omega⟩

theorem byte_only {file : File} {i : Nat} (h : b.Holds v offset length file i) (state : Nat × σ) :
    (b.only v offset length).byte state file i = b.byte state.2 file i :=
  if_pos h

theorem stretch_only (he : e ∈ v.layout.extents) (hfit : place + count ≤ e.length)
    (hle : offset ≤ e.start + place) (hlt : e.start + place + count ≤ offset + length) (n : Nat)
    (hsame : ∀ file i, b.Holds v offset length file i → b.byte s' file i = b.byte s file i) :
    (b.only v offset length).stretch (n, s) (b.file e.handle) place count =
      b.stretch s' (b.file e.handle) place count := by
  refine List.map_congr_left fun i hi => ?_
  have hholds := Holds.of_inside (b := b) he hfit hle hlt (List.mem_range.mp hi)
  rw [byte_only hholds, hsame _ _ hholds]

theorem Lays.only (he : e ∈ v.layout.extents) {data : Bytes} (hfit : place + data.length ≤ e.length)
    (hle : offset ≤ e.start + place) (hlt : e.start + place + data.length ≤ offset + length)
    (n m : Nat)
    (hsame : ∀ file i, b.Holds v offset length file i → b.byte s' file i = b.byte s file i)
    (h : b.Lays s' s'' (b.file e.handle) place data) :
    (b.only v offset length).Lays (n, s) (m, s'') (b.file e.handle) place data where
  laid i hi := by
    rw [byte_only (Holds.of_inside he hfit hle hlt hi)]
    exact h.laid i hi
  kept other i hout := by
    by_cases hholds : b.Holds v offset length other i
    · rw [byte_only hholds, byte_only hholds, h.kept other i hout, hsame other i hholds]
    · exact (if_neg hholds).trans (if_neg hholds).symm

theorem Faultless.lead_write (faultless : b.Faultless host v sound) (distinct : b.Distinct v)
    {data : Bytes} {change : Nat → σ → σ}
    (hchange : ∀ n s, b.Leaves sound (b.Holds v offset data.length) s (change n s))
    (before : Nat × σ) :
    Volume.CallsLead (host.among change) .writing v.layout.extents data.length offset
      ((b.only v offset data.length).WriteSoFar v data offset before fun state => sound state.2)
      (fun moved buffer outcome after =>
        (b.only v offset data.length).WriteSoFar v data offset before (fun _ => False) moved buffer
          after ∧ ∀ fault, outcome ≠ .error (.fault fault)) := by
  intro e he moved buffer ⟨n, s⟩ _ hm hle hlt h window reply
  obtain rfl := h.buffer_eq
  have backs : v.Backs e (offset + moved - e.start) window.length := .window he hm hle hlt
  obtain ⟨hsound, hsame⟩ := hchange n s h.status
  obtain ⟨count, hreply, hpos, hcount, hlays, hafter⟩ :=
    faultless.write e window _ (change n s) backs hsound
  have houtcome : reply.1.2 = .ok count := hreply
  have hwindow : window.length ≤ buffer.length - moved := Bytes.length_window_le buffer moved _
  have hfits := backs.fits
  have htake : (window.take count).length = count := by
    rw [List.length_take]
    omega
  have hdistinct : (b.only v offset buffer.length).Distinct v := distinct
  -- The change before the call is out of sight, so that the call alone takes the one state to the
  -- other.
  have honly : (b.only v offset buffer.length).Lays (n, s) reply.2 (b.file e.handle)
      (offset + moved - e.start) (window.take count) :=
    hlays.only he (by omega) (by omega) (by omega) n (n + 1) hsame
  have hcall : (b.only v offset buffer.length).WriteCall (b.file e.handle) window
      (offset + moved - e.start) (n, s) (reply.1.2, reply.2) := by
    rw [houtcome]
    exact ⟨hcount, honly, nofun⟩
  rw [show buffer.overlay moved reply.1.1 = buffer from Bytes.overlay_window buffer moved _]
  refine .of_counted (fun _ => ?_) (fun hstops => ?_)
  · exact WriteSoFar.call hdistinct.independent h he hle hlt hcall hafter
  · rw [houtcome] at hstops
    exact absurd (of_decide_eq_true hstops) (Nat.ne_of_gt hpos)

theorem Faultless.lead_read (faultless : b.Faultless host v sound) {buffer : Bytes}
    {change : Nat → σ → σ}
    (hchange : ∀ n s, b.Leaves sound (b.Holds v offset buffer.length) s (change n s))
    (before : Nat × σ) :
    Volume.CallsLead (host.among change) .reading v.layout.extents buffer.length offset
      ((b.only v offset buffer.length).ReadSoFar v buffer offset before fun state => sound state.2)
      (fun moved current outcome after =>
        (b.only v offset buffer.length).ReadSoFar v buffer offset before (fun _ => False) moved
          current after ∧ ∀ fault, outcome ≠ .error (.fault fault)) := by
  intro e he moved current ⟨n, s⟩ hlength hm hle hlt h window reply
  have backs : v.Backs e (offset + moved - e.start) window.length :=
    .window he (by omega) hle hlt
  obtain ⟨hsound, hsame⟩ := hchange n s h.status
  obtain ⟨count, hreply, hpos, hcount, hfills, hkept, hafter⟩ :=
    faultless.read e window _ (change n s) backs hsound
  have houtcome : reply.1.2 = .ok count := congrArg (Except.mapError Failure.error) hreply
  have hwindow : window.length ≤ current.length - moved := Bytes.length_window_le current moved _
  have hfits := backs.fits
  have hstretch : (b.only v offset buffer.length).stretch (n, s) (b.file e.handle)
      (offset + moved - e.start) count =
        b.stretch (change n s) (b.file e.handle) (offset + moved - e.start) count :=
    stretch_only he (by omega) (by omega) (by omega) n hsame
  have hcall : (b.only v offset buffer.length).ReadCall (b.file e.handle) window
      (offset + moved - e.start) (n, s)
      ((host.read e.handle window (offset + moved - e.start) (change n s)).1, reply.2) := by
    refine ⟨?_, ?_, fun file i => ?_⟩
    · rw [hreply]
      exact hcount
    · rw [hreply, hfills, ← hstretch]
      rfl
    · by_cases hholds : b.Holds v offset buffer.length file i
      · rw [byte_only hholds, byte_only hholds, ← hsame file i hholds]
        exact hkept file i
      · exact (if_neg hholds).trans (if_neg hholds).symm
  have hcounted : ∀ status : Nat × σ → Prop, status reply.2 →
      (b.only v offset buffer.length).ReadSoFar v buffer offset before status (moved + count)
        (current.overlay moved reply.1.1) reply.2 := by
    intro status hstatus
    have hnext := ReadSoFar.call (b := b.only v offset buffer.length) h he hle hlt rfl hcall hstatus
    rw [hreply] at hnext
    exact hnext
  refine .of_counted (fun _ => ?_) (fun hstops => ?_)
  · rw [houtcome]
    exact hcounted _ hafter
  · rw [houtcome] at hstops
    exact absurd (of_decide_eq_true hstops) (Nat.ne_of_gt hpos)

theorem run_call_among (host : Host Handle Cache σ) (change : Nat → σ → σ) (direction : Direction)
    (handle : Handle) (window : Bytes) (place n : Nat) (s : σ) :
    (Transfer.call direction handle window place).run (host.among change) (n, s) =
      let reply := (Transfer.call direction handle window place).run host (change n s)
      (reply.1, (n + 1, reply.2)) := by
  cases direction <;> rfl

theorem Faultless.steady_among (faultless : b.Faultless host v sound) (direction : Direction)
    {change : Nat → σ → σ} (hchange : ∀ n s, sound s → sound (change n s)) :
    v.Steady (· = 0) (host.among change) direction fun state => sound state.2 where
  patience := (faultless.steady direction).patience
  goes e window place state backs hs := by
    rw [run_call_among]
    exact (faultless.steady direction).goes e window place _ backs (hchange _ _ hs)
  counted_le e window place state backs hs := by
    rw [run_call_among]
    exact (faultless.steady direction).counted_le e window place _ backs (hchange _ _ hs)
  unfaulted e window place state backs hs := by
    rw [run_call_among]
    exact (faultless.steady direction).unfaulted e window place _ backs (hchange _ _ hs)
  answered e window place state backs hs := by
    obtain ⟨count, rfl, hanswered⟩ :=
      (faultless.steady direction).answered e window place _ backs (hchange state.1 _ hs)
    cases hanswered with
    | now hint =>
      refine ⟨0, rfl, .now ?_⟩
      rw [run_call_among]
      exact hint

theorem read_only (b : Backing Handle File σ) (v : Volume Handle Cache) (offset length : Nat)
    (state : Nat × σ) :
    FlatArray.read ((b.only v offset length).flat v state) length offset =
      FlatArray.read (b.flat v state.2) length offset := by
  refine List.map_congr_left fun i hi => ?_
  have hlt := List.mem_range.mp hi
  rw [List.getD_eq_getElem?_getD, List.getD_eq_getElem?_getD]
  by_cases hinside : offset + i < v.total
  · obtain ⟨j, e, hj, hle, hend⟩ := v.layout.tiles.covers ⟨Nat.zero_le _, hinside⟩
    have he := List.mem_of_getElem? hj
    have hholds : b.Holds v offset length (b.file e.handle) (offset + i - e.start) :=
      ⟨e, he, rfl, by omega, by unfold InRange; omega⟩
    rw [getElem?_flat v state he hle hend, getElem?_flat v state.2 he hle hend]
    exact congrArg (Option.getD · 0) (congrArg some (byte_only hholds state))
  · rw [List.getElem?_eq_none (by rw [length_flat]; omega),
      List.getElem?_eq_none (by rw [length_flat]; omega)]

/-- A read is answered as if the files were at rest. -/
theorem Faultless.run_readFiles_among (faultless : b.Faultless host v sound) {buffer : Bytes}
    {change : Nat → σ → σ}
    (hchange : ∀ n s, b.Leaves sound (b.Holds v offset buffer.length) s (change n s))
    (patience : Nat) (hs : sound s) :
    let last := (v.readFiles patience buffer offset).run (host.among change) (0, s)
    last.1 = ⟨FlatArray.read (b.flat v s) buffer.length offset, .ok buffer.length⟩ ∧
      sound last.2.2 := by
  have hends := ReadEnds.of_lead (faultless.lead_read hchange (0, s)) patience hs
  obtain ⟨after, hrun, hsound, -⟩ :=
    hends.answered (faultless.steady_among .reading fun n s hs => (hchange n s hs).1) hs
  rw [read_only] at hrun
  rw [hrun]
  exact ⟨rfl, hsound⟩

/-- A write is answered as if the files were at rest, and leaves its data in them. -/
theorem Faultless.run_writeFiles_among (faultless : b.Faultless host v sound)
    (distinct : b.Distinct v) {data : Bytes} {change : Nat → σ → σ}
    (hchange : ∀ n s, b.Leaves sound (b.Holds v offset data.length) s (change n s))
    (patience : Nat) (hs : sound s) :
    let last := (v.writeFiles patience data offset).run (host.among change) (0, s)
    last.1 = (FlatArray.answer v.total data offset).mapError .error ∧ sound last.2.2 ∧
      ∀ e ∈ v.layout.extents, ∀ i < e.length, InRange offset data.length (e.start + i) →
        data[e.start + i - offset]? = some (b.byte last.2.2 (b.file e.handle) i) := by
  have hdistinct : (b.only v offset data.length).Distinct v := distinct
  have hends := WriteEnds.of_lead (faultless.lead_write distinct hchange (0, s)) patience hs
  obtain ⟨after, hrun, hsound, hlaid⟩ :=
    hends.answered (faultless.steady_among .writing fun n s hs => (hchange n s hs).1) hs
  rw [hrun]
  refine ⟨rfl, hsound, fun e he i hi hin => ?_⟩
  have hholds : b.Holds v offset data.length (b.file e.handle) i := ⟨e, he, rfl, hi, hin⟩
  have hbyte := getElem?_flat (b := b.only v offset data.length) v after he
    (Nat.le_add_right e.start i) (Nat.add_lt_add_left hi e.start)
  have htotal := (v.layout.tiles.bounds he).2
  unfold InRange at hin
  rw [hlaid.flat_eq, Bytes.getElem?_overlay, length_flat, if_pos (by unfold Volume.total; omega),
    Nat.add_sub_cancel_left] at hbyte
  rw [hbyte]
  exact congrArg some (byte_only hholds after)

end Backing

namespace Volume

/-- A call for bytes of a request for `length` bytes at `offset`. -/
def Asks (v : Volume Handle Cache) (direction : Direction) (offset length : Nat)
    (request : Request Handle Cache) : Prop :=
  ∃ e window place, v.Backs e place window.length ∧ offset ≤ e.start + place ∧
    e.start + place + window.length ≤ offset + length ∧
    request = .move direction e.handle window place

theorem Walked.asks {v : Volume Handle Cache} {direction : Direction} {buffer current : Bytes}
    {offset : Nat} {calls : List FileCall} {exchanges : List (Exchange Handle Cache)}
    (h : v.Walked direction buffer offset calls exchanges current) :
    ∀ x ∈ exchanges, v.Asks direction offset buffer.length x.request := by
  induction h with
  | start => simp
  | @call calls exchanges current c x hwalked _ hconfined ih =>
    intro y hy
    rcases List.mem_append.mp hy with hy | hy
    · exact ih y hy
    · obtain rfl := List.mem_singleton.mp hy
      obtain ⟨hpos, hfit, e, place, he, hplace, hinside, hrequest⟩ := hconfined
      have hlength := hwalked.inside.1
      have hwindow : (current.window c.position c.length).length = c.length := by
        rw [Bytes.length_window]
        omega
      refine ⟨e, current.window c.position c.length, place,
        ⟨List.mem_of_getElem? he, by omega, by omega⟩, by omega, by omega, hrequest⟩

theorem asks_walk (host : Host Handle Cache σ) (v : Volume Handle Cache) (direction : Direction)
    (patience : Nat) (buffer : Bytes) (offset : Nat) (state : σ) :
    ∀ x ∈ (walk direction patience (v.extentsFrom offset) (.start buffer offset)).exchanges host
      state, v.Asks direction offset buffer.length x.request := by
  have hconfined : v.AllConfined direction buffer offset _ False :=
    walk_confined host v direction patience buffer offset state nofun
  obtain ⟨calls, current, hwalked, -⟩ := hconfined
  exact hwalked.asks

theorem asks_readFiles (host : Host Handle Cache σ) (v : Volume Handle Cache) (patience : Nat)
    (buffer : Bytes) (offset : Nat) (state : σ) :
    ∀ x ∈ (v.readFiles patience buffer offset).exchanges host state,
      v.Asks .reading offset buffer.length x.request := by
  rw [readFiles, Program.bind_eq, Program.exchanges_bind, Program.pure_eq, Program.exchanges_done,
    List.append_nil]
  exact asks_walk host v .reading patience buffer offset state

theorem asks_writeFiles (host : Host Handle Cache σ) (v : Volume Handle Cache) (patience : Nat)
    (data : Bytes) (offset : Nat) (state : σ) :
    ∀ x ∈ (v.writeFiles patience data offset).exchanges host state,
      v.Asks .writing offset data.length x.request := by
  rw [writeFiles, Program.bind_eq, Program.exchanges_bind, Program.pure_eq, Program.exchanges_done,
    List.append_nil]
  exact asks_walk host v .writing patience data offset state

end Volume

namespace Backing

variable {b : Backing Handle File σ} {host : Host Handle Cache σ} {v : Volume Handle Cache}
  {sound : σ → Prop} {offset length : Nat}

/-- A call of a write touches nothing but places of the write. -/
theorem Faultless.write_leaves (faultless : b.Faultless host v sound)
    {request : Request Handle Cache} (h : v.Asks .writing offset length request) (s : σ) :
    b.Leaves sound (fun file i => ¬ b.Holds v offset length file i) s (host.answer request s).2 := by
  obtain ⟨e, window, place, backs, hle, hlt, rfl⟩ := h
  intro hs
  obtain ⟨count, -, -, hcount, hlays, hafter⟩ := faultless.write e window place s backs hs
  refine ⟨hafter, fun file i hout => hlays.kept file i ?_⟩
  rintro rfl
  have htake : (window.take count).length ≤ window.length := List.length_take_le' _ _
  have hfits := backs.fits
  by_contra hin
  refine hout ⟨e, backs.mem, rfl, by omega, ?_⟩
  unfold InRange
  omega

theorem Faultless.read_leaves (faultless : b.Faultless host v sound)
    {request : Request Handle Cache} (h : v.Asks .reading offset length request) (s : σ)
    (places : File → Nat → Prop) : b.Leaves sound places s (host.answer request s).2 := by
  obtain ⟨e, window, place, backs, -, -, rfl⟩ := h
  intro hs
  obtain ⟨count, -, -, -, -, hsame, hafter⟩ := faultless.read e window place s backs hs
  exact ⟨hafter, fun file i _ => hsame file i⟩

/-- A place that two requests have in common is a flat offset that they have in common. -/
theorem Holds.common (distinct : b.Distinct v) {offset' length' : Nat} {file : File} {i : Nat}
    (h : b.Holds v offset length file i) (h' : b.Holds v offset' length' file i) :
    ∃ q, InRange offset length q ∧ InRange offset' length' q := by
  obtain ⟨e, he, rfl, hi, hin⟩ := h
  obtain ⟨e', he', hfile, hi', hin'⟩ := h'
  obtain ⟨j, hj⟩ := List.mem_iff_getElem?.mp he
  obtain ⟨k, hk⟩ := List.mem_iff_getElem?.mp he'
  obtain rfl := distinct.index_unique hk hj hfile
  obtain rfl := Option.some.inj (hk.symm.trans hj)
  exact ⟨_, hin, hin'⟩

end Backing

end FlatVolume
