import FlatVolume.Proofs.PocketCache
import FlatVolume.Proofs.Usage

/-!
# Committed means stored

A commit writes its data to the files and only then tells the cache so. If the data does not
get there, then the cache is told nothing and the commit faults; the files are left as the write
has left them. Without a cache nothing is done.
-/

namespace FlatVolume

variable {Handle Cache File σ α : Type}

/-- The piece that a cache is told is committed. -/
def Exchange.marked? : Exchange Handle Cache → Option (Cache × Nat)
  | ⟨.markCommitted cache piece, _⟩ => some (cache, piece)
  | _ => none

theorem Exchange.marked?_eq_none {x : Exchange Handle Cache} (h : x.request.kind ≠ .marking) :
    x.marked? = none := by
  obtain ⟨request, reply⟩ := x
  cases request with
  | markCommitted cache piece => exact absurd rfl h
  | _ => rfl

theorem Program.Within.marks_nothing {kinds : List RequestKind} {p : Program Handle Cache α}
    (h : p.Within kinds) (hkinds : .marking ∉ kinds) (host : Host Handle Cache σ) (state : σ) :
    (p.exchanges host state).filterMap Exchange.marked? = [] := by
  refine List.filterMap_eq_nil_iff.mpr fun x hx => Exchange.marked?_eq_none fun hmarking => ?_
  exact hkinds (hmarking ▸ h.kind_mem hx)

namespace Volume

variable {v : Volume Handle Cache} {cache : Cache}

theorem commit_uncached (detached : v.cache = none) (patience piece : Nat) (data : Bytes)
    (offset : Nat) : v.commit patience piece data offset = .done (.ok ()) := by
  rw [commit, detached]
  rfl

/-- What a commit asks for after its write. -/
def sequel (cache : Cache) (piece offset : Nat) :
    Except (Failure VolumeError) Nat → List (Exchange Handle Cache)
  | .ok _ => [⟨.markCommitted cache piece, ()⟩]
  | .error (.error e) => [⟨.log (.commitFailed piece offset e), ()⟩]
  | .error (.fault _) => []

theorem exchanges_commit (attached : v.cache = some cache) (host : Host Handle Cache σ)
    (patience piece : Nat) (data : Bytes) (offset : Nat) (state : σ) :
    (v.commit patience piece data offset).exchanges host state =
      (v.writeFiles patience data offset).exchanges host state ++
        sequel cache piece offset ((v.writeFiles patience data offset).run host state).1 := by
  rw [commit, attached]
  dsimp only
  rw [Program.bind_eq, Program.exchanges_bind]
  congr 1
  generalize ((v.writeFiles patience data offset).run host state).1 = outcome
  rcases outcome with (e | fault) | count
  · rfl
  · rfl
  · rfl

theorem run_commit_failed (attached : v.cache = some cache) {host : Host Handle Cache σ}
    {patience : Nat} (piece : Nat) {data : Bytes} {offset : Nat} {state written : σ}
    {e : VolumeError}
    (hwrite : (v.writeFiles patience data offset).run host state = (.error (.error e), written)) :
    (v.commit patience piece data offset).run host state =
      (.error (.commitFailed piece e),
        (host.answer (.log (.commitFailed piece offset e)) written).2) := by
  rw [commit, attached]
  dsimp only
  rw [Program.bind_eq, Program.run_bind, hwrite]
  rfl

theorem run_commit_faulted (attached : v.cache = some cache) {host : Host Handle Cache σ}
    {patience : Nat} (piece : Nat) {data : Bytes} {offset : Nat} {state written : σ}
    {fault : Fault}
    (hwrite : (v.writeFiles patience data offset).run host state = (.error (.fault fault), written)) :
    (v.commit patience piece data offset).run host state = (.error fault, written) := by
  rw [commit, attached]
  dsimp only
  rw [Program.bind_eq, Program.run_bind, hwrite]
  rfl

end Volume

namespace Use

/-- The piece that a use stores on behalf of a cache, if it is a commit and its write succeeds. -/
def stored? (host : Host Handle Cache σ) (patience : Nat) (v : Volume Handle Cache) (state : σ) :
    Use Handle Cache → Option (Cache × Nat)
  | commit piece data offset =>
    match v.cache, ((v.writeFiles patience data offset).run host state).1 with
    | some cache, .ok _ => some (cache, piece)
    | _, _ => none
  | _ => none

def storedAll (host : Host Handle Cache σ) (patience : Nat) :
    List (Use Handle Cache) → Volume Handle Cache → σ → List (Cache × Nat)
  | [], _, _ => []
  | use :: rest, v, state =>
    let reached := (use.perform patience v).run host state
    (use.stored? host patience v state).toList ++ storedAll host patience rest reached.1 reached.2

theorem marked_commit (host : Host Handle Cache σ) (patience : Nat) (v : Volume Handle Cache)
    (state : σ) (piece : Nat) (data : Bytes) (offset : Nat) :
    ((v.commit patience piece data offset).exchanges host state).filterMap Exchange.marked? =
      ((commit piece data offset).stored? host patience v state).toList := by
  cases hcache : v.cache with
  | none =>
    rw [Volume.commit_uncached hcache, stored?, hcache]
    rfl
  | some cache =>
    have hwithin : (v.writeFiles patience data offset).Within [.writing] :=
      v.within_writeFiles List.mem_cons_self patience data offset
    have hwrites := hwithin.marks_nothing (by decide) host state
    rw [Volume.exchanges_commit hcache, List.filterMap_append, hwrites, stored?, hcache]
    generalize ((v.writeFiles patience data offset).run host state).1 = outcome
    rcases outcome with (e | fault) | count
    · rfl
    · rfl
    · rfl

theorem marked_perform (host : Host Handle Cache σ) (patience : Nat) (v : Volume Handle Cache)
    (state : σ) (use : Use Handle Cache) :
    ((use.perform patience v).exchanges host state).filterMap Exchange.marked? =
      (use.stored? host patience v state).toList := by
  cases use with
  | commit piece data offset =>
    rw [perform, Program.bind_eq, Program.exchanges_bind, List.filterMap_append, marked_commit]
    exact List.append_nil _
  | _ => exact (within_perform _ patience v).marks_nothing (by simp [kinds]) host state

/-- The marks of a run are those of the commits that have stored their data, in order. -/
theorem marked_performAll (host : Host Handle Cache σ) (patience : Nat) (uses : List (Use Handle Cache))
    (v : Volume Handle Cache) (state : σ) :
    ((performAll patience uses v).exchanges host state).filterMap Exchange.marked? =
      storedAll host patience uses v state := by
  induction uses generalizing v state with
  | nil => rfl
  | cons use rest ih =>
    rw [performAll, Program.bind_eq, Program.exchanges_bind, List.filterMap_append, ih,
      marked_perform, storedAll]

end Use

namespace Backing

/-- What a commit does, by what its write comes to. -/
structure CommitReport (b : Backing Handle File σ) (host : Host Handle Cache σ)
    (v : Volume Handle Cache) (patience piece : Nat) (data : Bytes) (offset : Nat) (before : σ) :
    Prop where
  kinds : ∀ x ∈ (v.commit patience piece data offset).exchanges host before,
    x.request.kind ∈ [.writing, .marking, .logging]
  uncached : v.cache = none →
    (v.commit patience piece data offset).run host before = (.ok (), before) ∧
      (v.commit patience piece data offset).exchanges host before = []
  stored : ∀ cache count written, v.cache = some cache →
    (v.writeFiles patience data offset).run host before = (.ok count, written) →
    (v.commit patience piece data offset).run host before =
        (.ok (), host.markCommitted cache piece written) ∧
      (v.commit patience piece data offset).exchanges host before =
        (v.writeFiles patience data offset).exchanges host before ++
          [⟨.markCommitted cache piece, ()⟩] ∧
      (∀ x ∈ (v.writeFiles patience data offset).exchanges host before,
        x.request.kind = .writing) ∧
      ∀ i c, data[i]? = some c →
        if offset + i < v.total then (b.flat v written)[offset + i]? = some c else c = 0
  failed : ∀ cache e written, v.cache = some cache →
    (v.writeFiles patience data offset).run host before = (.error (.error e), written) →
    ∃ after, (v.commit patience piece data offset).run host before =
        (.error (.commitFailed piece e), after) ∧
      (Fault.commitFailed piece e).message? =
        some ("error committing piece " ++ toString piece ++ " to storage: " ++ e.message) ∧
      (v.commit patience piece data offset).exchanges host before =
        (v.writeFiles patience data offset).exchanges host before ++
          [⟨.log (.commitFailed piece offset e), ()⟩] ∧
      b.Overlaid v before written offset (data.take e.transferred) ∧ b.Same written after
  stalled : ∀ cache fault written, v.cache = some cache →
    (v.writeFiles patience data offset).run host before = (.error (.fault fault), written) →
    fault = .stalled ∧
      (v.commit patience piece data offset).run host before = (.error fault, written) ∧
      (v.commit patience piece data offset).exchanges host before =
        (v.writeFiles patience data offset).exchanges host before

variable {b : Backing Handle File σ} {host : Host Handle Cache σ} {v : Volume Handle Cache}
    {sound broken : σ → Prop} {data : Bytes} {offset : Nat} {before : σ}

/-- Which cache is attached makes no difference to the files. -/
theorem Writes.reattached (h : b.Writes host v sound broken) (cache? : Option Cache) :
    b.Writes host ⟨v.layout, cache?⟩ sound broken where
  honest e data place state backs := h.honest e data place state ⟨backs.mem, backs.pos, backs.fits⟩
  goes e data place state backs := h.goes e data place state ⟨backs.mem, backs.pos, backs.fits⟩
  breaks e data place state backs := h.breaks e data place state ⟨backs.mem, backs.pos, backs.fits⟩

/-- A write that succeeds has put every byte where it belongs, and none behind the end. -/
theorem WriteEnds.in_files {count : Nat} {after : σ}
    (h : b.WriteEnds v data offset before sound broken (.ok count) after) {i : Nat} {c : UInt8}
    (hi : data[i]? = some c) :
    if offset + i < v.total then (b.flat v after)[offset + i]? = some c else c = 0 := by
  cases h with
  | stored htrailing hsound hlaid =>
    have hlt := (List.getElem?_eq_some_iff.mp hi).1
    split
    · rename_i hinside
      rw [hlaid.flat_eq, Bytes.getElem?_overlay, length_flat, if_pos (by omega),
        Nat.add_sub_cancel_left, hi]
    · rename_i hpast
      have hzero := FlatArray.trailing?_eq_none_iff.mp htrailing i hlt (by omega)
      rwa [List.getD_eq_getElem?_getD, hi, Option.getD_some] at hzero

theorem WriteEnds.partial {e : VolumeError} {after : σ}
    (h : b.WriteEnds v data offset before sound broken (.error (.error e)) after) :
    b.Overlaid v before after offset (data.take e.transferred) := by
  cases h with
  | refused htrailing hsound hlaid => exact hlaid
  | failed hlt hinside hbroken hlaid => exact hlaid

theorem commit_report (distinct : b.Distinct v) (writes : b.Writes host v sound broken)
    (quiet : ∀ line state, b.Same state (host.answer (.log line) state).2)
    (patience piece : Nat) (data : Bytes) (offset : Nat) (h : sound before) :
    b.CommitReport host v patience piece data offset before where
  kinds x hx := (v.within_commit patience piece data offset).kind_mem hx
  uncached detached := by
    rw [Volume.commit_uncached detached]
    exact ⟨rfl, rfl⟩
  stored cache count written attached hwrite := by
    have hends := writes.ends distinct patience data offset h
    have hexchanges := Volume.exchanges_commit attached host patience piece data offset before
    rw [hwrite] at hends hexchanges
    have hwithin : (v.writeFiles patience data offset).Within [.writing] :=
      v.within_writeFiles List.mem_cons_self patience data offset
    exact ⟨Volume.run_commit_cached attached piece hwrite, hexchanges,
      fun x hx => List.mem_singleton.mp (hwithin.kind_mem hx), fun i c hi => hends.in_files hi⟩
  failed cache e written attached hwrite := by
    have hends := writes.ends distinct patience data offset h
    have hexchanges := Volume.exchanges_commit attached host patience piece data offset before
    rw [hwrite] at hends hexchanges
    exact ⟨_, Volume.run_commit_failed attached piece hwrite, rfl, hexchanges, hends.partial,
      quiet _ written⟩
  stalled cache fault written attached hwrite := by
    have hends := writes.ends distinct patience data offset h
    have hexchanges := Volume.exchanges_commit attached host patience piece data offset before
    rw [hwrite] at hends hexchanges
    refine ⟨?_, Volume.run_commit_faulted attached piece hwrite, ?_⟩
    · cases hends
      rfl
    · rw [hexchanges]
      exact List.append_nil _

/-- In every run on honest files the marks are those of the commits that have stored their data,
and each commit on the way marks only after its data is in the files. -/
theorem marks_what_is_stored (distinct : b.Distinct v)
    (writes : b.Writes host v (fun _ => True) (fun _ => True))
    (quiet : ∀ line state, b.Same state (host.answer (.log line) state).2)
    (patience : Nat) (uses : List (Use Handle Cache)) (state : σ) :
    let used := (Use.performAll patience uses v).run host state
    ((Use.performAll patience uses v).exchanges host state).filterMap Exchange.marked? =
        Use.storedAll host patience uses v state ∧
      ∀ piece data offset, b.CommitReport host used.1 patience piece data offset used.2 := by
  intro used
  refine ⟨Use.marked_performAll host patience uses v state, fun piece data offset => ?_⟩
  have hvolume : used.1 = ⟨v.layout, (uses.filterMap Use.attached?).getLast?.or v.cache⟩ :=
    Use.run_performAll host uses patience v state
  have hdistinct : b.Distinct used.1 := by
    rw [hvolume]
    exact distinct
  have hwrites : b.Writes host used.1 (fun _ => True) (fun _ => True) := by
    rw [hvolume]
    exact writes.reattached _
  exact commit_report hdistinct hwrites quiet patience piece data offset trivial

/-- A commit without a cache, one that is stored in short transfers, one that a file fails, one
with zeros behind the end and one with another byte there. -/
theorem marks_what_is_stored_pocket :
    let v : Volume Nat Unit := ⟨⟨[⟨0, 2, 0⟩, ⟨2, 3, 1⟩], 5, ⟨rfl, rfl, rfl⟩, by decide⟩, none⟩
    let s : Pocket := ⟨⟨fun _ _ => 0, [.upTo 1, .upTo 2, .upTo 1,
      .fails ⟨.storageFull, "no space left"⟩]⟩, fun _ => none⟩
    let uses : List (Use Nat Unit) := [.commit 3 [1] 9, .attach (), .commit 0 [4, 5, 6] 1,
      .commit 1 [7, 8] 3, .commit 2 [9, 0] 4, .commit 4 [9, 1] 4]
    let used := (Use.performAll 0 uses v).run (Pocket.host 2) s
    Pocket.backing.Distinct v ∧
      ((Use.performAll 0 uses v).exchanges (Pocket.host 2) s).filterMap Exchange.marked? =
        [((), 0), ((), 2)] ∧
      ∀ piece data offset,
        Pocket.backing.CommitReport (Pocket.host 2) used.1 0 piece data offset used.2 := by
  intro v s uses used
  have hdistinct : Pocket.backing.Distinct v := by
    rw [Distinct, List.nodup_iff_pairwise_ne]
    decide
  obtain ⟨hmarks, hreports⟩ :=
    marks_what_is_stored hdistinct (Pocket.writes v 2) (fun _ _ _ _ => rfl) 0 uses s
  refine ⟨hdistinct, ?_, hreports⟩
  rw [hmarks]
  decide +kernel

end Backing

end FlatVolume
