import FlatVolume.Proofs.Recording
import FlatVolume.Volume.Access

/-!
# What each operation asks for

The requests of an operation are of a few kinds, whatever they are answered with. Reads and
writes of the files only move bytes, a commit never reads or writes the cache, nothing but a
commit marks a piece, and nothing but opening and teardown closes what is open.
-/

namespace FlatVolume

variable {Handle Cache σ α β : Type}

inductive RequestKind where
  | opening
  | reading
  | writing
  | caching
  | marking
  | closing
  | logging
  deriving DecidableEq, Repr

def Request.kind : Request Handle Cache → RequestKind
  | .openFile _ _ => .opening
  | .readHandle _ _ _ => .reading
  | .writeHandle _ _ _ => .writing
  | .readCache _ _ _ | .writeCache _ _ _ => .caching
  | .markCommitted _ _ => .marking
  | .closeHandle _ | .closeCache _ => .closing
  | .log _ => .logging

def Direction.kind : Direction → RequestKind
  | .reading => .reading
  | .writing => .writing

namespace Program

/-- Whatever is replied, the program asks for nothing but what is of these kinds. -/
def Within (kinds : List RequestKind) : Program Handle Cache α → Prop
  | done _ => True
  | ask request next => request.kind ∈ kinds ∧ ∀ reply, (next reply).Within kinds

/-- The exchanges of a run, less what it logs. -/
def calls (host : Host Handle Cache σ) (p : Program Handle Cache α) (state : σ) :
    List (Exchange Handle Cache) :=
  (p.exchanges host state).filter fun x => x.request.kind ≠ .logging

variable {kinds : List RequestKind} {p : Program Handle Cache α}

namespace Within

theorem bind {f : α → Program Handle Cache β} (h : p.Within kinds)
    (hf : ∀ a, (f a).Within kinds) : (p.bind f).Within kinds := by
  induction p with
  | done a => exact hf a
  | ask request next ih => exact ⟨h.1, fun reply => ih reply (h.2 reply)⟩

theorem request {r : Request Handle Cache} (h : r.kind ∈ kinds) :
    (Program.request r).Within kinds :=
  ⟨h, fun _ => trivial⟩

theorem mono {kinds' : List RequestKind} (h : p.Within kinds) (hsub : kinds ⊆ kinds') :
    p.Within kinds' := by
  induction p with
  | done a => trivial
  | ask request next ih => exact ⟨hsub h.1, fun reply => ih reply (h.2 reply)⟩

theorem log (h : .logging ∈ kinds) (line : LogLine) :
    (Program.log line : Program Handle Cache Unit).Within kinds :=
  request h

theorem kind_mem (h : p.Within kinds) {host : Host Handle Cache σ} {state : σ}
    {x : Exchange Handle Cache} (hx : x ∈ p.exchanges host state) : x.request.kind ∈ kinds := by
  induction p generalizing state with
  | done a => exact absurd hx List.not_mem_nil
  | ask request next ih =>
    rcases List.mem_cons.mp hx with rfl | hx
    · exact h.1
    · exact ih _ (h.2 _) hx

end Within

/-- Programs in turns ask for nothing that none of them asks for. -/
theorem Interleaves.within {programs : List (Program Handle Cache α)}
    {whole : Program Handle Cache (List α)} (h : Interleaves programs whole)
    (hprograms : ∀ p ∈ programs, p.Within kinds) : whole.Within kinds := by
  induction h with
  | done results => trivial
  | @ask programs i request next rest hi _ ih =>
    have hfirst := hprograms _ (List.mem_of_getElem? hi)
    refine ⟨hfirst.1, fun reply => ih reply fun p hp => ?_⟩
    rcases List.mem_or_eq_of_mem_set hp with hp | rfl
    · exact hprograms p hp
    · exact hfirst.2 reply

theorem calls_bind (host : Host Handle Cache σ) (p : Program Handle Cache α)
    (f : α → Program Handle Cache β) (state : σ) :
    (p.bind f).calls host state =
      p.calls host state ++ (f (p.run host state).1).calls host (p.run host state).2 := by
  rw [calls, exchanges_bind, List.filter_append]
  rfl

@[simp] theorem calls_done (host : Host Handle Cache σ) (a : α) (state : σ) :
    (done a : Program Handle Cache α).calls host state = [] := rfl

theorem run_request_bind (host : Host Handle Cache σ) (r : Request Handle Cache)
    (f : Reply r → Program Handle Cache β) (state : σ) :
    ((request r).bind f).run host state =
      (f (host.answer r state).1).run host (host.answer r state).2 := rfl

theorem exchanges_request_bind (host : Host Handle Cache σ) (r : Request Handle Cache)
    (f : Reply r → Program Handle Cache β) (state : σ) :
    ((request r).bind f).exchanges host state =
      ⟨r, (host.answer r state).1⟩ ::
        (f (host.answer r state).1).exchanges host (host.answer r state).2 := rfl

theorem calls_request_bind (host : Host Handle Cache σ) {r : Request Handle Cache}
    (h : r.kind ≠ .logging) (f : Reply r → Program Handle Cache β) (state : σ) :
    ((request r).bind f).calls host state =
      ⟨r, (host.answer r state).1⟩ ::
        (f (host.answer r state).1).calls host (host.answer r state).2 :=
  List.filter_cons_of_pos (decide_eq_true h)

theorem calls_log_bind (host : Host Handle Cache σ) (line : LogLine)
    (f : Unit → Program Handle Cache β) (state : σ) :
    ((log line).bind f).calls host state =
      (f ()).calls host (host.answer (.log line) state).2 := rfl

end Program

open Program (Within)

variable {kinds : List RequestKind}

namespace Transfer

variable {direction : Direction} {handle : Handle}

theorem within_call (h : direction.kind ∈ kinds) (window : Bytes) (place : Nat) :
    (call direction handle window place : Program Handle Cache _).Within kinds := by
  cases direction
  · exact ⟨h, fun _ => trivial⟩
  · exact ⟨h, fun _ => trivial⟩

theorem within_attempt (h : direction.kind ∈ kinds) (place patience : Nat) (window : Bytes) :
    (attempt direction handle place patience window : Program Handle Cache _).Within kinds := by
  induction patience generalizing window with
  | zero => exact (within_call h window place).bind fun _ => trivial
  | succ patience ih =>
    refine (within_call h window place).bind fun (window, outcome) => ?_
    dsimp only
    split
    · exact ih window
    · trivial

theorem within_resume (h : direction.kind ∈ kinds) (patience offset attempts done : Nat)
    (window : Bytes) :
    (resume direction patience handle offset attempts done window :
      Program Handle Cache _).Within kinds := by
  induction attempts generalizing done window with
  | zero => trivial
  | succ attempts ih =>
    by_cases hdone : window.length ≤ done
    · rw [resume_eq_done hdone]
      trivial
    · rw [resume_succ (Nat.lt_of_not_le hdone)]
      split
      · refine (within_attempt h _ patience (window.drop done)).bind fun (rest, outcome) => ?_
        match outcome with
        | .error _ => trivial
        | .ok 0 => trivial
        | .ok (count + 1) =>
          rw [proceed]
          split
          · trivial
          · exact ih _ _
      · trivial

theorem within_transfer (h : direction.kind ∈ kinds) (patience offset : Nat) (window : Bytes) :
    (transfer direction patience handle offset window : Program Handle Cache _).Within kinds :=
  within_resume h patience offset window.length 0 window

end Transfer

namespace Volume

theorem within_walk {direction : Direction} (h : direction.kind ∈ kinds) (patience : Nat)
    (extents : List (Extent Handle)) (p : Progress) :
    (walk direction patience extents p : Program Handle Cache _).Within kinds := by
  induction extents generalizing p with
  | nil => trivial
  | cons e rest ih =>
    rw [walk]
    split
    · split
      · trivial
      · exact ih p
      · refine (Transfer.within_transfer h patience _ _).bind fun t => ?_
        split
        · exact ih _
        · trivial
    · trivial

theorem within_readFiles (h : .reading ∈ kinds) (v : Volume Handle Cache) (patience : Nat)
    (buffer : Bytes) (offset : Nat) : (v.readFiles patience buffer offset).Within kinds :=
  (within_walk h patience _ _).bind fun _ => trivial

theorem within_writeFiles (h : .writing ∈ kinds) (v : Volume Handle Cache) (patience : Nat)
    (data : Bytes) (offset : Nat) : (v.writeFiles patience data offset).Within kinds :=
  (within_walk h patience _ _).bind fun _ => trivial

theorem within_readGaps (v : Volume Handle Cache) (patience : Nat) (gaps : List Gap)
    (buffer : Contents) (failed : Option VolumeError) :
    (v.readGaps patience gaps buffer failed).Within [.reading, .caching, .logging] := by
  induction gaps generalizing buffer failed with
  | nil => cases failed <;> trivial
  | cons gap rest ih =>
    refine (within_readFiles (by decide) v patience _ _).bind fun reading => ?_
    dsimp only
    split
    · exact ih _ _
    · exact (Within.log (by decide) _).bind fun _ => ih _ _
    · trivial

theorem within_read (v : Volume Handle Cache) (patience : Nat) (buffer : Bytes) (offset : Nat) :
    (v.read patience buffer offset).Within [.reading, .caching, .logging] := by
  rw [read]
  split
  · exact within_readFiles (by decide) v patience buffer offset
  · refine (Within.request (by simp [Request.kind])).bind fun reply => ?_
    dsimp only
    split
    · exact within_readGaps v patience _ _ none
    · trivial

theorem within_writeRanges (v : Volume Handle Cache) (patience : Nat) (ranges : List WriteBack) :
    (v.writeRanges patience ranges).Within [.writing, .caching, .logging] := by
  induction ranges with
  | nil => trivial
  | cons range rest ih =>
    refine (within_writeFiles (by decide) v patience _ _).bind fun outcome => ?_
    split
    · exact ih
    · exact (Within.log (by decide) _).bind fun _ => ih
    · trivial

theorem within_write (v : Volume Handle Cache) (patience : Nat) (data : Bytes) (offset : Nat) :
    (v.write patience data offset).Within [.writing, .caching, .logging] := by
  rw [write]
  split
  · exact within_writeFiles (by decide) v patience data offset
  · refine (Within.request (by simp [Request.kind])).bind fun ranges => ?_
    refine (within_writeRanges v patience _).bind fun outcome => ?_
    split <;> trivial

theorem within_commit (v : Volume Handle Cache) (patience piece : Nat) (data : Bytes)
    (offset : Nat) :
    (v.commit patience piece data offset).Within [.writing, .marking, .logging] := by
  rw [commit]
  split
  · trivial
  · refine (within_writeFiles (by decide) v patience data offset).bind fun outcome => ?_
    split
    · exact (Within.request (by simp [Request.kind])).bind fun _ => trivial
    · exact (Within.log (by decide) _).bind fun _ => trivial
    · trivial

theorem within_readEach (pool : Pool Handle Cache Reading) (v : Volume Handle Cache)
    (patience : Nat) (requests : List ReadRequest) :
    (v.readEach pool patience requests).Within [.reading, .caching, .logging] := by
  refine (pool.in_turns _).within fun p hp => ?_
  obtain ⟨r, -, rfl⟩ := List.mem_map.mp hp
  exact within_read v patience r.buffer r.offset

end Volume

end FlatVolume
