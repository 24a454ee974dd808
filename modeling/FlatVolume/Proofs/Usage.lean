import FlatVolume.Proofs.Requests

/-!
# Using a volume

What is done with a volume between its opening and its end. A use may fail, and a commit may
fault; the volume is then used further all the same. None of this changes where the files lie,
and only `attach` changes which cache is in front of them.
-/

namespace FlatVolume

variable {Handle Cache σ : Type}

inductive Use (Handle Cache : Type) where
  | attach (cache : Cache)
  | read (buffer : Bytes) (offset : Nat)
  | write (data : Bytes) (offset : Nat)
  | readFiles (buffer : Bytes) (offset : Nat)
  | writeFiles (data : Bytes) (offset : Nat)
  | readEach (pool : Pool Handle Cache Reading) (requests : List Volume.ReadRequest)
  | commit (piece : Nat) (data : Bytes) (offset : Nat)

namespace Use

/-- The use, whatever it answers, and the volume that it leaves. -/
def perform (patience : Nat) (v : Volume Handle Cache) :
    Use Handle Cache → Program Handle Cache (Volume Handle Cache)
  | attach cache => pure (v.attach cache)
  | read buffer offset => do
    let _ ← v.read patience buffer offset
    pure v
  | write data offset => do
    let _ ← v.write patience data offset
    pure v
  | readFiles buffer offset => do
    let _ ← v.readFiles patience buffer offset
    pure v
  | writeFiles data offset => do
    let _ ← v.writeFiles patience data offset
    pure v
  | readEach pool requests => do
    let _ ← v.readEach pool patience requests
    pure v
  | commit piece data offset => do
    let _ ← v.commit patience piece data offset
    pure v

def performAll (patience : Nat) :
    List (Use Handle Cache) → Volume Handle Cache → Program Handle Cache (Volume Handle Cache)
  | [], v => pure v
  | use :: rest, v => do
    let v ← use.perform patience v
    performAll patience rest v

def attached? : Use Handle Cache → Option Cache
  | attach cache => some cache
  | _ => none

/-- The kinds of requests that a use makes. -/
def kinds : Use Handle Cache → List RequestKind
  | attach _ => []
  | read _ _ | readEach _ _ => [.reading, .caching, .logging]
  | write _ _ => [.writing, .caching, .logging]
  | readFiles _ _ => [.reading]
  | writeFiles _ _ => [.writing]
  | commit _ _ _ => [.writing, .marking, .logging]

theorem within_perform (use : Use Handle Cache) (patience : Nat) (v : Volume Handle Cache) :
    (use.perform patience v).Within use.kinds := by
  cases use with
  | attach cache => trivial
  | read buffer offset => exact (v.within_read patience buffer offset).bind fun _ => trivial
  | write data offset => exact (v.within_write patience data offset).bind fun _ => trivial
  | readFiles buffer offset =>
    exact (v.within_readFiles List.mem_cons_self patience buffer offset).bind fun _ => trivial
  | writeFiles data offset =>
    exact (v.within_writeFiles List.mem_cons_self patience data offset).bind fun _ => trivial
  | readEach pool requests => exact (v.within_readEach pool patience requests).bind fun _ => trivial
  | commit piece data offset =>
    exact (v.within_commit patience piece data offset).bind fun _ => trivial

theorem closing_not_mem_kinds (use : Use Handle Cache) : .closing ∉ use.kinds := by
  cases use <;> simp [kinds]

theorem within_performAll (uses : List (Use Handle Cache)) (patience : Nat) (v : Volume Handle Cache) :
    (performAll patience uses v).Within (uses.flatMap kinds) := by
  induction uses generalizing v with
  | nil => trivial
  | cons use rest ih =>
    rw [List.flatMap_cons]
    exact ((use.within_perform patience v).mono (List.subset_append_left _ _)).bind fun v =>
      (ih v).mono (List.subset_append_right _ _)

theorem run_perform (host : Host Handle Cache σ) (use : Use Handle Cache) (patience : Nat)
    (v : Volume Handle Cache) (state : σ) :
    ((use.perform patience v).run host state).1 = ⟨v.layout, use.attached?.or v.cache⟩ := by
  cases use with
  | attach cache => rfl
  | _ =>
    rw [perform, Program.bind_eq, Program.run_bind]
    rfl

/-- The cache that was attached last is the one that is in front of the files. -/
theorem run_performAll (host : Host Handle Cache σ) (uses : List (Use Handle Cache)) (patience : Nat)
    (v : Volume Handle Cache) (state : σ) :
    ((performAll patience uses v).run host state).1 =
      ⟨v.layout, (uses.filterMap attached?).getLast?.or v.cache⟩ := by
  induction uses generalizing v state with
  | nil => rfl
  | cons use rest ih =>
    rw [performAll, Program.bind_eq, Program.run_bind, ih, run_perform]
    cases hattached : use.attached? with
    | none => rw [List.filterMap_cons_none hattached, Option.none_or]
    | some cache =>
      rw [List.filterMap_cons_some hattached, List.getLast?_cons]
      cases (rest.filterMap attached?).getLast? <;> rfl

end Use

end FlatVolume
