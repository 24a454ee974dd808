import FlatVolume.Proofs.TransferLoop

/-!
# Recording the requests of a program

A host that keeps a record answers as the host it is made from and remembers what it
was asked. So a statement about the calls of a program is a statement about the state
in which the program leaves a recording host, and needs no argument of its own.
-/

namespace FlatVolume

def Request.move {Handle Cache : Type} (direction : Direction) (handle : Handle) (window : Bytes)
    (offset : Nat) : Request Handle Cache :=
  match direction with
  | .reading => .readHandle handle window offset
  | .writing => .writeHandle handle window offset

structure Exchange (Handle Cache : Type) where
  request : Request Handle Cache
  reply : Reply request

namespace Exchange

variable {Handle Cache : Type}

/-- What a file replied to a read or a write: the bytes it counts as moved, or why there
are none. -/
def outcome? : Exchange Handle Cache → Option (Except (Failure IoError) Nat)
  | ⟨.readHandle _ _ _, reply⟩ => some (Except.mapError Failure.error (FileReading.outcome reply))
  | ⟨.writeHandle _ _ _, reply⟩ => some reply
  | _ => none

def asked : Exchange Handle Cache → Nat
  | ⟨.readHandle _ window _, _⟩ => window.length
  | ⟨.writeHandle _ data _, _⟩ => data.length
  | _ => 0

/-- What a reply leaves at the front of the window. -/
def laid : Exchange Handle Cache → Bytes
  | ⟨.readHandle _ window _, reply⟩ => (FileReading.bytes reply).take window.length
  | _ => []

/-- A file moved nothing, or it failed and was not only interrupted. -/
def Fails (x : Exchange Handle Cache) : Prop :=
  ∃ outcome, x.outcome? = some outcome ∧ Transfer.stops outcome = true

theorem fails_iff {x : Exchange Handle Cache} {outcome : Except (Failure IoError) Nat}
    (h : x.outcome? = some outcome) : x.Fails ↔ Transfer.stops outcome = true := by
  simp [Fails, h]

end Exchange

variable {Handle Cache σ α β : Type}

def Host.recorded (host : Host Handle Cache σ) :
    Host Handle Cache (σ × List (Exchange Handle Cache)) where
  answer request state :=
    ((host.answer request state.1).1,
      ((host.answer request state.1).2, state.2 ++ [⟨request, (host.answer request state.1).1⟩]))

@[simp] theorem Host.answer_recorded (host : Host Handle Cache σ) (request : Request Handle Cache)
    (state : σ × List (Exchange Handle Cache)) :
    host.recorded.answer request state =
      ((host.answer request state.1).1,
        ((host.answer request state.1).2,
          state.2 ++ [⟨request, (host.answer request state.1).1⟩])) := rfl

namespace Program

def exchanges (host : Host Handle Cache σ) : Program Handle Cache α → σ → List (Exchange Handle Cache)
  | done _, _ => []
  | ask request next, state =>
    ⟨request, (host.answer request state).1⟩ ::
      (next (host.answer request state).1).exchanges host (host.answer request state).2

@[simp] theorem exchanges_done (host : Host Handle Cache σ) (a : α) (state : σ) :
    (done a : Program Handle Cache α).exchanges host state = [] := rfl

theorem exchanges_bind (host : Host Handle Cache σ) (p : Program Handle Cache α)
    (f : α → Program Handle Cache β) (state : σ) :
    (p.bind f).exchanges host state =
      p.exchanges host state ++ (f (p.run host state).1).exchanges host (p.run host state).2 := by
  induction p generalizing state with
  | done a => rfl
  | ask request next ih => simp [exchanges, ih]

/-- Keeping a record changes neither the result nor the state, and what is recorded is the
list of exchanges. -/
theorem run_recorded (host : Host Handle Cache σ) (p : Program Handle Cache α) (state : σ)
    (before : List (Exchange Handle Cache)) :
    p.run host.recorded (state, before) =
      ((p.run host state).1, ((p.run host state).2, before ++ p.exchanges host state)) := by
  induction p generalizing state before with
  | done a => simp
  | ask request next ih => simp [exchanges, ih]

end Program

theorem Transfer.run_call_recorded (host : Host Handle Cache σ) (direction : Direction)
    (handle : Handle) (window : Bytes) (place : Nat) (state : σ)
    (before : List (Exchange Handle Cache)) :
    ∃ x : Exchange Handle Cache,
      x.request = .move direction handle window place ∧ x.asked = window.length ∧
      x.laid.length ≤ window.length ∧
      let reply := (call direction handle window place).run host state
      x.outcome? = some reply.1.2 ∧ reply.1.1 = window.overlay 0 x.laid ∧
        (call direction handle window place).run host.recorded (state, before) =
          (reply.1, (reply.2, before ++ [x])) := by
  cases direction with
  | reading =>
    refine ⟨⟨.readHandle handle window place,
      (host.answer (.readHandle handle window place) state).1⟩, rfl, rfl, ?_, rfl, ?_, rfl⟩
    · exact List.length_take_le _ _
    · exact (Bytes.overlay_take window 0 _).symm
  | writing =>
    exact ⟨⟨.writeHandle handle window place,
      (host.answer (.writeHandle handle window place) state).1⟩, rfl, rfl, Nat.zero_le _, rfl,
      (Bytes.overlay_nil window 0).symm, rfl⟩

end FlatVolume
