import FlatVolume.Proofs.Backing
import FlatVolume.Proofs.Requests

/-!
# Errands

An operation that makes several calls one after the other, and goes on after one that has failed.
Each starts from where the one before it has led, once the line that may be logged of that one is
written. So what is known of one call is known of all of them, and what they make of the state
together is a fold over them.
-/

namespace FlatVolume

variable {Handle Cache File ι α β σ : Type}

/-- One of several calls: what it was for, where it started and how it went. -/
structure Errand (Handle Cache ι α σ : Type) where
  item : ι
  before : σ
  result : α
  after : σ
  exchanges : List (Exchange Handle Cache)

/-- Where a line leads if there is one to log. -/
def Host.note (host : Host Handle Cache σ) : Option LogLine → σ → σ
  | none, state => state
  | some line, state => (host.answer (.log line) state).2

def Exchange.logged (line : LogLine) : Exchange Handle Cache :=
  ⟨.log line, ()⟩

def Exchange.line? : Exchange Handle Cache → Option LogLine
  | ⟨.log line, _⟩ => some line
  | _ => none

theorem Exchange.line?_eq_none {x : Exchange Handle Cache} (h : x.request.kind ≠ .logging) :
    x.line? = none := by
  obtain ⟨request, reply⟩ := x
  cases request
  case log line => exact absurd rfl h
  all_goals rfl

namespace Errand

def IsRun (host : Host Handle Cache σ) (program : Program Handle Cache α)
    (e : Errand Handle Cache ι α σ) : Prop :=
  program.run host e.before = (e.result, e.after) ∧ program.exchanges host e.before = e.exchanges

/-- The errands of a program, one after the other, with a line for each of which `line?` has one. -/
inductive InTurn (host : Host Handle Cache σ) (line? : Errand Handle Cache ι α σ → Option LogLine) :
    σ → List (Errand Handle Cache ι α σ) → σ → Prop where
  | nil {state : σ} : InTurn host line? state [] state
  | cons {e : Errand Handle Cache ι α σ} {rest : List (Errand Handle Cache ι α σ)} {last : σ} :
      InTurn host line? (host.note (line? e) e.after) rest last →
      InTurn host line? e.before (e :: rest) last

/-- What is asked for on an errand and then logged of it. -/
def asked (line? : Errand Handle Cache ι α σ → Option LogLine) (e : Errand Handle Cache ι α σ) :
    List (Exchange Handle Cache) :=
  e.exchanges ++ ((line? e).map Exchange.logged).toList

variable {host : Host Handle Cache σ} {line? : Errand Handle Cache ι α σ → Option LogLine}
    {errands : List (Errand Handle Cache ι α σ)} {state last : σ}

/-- Where every single errand comes to its end, all of them do, one after the other. -/
theorem InTurn.of_settles {program : Nat → ι → Program Handle Cache α} {sound : σ → Prop}
    {good : Errand Handle Cache ι α σ → Prop}
    (settles : ∀ item state, sound state → ∃ e bound, e.item = item ∧ e.before = state ∧ good e ∧
      sound (host.note (line? e) e.after) ∧
      ∀ patience, bound ≤ patience → e.IsRun host (program patience item))
    (items : List ι) (h : sound state) :
    ∃ errands last bound, errands.map (fun e => e.item) = items ∧
      InTurn host line? state errands last ∧ sound last ∧ (∀ e ∈ errands, good e) ∧
      ∀ patience, bound ≤ patience → ∀ e ∈ errands, e.IsRun host (program patience e.item) := by
  induction items generalizing state with
  | nil =>
    exact ⟨[], state, 0, rfl, .nil, h, List.forall_mem_nil _, fun _ _ => List.forall_mem_nil _⟩
  | cons item rest ih =>
    obtain ⟨e, bound, rfl, rfl, hgood, hsound, hrun⟩ := settles item state h
    obtain ⟨errands, last, bound', hitems, hturns, hlast, hgoods, hruns⟩ := ih hsound
    refine ⟨e :: errands, last, max bound bound', ?_, .cons hturns, hlast, ?_, ?_⟩
    · rw [List.map_cons, hitems]
    · exact List.forall_mem_cons.mpr ⟨hgood, hgoods⟩
    · intro patience hle
      rw [List.forall_mem_cons]
      constructor
      · exact hrun patience (by omega)
      · exact hruns patience (by omega)

/-- What each errand makes of a part of the state, they all make of it in their order. -/
theorem InTurn.view {view : σ → β} {step : β → Errand Handle Cache ι α σ → β}
    (turns : InTurn host line? state errands last)
    (h : ∀ e ∈ errands, view (host.note (line? e) e.after) = step (view e.before) e) :
    view last = errands.foldl step (view state) := by
  induction turns with
  | nil => rfl
  | cons _ ih =>
    obtain ⟨hfirst, hrest⟩ := List.forall_mem_cons.mp h
    rw [List.foldl_cons, ← hfirst]
    exact ih hrest

/-- What no errand changes is as it was. -/
theorem InTurn.unchanged {view : σ → β} (turns : InTurn host line? state errands last)
    (h : ∀ e ∈ errands, view (host.note (line? e) e.after) = view e.before) :
    view last = view state := by
  induction turns with
  | nil => rfl
  | cons _ ih =>
    obtain ⟨hfirst, hrest⟩ := List.forall_mem_cons.mp h
    exact (ih hrest).trans hfirst

/-- The lines that are logged, where no errand logs one by itself. -/
theorem lines_asked (h : ∀ e ∈ errands, ∀ x ∈ e.exchanges, x.request.kind ≠ .logging) :
    (errands.flatMap (asked line?)).filterMap Exchange.line? = errands.filterMap line? := by
  induction errands with
  | nil => rfl
  | cons e rest ih =>
    obtain ⟨hfirst, hrest⟩ := List.forall_mem_cons.mp h
    have hnone : e.exchanges.filterMap Exchange.line? = [] := by
      apply List.filterMap_eq_nil_iff.mpr
      intro x hx
      exact Exchange.line?_eq_none (hfirst x hx)
    rw [List.flatMap_cons, List.filterMap_append, ih hrest, asked, List.filterMap_append, hnone,
      List.filterMap_cons]
    cases line? e with
    | none => rfl
    | some line => rfl

end Errand

namespace Backing

/-- In `sound` states a line is logged without a change to the files. -/
def Quiet (b : Backing Handle File σ) (host : Host Handle Cache σ) (sound : σ → Prop) : Prop :=
  ∀ line state, sound state →
    sound (host.answer (.log line) state).2 ∧ b.Same state (host.answer (.log line) state).2

theorem Quiet.note {b : Backing Handle File σ} {host : Host Handle Cache σ} {sound : σ → Prop}
    (quiet : b.Quiet host sound) (line? : Option LogLine) {state : σ} (h : sound state) :
    sound (host.note line? state) ∧ b.Same state (host.note line? state) := by
  cases line? with
  | none => exact ⟨h, .refl state⟩
  | some line => exact quiet line state h

end Backing

end FlatVolume
