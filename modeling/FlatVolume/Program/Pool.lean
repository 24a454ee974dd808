import FlatVolume.Program

/-!
# Pools

Many programs at once. A pool makes the requests of all of them, one at a time, and may go on
with any program next. It leaves none out and begins none twice, and it gives their results
in their order.
-/

namespace FlatVolume

variable {Handle Cache α β : Type}

namespace Program

/-- `whole` makes the requests of the programs in turns, follows each of them once to its end, and
has their results in their order. -/
inductive Interleaves : List (Program Handle Cache α) → (whole : Program Handle Cache (List α)) →
    Prop where
  | done (results : List α) : Interleaves (results.map done) (done results)
  | ask {programs : List (Program Handle Cache α)} {i : Nat} {request : Request Handle Cache}
      {next : Reply request → Program Handle Cache α}
      {rest : Reply request → Program Handle Cache (List α)} :
      programs[i]? = some (ask request next) →
      (∀ reply, Interleaves (programs.set i (next reply)) (rest reply)) →
      Interleaves programs (ask request rest)

/-- One program after the other. -/
def inOrder : List (Program Handle Cache α) → Program Handle Cache (List α)
  | [] => pure []
  | p :: rest => do
    let result ← p
    let results ← inOrder rest
    pure (result :: results)

/-- What is made of each result is made of all of them. -/
theorem Interleaves.map {programs : List (Program Handle Cache α)}
    {whole : Program Handle Cache (List α)} (h : Interleaves programs whole) (f : α → β) :
    Interleaves (programs.map fun p => p.bind fun a => .done (f a))
      (whole.bind fun results => .done (results.map f)) := by
  induction h with
  | done results =>
    have hdone : (results.map Program.done).map (fun p => p.bind fun a => .done (f a)) =
        (results.map f).map (Program.done : β → Program Handle Cache β) := by
      rw [List.map_map, List.map_map]
      rfl
    rw [hdone]
    exact .done (results.map f)
  | @ask programs i request next rest hi _ ih =>
    have hasks : (programs.map fun p => p.bind fun a => .done (f a))[i]? =
        some (.ask request fun reply => (next reply).bind fun a => .done (f a)) := by
      rw [List.getElem?_map, hi]
      rfl
    refine .ask hasks fun reply => ?_
    rw [← List.map_set (f := fun p : Program Handle Cache α => p.bind fun a => .done (f a))]
    exact ih reply

theorem interleaves_inOrder_append (finished : List α) (programs : List (Program Handle Cache α)) :
    Interleaves (finished.map done ++ programs)
      ((inOrder programs).bind fun results => done (finished ++ results)) := by
  induction programs generalizing finished with
  | nil =>
    rw [List.append_nil, inOrder, pure_eq, done_bind, List.append_nil]
    exact .done finished
  | cons p rest ih =>
    induction p with
    | done a =>
      have hfinished := ih (finished ++ [a])
      rw [List.map_append, List.append_assoc] at hfinished
      simp only [inOrder, bind_eq, pure_eq, done_bind, bind_assoc]
      simpa using hfinished
    | ask request next ihp =>
      have hasks : (finished.map done ++ ask request next :: rest)[finished.length]? =
          some (ask request next) := by simp
      refine .ask hasks fun reply => ?_
      have hset : (finished.map done ++ ask request next :: rest).set finished.length (next reply) =
          finished.map done ++ next reply :: rest := by simp
      rw [hset]
      exact ihp reply

/-- One program after the other is one way to take turns. -/
theorem interleaves_inOrder (programs : List (Program Handle Cache α)) :
    Interleaves programs (inOrder programs) := by
  simpa using interleaves_inOrder_append [] programs

end Program

structure Pool (Handle Cache α : Type) where
  perform : List (Program Handle Cache α) → Program Handle Cache (List α)
  in_turns : ∀ programs, Program.Interleaves programs (perform programs)

/-- A pool that goes on with a program as long as it has requests. -/
def Pool.oneByOne : Pool Handle Cache α :=
  ⟨Program.inOrder, Program.interleaves_inOrder⟩

end FlatVolume
