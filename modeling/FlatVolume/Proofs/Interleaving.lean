import FlatVolume.Program.Pool
import FlatVolume.Proofs.Recording
import Mathlib.Data.Set.List

/-!
# Programs in turns

Several programs share one host and make their requests in turns, in any order. To run them one
by one is one such order; and each comes to its end where its turn comes again and again.
-/

namespace FlatVolume

variable {Handle Cache σ α : Type}

namespace Program

/-- The next request of thread `i`, if it has one. -/
def advance (host : Host Handle Cache σ) (i : Nat) (reached : List (Program Handle Cache α) × σ) :
    List (Program Handle Cache α) × σ :=
  match reached.1[i]? with
  | some (ask request next) =>
    let (reply, state) := host.answer request reached.2
    (reached.1.set i (next reply), state)
  | _ => reached

/-- One request after the other, each of the thread whose turn it is. -/
def interleave (host : Host Handle Cache σ) (turns : List Nat)
    (reached : List (Program Handle Cache α) × σ) : List (Program Handle Cache α) × σ :=
  turns.foldl (fun reached i => advance host i reached) reached

/-- One program after the other. -/
def runEach (host : Host Handle Cache σ) : List (Program Handle Cache α) → σ → List α × σ
  | [], state => ([], state)
  | p :: rest, state =>
    let (a, state) := p.run host state
    let (others, state) := runEach host rest state
    (a :: others, state)

section Turns

variable {host : Host Handle Cache σ} {i j : Nat} {reached : List (Program Handle Cache α) × σ}

theorem advance_ask {request : Request Handle Cache}
    {next : Reply request → Program Handle Cache α} (h : reached.1[i]? = some (ask request next)) :
    advance host i reached =
      (reached.1.set i (next (host.answer request reached.2).1), (host.answer request reached.2).2) := by
  rw [advance, h]

theorem advance_done {a : α} (h : reached.1[i]? = some (done a)) : advance host i reached = reached := by
  rw [advance, h]

theorem advance_none (h : reached.1[i]? = none) : advance host i reached = reached := by
  rw [advance, h]

theorem length_advance (host : Host Handle Cache σ) (i : Nat)
    (reached : List (Program Handle Cache α) × σ) :
    (advance host i reached).1.length = reached.1.length := by
  rcases hi : reached.1[i]? with _ | (a | ⟨request, next⟩)
  · rw [advance_none hi]
  · rw [advance_done hi]
  · rw [advance_ask hi, List.length_set]

theorem length_interleave (host : Host Handle Cache σ) (turns : List Nat)
    (reached : List (Program Handle Cache α) × σ) :
    (interleave host turns reached).1.length = reached.1.length := by
  induction turns generalizing reached with
  | nil => rfl
  | cons i rest ih => exact (ih _).trans (length_advance host i reached)

theorem getElem?_advance_of_ne (h : i ≠ j) : (advance host j reached).1[i]? = reached.1[i]? := by
  rcases hj : reached.1[j]? with _ | (a | ⟨request, next⟩)
  · rw [advance_none hj]
  · rw [advance_done hj]
  · rw [advance_ask hj, List.getElem?_set_ne (Ne.symm h)]

theorem getElem?_advance_self {request : Request Handle Cache}
    {next : Reply request → Program Handle Cache α} (h : reached.1[i]? = some (ask request next)) :
    (advance host i reached).1[i]? = some (next (host.answer request reached.2).1) := by
  rw [advance_ask h, List.getElem?_set_self (List.getElem?_eq_some_iff.mp h).1]

theorem interleave_append (turns turns' : List Nat) :
    interleave host (turns ++ turns') reached =
      interleave host turns' (interleave host turns reached) :=
  List.foldl_append

/-- What makes the requests of programs in turns runs as they do with some turns. -/
theorem Interleaves.run {programs : List (Program Handle Cache α)}
    {whole : Program Handle Cache (List α)} (h : Interleaves programs whole)
    (host : Host Handle Cache σ) (state : σ) :
    ∃ turns, interleave host turns (programs, state) =
      ((whole.run host state).1.map Program.done, (whole.run host state).2) := by
  induction h generalizing state with
  | done results => exact ⟨[], rfl⟩
  | @ask programs i request next rest hi _ ih =>
    obtain ⟨turns, hturns⟩ := ih (host.answer request state).1 (host.answer request state).2
    refine ⟨i :: turns, ?_⟩
    rw [run_ask, ← hturns]
    change interleave host turns (advance host i (programs, state)) = _
    rw [advance_ask hi]

theorem run_inOrder (host : Host Handle Cache σ) (programs : List (Program Handle Cache α))
    (state : σ) : (inOrder programs).run host state = runEach host programs state := by
  induction programs generalizing state with
  | nil => rfl
  | cons p rest ih =>
    rw [inOrder, bind_eq, run_bind, bind_eq, run_bind, ih]
    rfl

theorem interleave_runEach (host : Host Handle Cache σ) (programs : List (Program Handle Cache α))
    (state : σ) :
    ∃ turns, interleave host turns (programs, state) =
      ((runEach host programs state).1.map done, (runEach host programs state).2) := by
  rw [← run_inOrder]
  exact (interleaves_inOrder programs).run host state

end Turns

/-- Each of so many threads has its turn again and again. -/
def Fair (turns : Nat → Nat) (count : Nat) : Prop :=
  ∀ i < count, ∀ n, ∃ m, n ≤ m ∧ turns m = i

/-- What is reached after the first `n` of endless turns. -/
def after (host : Host Handle Cache σ) (turns : Nat → Nat)
    (start : List (Program Handle Cache α) × σ) (n : Nat) : List (Program Handle Cache α) × σ :=
  interleave host ((List.range n).map turns) start

section Fairness

variable {host : Host Handle Cache σ} {turns : Nat → Nat} {i : Nat}
  {start : List (Program Handle Cache α) × σ}

theorem after_succ (n : Nat) :
    after host turns start (n + 1) = advance host (turns n) (after host turns start n) := by
  rw [after, List.range_succ, List.map_append, interleave_append]
  rfl

theorem stays_done {a : α} {n m : Nat} (hle : n ≤ m)
    (h : (after host turns start n).1[i]? = some (done a)) :
    (after host turns start m).1[i]? = some (done a) := by
  induction hle with
  | refl => exact h
  | @step m _ ih =>
    rw [after_succ]
    by_cases hturn : i = turns m
    · subst hturn
      rw [advance_done ih]
      exact ih
    · rw [getElem?_advance_of_ne hturn]
      exact ih

theorem after_turn {request : Request Handle Cache} {next : Reply request → Program Handle Cache α}
    {n : Nat} (hturn : turns n = i)
    (h : (after host turns start n).1[i]? = some (ask request next)) :
    ∃ reply, (after host turns start (n + 1)).1[i]? = some (next reply) := by
  subst hturn
  rw [after_succ]
  exact ⟨_, getElem?_advance_self h⟩

theorem reaches_next {request : Request Handle Cache} {next : Reply request → Program Handle Cache α}
    (wait n : Nat) (hturn : turns (n + wait) = i)
    (h : (after host turns start n).1[i]? = some (ask request next)) :
    ∃ m reply, (after host turns start m).1[i]? = some (next reply) := by
  induction wait generalizing n with
  | zero => exact ⟨n + 1, after_turn hturn h⟩
  | succ wait ih =>
    by_cases hnow : turns n = i
    · exact ⟨n + 1, after_turn hnow h⟩
    · refine ih (n + 1) (by rw [← hturn]; congr 1; omega) ?_
      rw [after_succ, getElem?_advance_of_ne (Ne.symm hnow)]
      exact h

theorem eventually_done (again : ∀ n, ∃ m, n ≤ m ∧ turns m = i) {p : Program Handle Cache α}
    {n : Nat} (h : (after host turns start n).1[i]? = some p) :
    ∃ m a, (after host turns start m).1[i]? = some (done a) := by
  -- Whatever the replies are, what is left of the program gets smaller with each turn of its own.
  induction p generalizing n with
  | done a => exact ⟨n, a, h⟩
  | ask request next ih =>
    obtain ⟨m, hle, hturn⟩ := again n
    obtain ⟨k, reply, hnext⟩ :=
      reaches_next (m - n) n (by rw [← hturn]; congr 1; omega) h
    exact ih reply hnext

theorem first_done (host : Host Handle Cache σ) (fair : Fair turns start.1.length) (count : Nat)
    (hle : count ≤ start.1.length) :
    ∃ n, ∀ i < count, ∃ a, (after host turns start n).1[i]? = some (done a) := by
  induction count with
  | zero => exact ⟨0, fun i hi => absurd hi (Nat.not_lt_zero i)⟩
  | succ count ih =>
    obtain ⟨n, hn⟩ := ih (by omega)
    obtain ⟨p, hp⟩ : ∃ p, (after host turns start n).1[count]? = some p := by
      refine ⟨_, List.getElem?_eq_getElem ?_⟩
      rw [after, length_interleave]
      omega
    obtain ⟨m, a, hm⟩ := eventually_done (fair count (by omega)) hp
    refine ⟨max n m, fun i hi => ?_⟩
    by_cases heq : i = count
    · subst heq
      exact ⟨a, stays_done (Nat.le_max_right n m) hm⟩
    · obtain ⟨a, hi⟩ := hn i (by omega)
      exact ⟨a, stays_done (Nat.le_max_left n m) hi⟩

/-- Where every thread has its turn again and again, all of them come to their end. -/
theorem all_done (host : Host Handle Cache σ) (start : List (Program Handle Cache α) × σ)
    (fair : Fair turns start.1.length) :
    ∃ n outcomes, (after host turns start n).1 = List.map done outcomes := by
  obtain ⟨n, hn⟩ := first_done host fair start.1.length (Nat.le_refl _)
  have hdone : ∀ p ∈ (after host turns start n).1, ∃ a, done a = p := by
    intro p hp
    obtain ⟨i, hi⟩ := List.mem_iff_getElem?.mp hp
    have hlt := (List.getElem?_eq_some_iff.mp hi).1
    rw [after, length_interleave] at hlt
    obtain ⟨a, ha⟩ := hn i hlt
    exact ⟨a, Option.some.inj (ha.symm.trans hi)⟩
  obtain ⟨outcomes, houtcomes⟩ : (after host turns start n).1 ∈ Set.range (List.map done) := by
    rw [Set.range_list_map]
    exact hdone
  exact ⟨n, outcomes, houtcomes.symm⟩

end Fairness

end Program

end FlatVolume
