import FlatVolume.Proofs.Interleaving

/-!
# Contracts between programs that take turns

What a program relies on while others have their turns, what it guarantees in its own, and how
it ends. To know that it keeps its contract it is enough to run it alone on hosts on which the
state changes by itself before each request, as far as the program relies on.
-/

namespace FlatVolume

variable {Handle Cache σ α : Type}

structure Contract (α σ : Type) where
  /-- What others may do to the state between two requests. -/
  relies : σ → σ → Prop
  /-- What each request may do to the state. -/
  guarantees : σ → σ → Prop
  /-- What holds of the result, from then on. -/
  ends : α → σ → Prop

namespace Contract

/-- To do nothing is allowed to others, and several changes in a row are allowed as one. -/
structure Coherent (c : Contract α σ) : Prop where
  refl : ∀ state, c.relies state state
  trans : ∀ {s s' s''}, c.relies s s' → c.relies s' s'' → c.relies s s''

/-- What each of two different programs guarantees the other can rely on. -/
def Compatible (contracts : List (Contract α σ)) : Prop :=
  ∀ (i j : Nat) (c d : Contract α σ), i ≠ j → contracts[i]? = some c → contracts[j]? = some d →
    ∀ s s', d.guarantees s s' → c.relies s s'

end Contract

namespace Program

/-- However the state changes between the requests, as far as the contract relies on, every
request keeps its guarantee and the end is as it says. -/
def Meets (host : Host Handle Cache σ) (c : Contract α σ) : Program Handle Cache α → σ → Prop
  | done a, state => ∀ state', c.relies state state' → c.ends a state'
  | ask request next, state => ∀ state', c.relies state state' →
    c.guarantees state' (host.answer request state').2 ∧
      (next (host.answer request state').1).Meets host c (host.answer request state').2

section Composition

variable {host : Host Handle Cache σ} {contracts : List (Contract α σ)}
  {reached : List (Program Handle Cache α) × σ}

theorem Meets.relied {c : Contract α σ} (coherent : c.Coherent) {p : Program Handle Cache α}
    {s s' : σ} (h : p.Meets host c s) (hrelies : c.relies s s') : p.Meets host c s' := by
  cases p with
  | done a => exact fun s'' h'' => h s'' (coherent.trans hrelies h'')
  | ask request next => exact fun s'' h'' => h s'' (coherent.trans hrelies h'')

def AllMeet (host : Host Handle Cache σ) (contracts : List (Contract α σ))
    (reached : List (Program Handle Cache α) × σ) : Prop :=
  reached.1.length = contracts.length ∧
    ∀ (i : Nat) (c : Contract α σ) (p : Program Handle Cache α),
      contracts[i]? = some c → reached.1[i]? = some p → p.Meets host c reached.2

theorem AllMeet.guaranteed (coherent : ∀ c ∈ contracts, c.Coherent)
    (h : AllMeet host contracts reached) (j : Nat) :
    (advance host j reached).2 = reached.2 ∨
      ∃ d, contracts[j]? = some d ∧ d.guarantees reached.2 (advance host j reached).2 := by
  rcases hj : reached.1[j]? with _ | (a | ⟨request, next⟩)
  · exact .inl (by rw [advance_none hj])
  · exact .inl (by rw [advance_done hj])
  · have hlt := (List.getElem?_eq_some_iff.mp hj).1
    rw [h.1] at hlt
    have hd : contracts[j]? = some contracts[j] := List.getElem?_eq_getElem hlt
    have hcoherent := coherent _ (List.mem_of_getElem? hd)
    obtain ⟨hguarantees, -⟩ := h.2 j _ _ hd hj reached.2 (hcoherent.refl _)
    refine .inr ⟨_, hd, ?_⟩
    rw [advance_ask hj]
    exact hguarantees

theorem AllMeet.advance (coherent : ∀ c ∈ contracts, c.Coherent)
    (compatible : Contract.Compatible contracts) (h : AllMeet host contracts reached) (j : Nat) :
    AllMeet host contracts (advance host j reached) := by
  refine ⟨by rw [length_advance, h.1], fun i c p hc hp => ?_⟩
  have hcoherent := coherent c (List.mem_of_getElem? hc)
  by_cases hij : i = j
  · subst hij
    rcases hi : reached.1[i]? with _ | (a | ⟨request, next⟩)
    · rw [advance_none hi] at hp
      cases hi.symm.trans hp
    · rw [advance_done hi] at hp ⊢
      exact h.2 i c p hc hp
    · rw [getElem?_advance_self hi] at hp
      obtain rfl := Option.some.inj hp
      obtain ⟨-, hnext⟩ := h.2 i c _ hc hi reached.2 (hcoherent.refl _)
      rw [advance_ask hi]
      exact hnext
  -- In the turn of another thread the state changes as that one guarantees.
  · rw [getElem?_advance_of_ne hij] at hp
    refine (h.2 i c p hc hp).relied hcoherent ?_
    rcases h.guaranteed coherent j with hsame | ⟨d, hd, hguarantees⟩
    · rw [hsame]
      exact hcoherent.refl _
    · exact compatible i j c d hij hc hd _ _ hguarantees

theorem AllMeet.interleave (coherent : ∀ c ∈ contracts, c.Coherent)
    (compatible : Contract.Compatible contracts) (h : AllMeet host contracts reached)
    (turns : List Nat) : AllMeet host contracts (interleave host turns reached) := by
  induction turns generalizing reached with
  | nil => exact h
  | cons j rest ih => exact ih (h.advance coherent compatible j)

/-- What every guarantee keeps, all the turns together keep. -/
theorem AllMeet.kept (coherent : ∀ c ∈ contracts, c.Coherent)
    (compatible : Contract.Compatible contracts) (h : AllMeet host contracts reached)
    {keeps : σ → σ → Prop} (refl : ∀ s, keeps s s)
    (trans : ∀ {s s' s''}, keeps s s' → keeps s' s'' → keeps s s'')
    (hkeeps : ∀ d ∈ contracts, ∀ s s', d.guarantees s s' → keeps s s') (turns : List Nat) :
    keeps reached.2 (Program.interleave host turns reached).2 := by
  induction turns generalizing reached with
  | nil => exact refl _
  | cons j rest ih =>
    refine trans ?_ (ih (h.advance coherent compatible j))
    rcases h.guaranteed coherent j with hsame | ⟨d, hd, hguarantees⟩
    · rw [hsame]
      exact refl _
    · exact hkeeps d (List.mem_of_getElem? hd) _ _ hguarantees

theorem AllMeet.ends (coherent : ∀ c ∈ contracts, c.Coherent) (h : AllMeet host contracts reached)
    {i : Nat} {c : Contract α σ} {a : α} (hc : contracts[i]? = some c)
    (hi : reached.1[i]? = some (done a)) : c.ends a reached.2 :=
  h.2 i c _ hc hi reached.2 ((coherent c (List.mem_of_getElem? hc)).refl _)

end Composition

end Program

/-- The state changes by itself before each request. -/
def Host.among (host : Host Handle Cache σ) (change : Nat → σ → σ) :
    Host Handle Cache (Nat × σ) where
  answer request state :=
    let (reply, after) := host.answer request (change state.1 state.2)
    (reply, (state.1 + 1, after))

open Classical in
/-- First the one change, then those that follow. -/
noncomputable def Contract.first (s s' : σ) (change : Nat → σ → σ) : Nat → σ → σ
  | 0, state => if state = s then s' else state
  | n + 1, state => change n state

namespace Program

variable {host : Host Handle Cache σ}

theorem run_among_succ (host : Host Handle Cache σ) (change : Nat → σ → σ)
    (p : Program Handle Cache α) (n : Nat) (state : σ) :
    p.run (host.among change) (n + 1, state) =
      let last := p.run (host.among fun n => change (n + 1)) (n, state)
      (last.1, (last.2.1 + 1, last.2.2)) := by
  induction p generalizing n state with
  | done a => rfl
  | ask request next ih => exact ih _ (n + 1) _

theorem exchanges_among_succ (host : Host Handle Cache σ) (change : Nat → σ → σ)
    (p : Program Handle Cache α) (n : Nat) (state : σ) :
    p.exchanges (host.among change) (n + 1, state) =
      p.exchanges (host.among fun n => change (n + 1)) (n, state) := by
  induction p generalizing n state with
  | done a => rfl
  | ask request next ih => exact congrArg (List.cons _) (ih _ (n + 1) _)

/-- A program keeps a contract if it does so wherever the changes between its requests are laid
down beforehand. -/
theorem meets_of_runs {c : Contract α σ} (coherent : c.Coherent)
    {asks : Request Handle Cache → Prop}
    (hasks : ∀ request state, asks request → c.guarantees state (host.answer request state).2)
    {p : Program Handle Cache α} {state : σ}
    (h : ∀ change : Nat → σ → σ, (∀ n state, c.relies state (change n state)) →
      (∀ x ∈ p.exchanges (host.among change) (0, state), asks x.request) ∧
        let last := p.run (host.among change) (0, state)
        c.ends last.1 (change last.2.1 last.2.2)) :
    p.Meets host c state := by
  -- A change before the first request and changes before the later ones make one sequence of
  -- changes laid down beforehand, so the hypothesis passes from a program to what is left of it.
  have hfirst : ∀ {s s' : σ} {change : Nat → σ → σ}, c.relies s s' →
      (∀ n state, c.relies state (change n state)) →
      ∀ n state, c.relies state (Contract.first s s' change n state) := by
    intro s s' change hrelies hchange n state
    cases n with
    | zero =>
      rw [Contract.first]
      split
      · rename_i heq
        rw [heq]
        exact hrelies
      · exact coherent.refl _
    | succ n => exact hchange n state
  induction p generalizing state with
  | done a =>
    intro state' hrelies
    obtain ⟨-, hends⟩ := h _ (hfirst hrelies fun _ state => coherent.refl state)
    simpa [Contract.first] using hends
  | ask request next ih =>
    intro state' hrelies
    have hanswer : ∀ change, (host.among (Contract.first state state' change)).answer request
        (0, state) = ((host.answer request state').1, (1, (host.answer request state').2)) := by
      intro change
      simp [Host.among, Contract.first]
    constructor
    · obtain ⟨hrequests, -⟩ := h _ (hfirst hrelies fun _ state => coherent.refl state)
      exact hasks request state' (hrequests _ List.mem_cons_self)
    · refine ih _ fun change hchange => ?_
      obtain ⟨hrequests, hends⟩ := h _ (hfirst hrelies hchange)
      rw [exchanges, hanswer] at hrequests
      rw [run_ask, hanswer] at hends
      have hrun := run_among_succ host (Contract.first state state' change)
        (next (host.answer request state').1) 0 (host.answer request state').2
      have hexchanges := exchanges_among_succ host (Contract.first state state' change)
        (next (host.answer request state').1) 0 (host.answer request state').2
      rw [Nat.zero_add] at hrun hexchanges
      constructor
      · intro x hx
        refine hrequests x (List.mem_cons_of_mem _ ?_)
        rw [hexchanges]
        exact hx
      · dsimp only at hends
        rw [hrun] at hends
        exact hends

end Program

end FlatVolume
