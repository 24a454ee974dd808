import FlatVolume.Proofs.Faultless
import FlatVolume.Proofs.Opening

/-!
# Volumes that are opened again

Reads and writes of a volume without a cache, with any number of times that it is closed or given
up and opened again in between. Over files that never fail, and that opening finds as they were
left, every such run answers as one array of bytes does.
-/

namespace FlatVolume

variable {Handle Cache File σ : Type}

/-- What is done with a volume. One that is closed or given up is opened again. -/
inductive Action where
  | readFiles (buffer : Bytes) (offset : Nat)
  | writeFiles (data : Bytes) (offset : Nat)
  | read (buffer : Bytes) (offset : Nat)
  | write (data : Bytes) (offset : Nat)
  | close
  | drop

inductive Answer where
  | reading (reading : Reading)
  | writing (outcome : Except (Failure VolumeError) Nat)
  | closing (outcome : Except VolumeError Unit)
  | dropping
  /-- The volume could not be opened again. -/
  | lost (failure : Failure VolumeError)

namespace Action

section Program

variable {Handle Cache : Type}

def reopen (manifest : Manifest) (answer : Answer) :
    Program Handle Cache (Answer × Volume Handle Cache) := do
  match ← Volume.ofManifest manifest with
  | .ok v => pure (answer, v)
  | .error failure => pure (.lost failure, ⟨.empty, none⟩)

def perform (manifest : Manifest) (patience : Nat) (v : Volume Handle Cache) :
    Action → Program Handle Cache (Answer × Volume Handle Cache)
  | readFiles buffer offset => do
    let reading ← v.readFiles patience buffer offset
    pure (.reading reading, v)
  | writeFiles data offset => do
    let outcome ← v.writeFiles patience data offset
    pure (.writing outcome, v)
  | read buffer offset => do
    let reading ← v.read patience buffer offset
    pure (.reading reading, v)
  | write data offset => do
    let outcome ← v.write patience data offset
    pure (.writing outcome, v)
  | close => do
    let outcome ← v.close
    reopen manifest (.closing outcome)
  | drop => do
    v.drop
    reopen manifest .dropping

def performAll (manifest : Manifest) (patience : Nat) :
    List Action → Volume Handle Cache → Program Handle Cache (List Answer × Volume Handle Cache)
  | [], v => pure ([], v)
  | action :: rest, v => do
    let (answer, v) ← action.perform manifest patience v
    let (answers, v) ← performAll manifest patience rest v
    pure (answer :: answers, v)

end Program

/-- The action as it is on an array with zeros behind its end. -/
def onArray (a : Bytes) : Action → Answer × Bytes
  | readFiles buffer offset | read buffer offset =>
    (.reading ⟨FlatArray.read a buffer.length offset, .ok buffer.length⟩, a)
  | writeFiles data offset | write data offset =>
    (.writing ((FlatArray.answer a.length data offset).mapError .error), a.overlay offset data)
  | close => (.closing (.ok ()), a)
  | drop => (.dropping, a)

def allOnArray : List Action → Bytes → List Answer × Bytes
  | [], a => ([], a)
  | action :: rest, a =>
    let (answer, a) := action.onArray a
    let (answers, a) := allOnArray rest a
    (answer :: answers, a)

end Action

/-- A host that closes files and takes log lines without a change. -/
structure Host.ClosesFreely (host : Host Handle Cache σ) : Prop where
  close : ∀ handle state, host.answer (.closeHandle handle) state = (.ok (), state)
  log : ∀ line state, host.answer (.log line) state = ((), state)

namespace Host.ClosesFreely

variable {host : Host Handle Cache σ} {v : Volume Handle Cache} {state : σ}

theorem run_closeFiles (free : host.ClosesFreely) (index : Nat) (extents : List (Extent Handle))
    (state : σ) : (Volume.closeFiles index extents).run host state = (none, state) := by
  induction extents generalizing index with
  | nil => rfl
  | cons e rest ih =>
    rw [Volume.closeFiles, Program.bind_eq, Program.run_request_bind, free.close]
    exact ih (index + 1)

theorem run_log (free : host.ClosesFreely) (line : LogLine) (state : σ) :
    (Program.log line : Program Handle Cache Unit).run host state = ((), state) :=
  free.log line state

theorem run_teardown (free : host.ClosesFreely) (uncached : v.cache = none) (state : σ) :
    ∃ left : Volume Handle Cache, left.cache = none ∧
      v.teardown.run host state = ((.ok (), left), state) := by
  refine ⟨⟨v.layout.drain.2, none⟩, rfl, ?_⟩
  simp only [Volume.teardown, Volume.closeAll, Volume.takeCache, Volume.closeCache, uncached,
    Program.bind_eq, Program.run_bind, free.run_closeFiles, free.run_log, Program.pure_eq,
    Program.run_done]

theorem run_drop (free : host.ClosesFreely) (uncached : v.cache = none) (state : σ) :
    v.drop.run host state = ((), state) := by
  obtain ⟨left, -, hrun⟩ := free.run_teardown uncached state
  rw [Volume.drop, Program.bind_eq, Program.run_bind, hrun]
  rfl

theorem run_close (free : host.ClosesFreely) (uncached : v.cache = none) (state : σ) :
    v.close.run host state = (.ok (), state) := by
  obtain ⟨left, hleft, hrun⟩ := free.run_teardown uncached state
  rw [Volume.close, Program.bind_eq, Program.run_bind, hrun]
  dsimp only
  rw [Program.bind_eq, Program.run_bind, free.run_drop hleft]
  rfl

end Host.ClosesFreely

namespace Backing

/-- In sound states a manifest opens always the same volume, over distinct files that never fail,
and opening changes no byte. -/
structure Reopens (b : Backing Handle File σ) (host : Host Handle Cache σ) (manifest : Manifest)
    (v : Volume Handle Cache) (sound : σ → Prop) : Prop where
  faultless : b.Faultless host v sound
  distinct : b.Distinct v
  uncached : v.cache = none
  free : host.ClosesFreely
  opens : ∀ state, sound state → ∃ opened, (Volume.ofManifest manifest).run host state =
    (.ok v, opened) ∧ sound opened ∧ b.Same state opened

/-- The files of a volume hold an array, and nothing else has changed since it was opened. -/
structure Agrees (b : Backing Handle File σ) (v : Volume Handle Cache) (sound : σ → Prop)
    (opened : σ) (a : Bytes) (state : σ) : Prop where
  flat_eq : b.flat v state = a
  sound : sound state
  outside : ∀ file i, b.Outside v file i → b.byte state file i = b.byte opened file i

variable {b : Backing Handle File σ} {host : Host Handle Cache σ} {manifest : Manifest}
  {v : Volume Handle Cache} {sound : σ → Prop} {opened state after : σ} {a : Bytes}

namespace Agrees

theorem start (h : sound opened) : b.Agrees v sound opened (b.flat v opened) opened :=
  ⟨rfl, h, fun _ _ _ => rfl⟩

theorem length_eq (h : b.Agrees v sound opened a state) : a.length = v.total := by
  rw [← h.flat_eq, length_flat]

theorem of_same (h : b.Agrees v sound opened a state) (hsound : sound after)
    (same : b.Same state after) : b.Agrees v sound opened a after where
  flat_eq := by rw [flat_congr v same, h.flat_eq]
  sound := hsound
  outside file i hout := by rw [same file i, h.outside file i hout]

theorem of_overlaid (h : b.Agrees v sound opened a state) {offset : Nat} {data : Bytes}
    (hsound : sound after) (laid : b.Overlaid v state after offset data) :
    b.Agrees v sound opened (a.overlay offset data) after where
  flat_eq := by rw [laid.flat_eq, h.flat_eq]
  sound := hsound
  outside file i hout := by rw [laid.outside file i hout, h.outside file i hout]

theorem readFiles (h : b.Agrees v sound opened a state) (reopens : b.Reopens host manifest v sound)
    (patience : Nat) (buffer : Bytes) (offset : Nat) :
    ∃ after, (v.readFiles patience buffer offset).run host state =
        (⟨FlatArray.read a buffer.length offset, .ok buffer.length⟩, after) ∧
      b.Agrees v sound opened a after := by
  obtain ⟨after, hrun, hsound, hsame⟩ :=
    reopens.faultless.run_readFiles patience buffer offset h.sound
  rw [h.flat_eq] at hrun
  exact ⟨after, hrun, h.of_same hsound hsame⟩

theorem writeFiles (h : b.Agrees v sound opened a state) (reopens : b.Reopens host manifest v sound)
    (patience : Nat) (data : Bytes) (offset : Nat) :
    ∃ after, (v.writeFiles patience data offset).run host state =
        ((FlatArray.answer a.length data offset).mapError .error, after) ∧
      b.Agrees v sound opened (a.overlay offset data) after := by
  obtain ⟨after, hrun, hsound, hlaid⟩ :=
    reopens.faultless.run_writeFiles reopens.distinct patience data offset h.sound
  rw [← h.length_eq] at hrun
  exact ⟨after, hrun, h.of_overlaid hsound hlaid⟩

theorem reopen (h : b.Agrees v sound opened a state) (reopens : b.Reopens host manifest v sound)
    (answer : Answer) :
    ∃ after, (Action.reopen manifest answer).run host state = ((answer, v), after) ∧
      b.Agrees v sound opened a after := by
  obtain ⟨after, hrun, hsound, hsame⟩ := reopens.opens state h.sound
  refine ⟨after, ?_, h.of_same hsound hsame⟩
  rw [Action.reopen, Program.bind_eq, Program.run_bind, hrun]
  rfl

theorem perform (h : b.Agrees v sound opened a state) (reopens : b.Reopens host manifest v sound)
    (patience : Nat) (action : Action) :
    ∃ after, (action.perform manifest patience v).run host state =
        (((action.onArray a).1, v), after) ∧
      b.Agrees v sound opened (action.onArray a).2 after := by
  cases action with
  | readFiles buffer offset =>
    obtain ⟨after, hrun, hagrees⟩ := h.readFiles reopens patience buffer offset
    refine ⟨after, ?_, hagrees⟩
    rw [Action.perform, Program.bind_eq, Program.run_bind, hrun]
    rfl
  | writeFiles data offset =>
    obtain ⟨after, hrun, hagrees⟩ := h.writeFiles reopens patience data offset
    refine ⟨after, ?_, hagrees⟩
    rw [Action.perform, Program.bind_eq, Program.run_bind, hrun]
    rfl
  | read buffer offset =>
    obtain ⟨after, hrun, hagrees⟩ := h.readFiles reopens patience buffer offset
    refine ⟨after, ?_, hagrees⟩
    rw [Action.perform, Volume.read, reopens.uncached, Program.bind_eq, Program.run_bind, hrun]
    rfl
  | write data offset =>
    obtain ⟨after, hrun, hagrees⟩ := h.writeFiles reopens patience data offset
    refine ⟨after, ?_, hagrees⟩
    rw [Action.perform, Volume.write, reopens.uncached, Program.bind_eq, Program.run_bind, hrun]
    rfl
  | close =>
    obtain ⟨after, hrun, hagrees⟩ := h.reopen reopens (.closing (.ok ()))
    refine ⟨after, ?_, hagrees⟩
    rw [Action.perform, Program.bind_eq, Program.run_bind, reopens.free.run_close reopens.uncached]
    exact hrun
  | drop =>
    obtain ⟨after, hrun, hagrees⟩ := h.reopen reopens .dropping
    refine ⟨after, ?_, hagrees⟩
    rw [Action.perform, Program.bind_eq, Program.run_bind, reopens.free.run_drop reopens.uncached]
    exact hrun

/-- Every run of actions answers as it does on the array, and leaves the array that it does. -/
theorem performAll (h : b.Agrees v sound opened a state)
    (reopens : b.Reopens host manifest v sound) (patience : Nat) (actions : List Action) :
    ∃ after, (Action.performAll manifest patience actions v).run host state =
        (((Action.allOnArray actions a).1, v), after) ∧
      b.Agrees v sound opened (Action.allOnArray actions a).2 after := by
  induction actions generalizing a state with
  | nil => exact ⟨state, rfl, h⟩
  | cons action rest ih =>
    obtain ⟨middle, hfirst, hmiddle⟩ := h.perform reopens patience action
    obtain ⟨last, hrest, hlast⟩ := ih hmiddle
    refine ⟨last, ?_, hlast⟩
    rw [Action.performAll, Program.bind_eq, Program.run_bind, hfirst]
    dsimp only
    rw [Program.bind_eq, Program.run_bind, hrest]
    rfl

end Agrees

end Backing

end FlatVolume
