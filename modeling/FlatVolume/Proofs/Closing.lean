import FlatVolume.Proofs.Requests

/-!
# What a teardown closes

A teardown asks for one close after the other: every file in order, then the cache, whatever
has failed before. What it reports is the first failure.
-/

namespace FlatVolume

variable {Handle Cache σ : Type}

def Extent.closing (e : Extent Handle) : Request Handle Cache :=
  .closeHandle e.handle

/-- The failure that a close reports, as a volume passes it on. -/
def Exchange.closeError? : Exchange Handle Cache → Option VolumeError
  | ⟨.closeHandle _, reply⟩ =>
    match (reply : Except IoError Unit) with
    | .ok () => none
    | .error e => some (.closeFailed e)
  | ⟨.closeCache _, reply⟩ =>
    match (reply : Except IoError Unit) with
    | .ok () => none
    | .error e => some (.cacheCloseFailed e)
  | _ => none

/-- What a teardown has to report after these exchanges: the first failure, if there is one. -/
def Exchange.closeReport (exchanges : List (Exchange Handle Cache)) : Except VolumeError Unit :=
  match exchanges.findSome? closeError? with
  | some e => .error e
  | none => .ok ()

namespace Volume

theorem closeFiles_calls (host : Host Handle Cache σ) (index : Nat) (extents : List (Extent Handle))
    (state : σ) :
    ((closeFiles index extents).calls host state).map Exchange.request =
        extents.map Extent.closing ∧
      ((closeFiles index extents).calls host state).findSome? Exchange.closeError? =
        ((closeFiles index extents).run host state).1.map VolumeError.closeFailed := by
  induction extents generalizing index state with
  | nil => exact ⟨rfl, rfl⟩
  | cons e rest ih =>
    rw [closeFiles, Program.bind_eq, Program.calls_request_bind host (by simp [Request.kind]),
      Program.run_request_bind, List.map_cons, List.map_cons, List.findSome?_cons]
    generalize host.answer (.closeHandle e.handle) state = last
    obtain ⟨reply, after⟩ := last
    cases reply with
    | ok =>
      obtain ⟨hrequests, hfound⟩ := ih (index + 1) after
      exact ⟨congrArg (List.cons e.closing) hrequests, hfound⟩
    | error failure =>
      obtain ⟨hrequests, -⟩ :=
        ih (index + 1) (host.answer (.log (.fileCloseFailed index failure)) after).2
      simp only [Program.bind_eq, Program.calls_bind, Program.run_bind, Program.pure_eq,
        Program.calls_done, Program.run_done, List.append_nil]
      exact ⟨congrArg (List.cons e.closing) hrequests, rfl⟩

theorem closeCache_calls (host : Host Handle Cache σ) (cache : Option Cache) (state : σ) :
    ((closeCache cache).calls host state).map Exchange.request =
        cache.toList.map .closeCache ∧
      ((closeCache cache).calls host state).findSome? Exchange.closeError? =
        ((closeCache cache : Program Handle Cache _).run host state).1.map
          VolumeError.cacheCloseFailed := by
  cases cache with
  | none => exact ⟨rfl, rfl⟩
  | some cache =>
    rw [closeCache, Program.bind_eq, Program.calls_request_bind host (by simp [Request.kind]),
      Program.run_request_bind]
    generalize host.answer (.closeCache cache) state = last
    obtain ⟨reply, after⟩ := last
    cases reply with
    | ok => exact ⟨rfl, rfl⟩
    | error failure => exact ⟨rfl, rfl⟩

theorem teardown_calls (host : Host Handle Cache σ) (v : Volume Handle Cache) (state : σ) :
    (v.teardown.calls host state).map Exchange.request =
        v.layout.extents.map Extent.closing ++ v.cache.toList.map .closeCache ∧
      (v.teardown.run host state).1.1 = Exchange.closeReport (v.teardown.calls host state) := by
  obtain ⟨hfiles, hfile⟩ := closeFiles_calls host 0 v.layout.extents state
  obtain ⟨hcaches, hcache⟩ :=
    closeCache_calls host v.cache ((closeFiles 0 v.layout.extents).run host state).2
  simp only [teardown, closeAll, Layout.drain, takeCache, Program.bind_eq, Program.calls_bind,
    Program.run_bind, Program.pure_eq, Program.calls_done, Program.run_done, List.append_nil,
    Exchange.closeReport, List.map_append, List.findSome?_append, hfiles, hcaches, hfile, hcache]
  generalize ((closeFiles 0 v.layout.extents).run host state) = files
  obtain ⟨file, middle⟩ := files
  generalize ((closeCache v.cache).run host middle) = caches
  obtain ⟨cache, after⟩ := caches
  cases file with
  | some failure => exact ⟨congrArg _ (List.append_nil _), rfl⟩
  | none =>
    cases cache with
    | some failure => exact ⟨congrArg _ (List.append_nil _), rfl⟩
    | none => exact ⟨congrArg _ (List.append_nil _), rfl⟩

/-- A teardown leaves nothing that is still to be closed, whatever has failed. -/
theorem teardown_leaves (host : Host Handle Cache σ) (v : Volume Handle Cache) (state : σ) :
    (v.teardown.run host state).1.2.layout.extents = [] ∧
      (v.teardown.run host state).1.2.cache = none := by
  simp only [teardown, closeAll, takeCache, Program.bind_eq, Program.run_bind, Program.pure_eq,
    Program.run_done]
  split <;> exact ⟨rfl, rfl⟩

theorem drop_calls (host : Host Handle Cache σ) (v : Volume Handle Cache) (state : σ) :
    v.drop.calls host state = v.teardown.calls host state := by
  rw [drop, Program.bind_eq, Program.calls_bind]
  exact List.append_nil _

/-- Giving up what a teardown has left asks for nothing more. -/
theorem drop_calls_of_torn (host : Host Handle Cache σ) (v : Volume Handle Cache) (state after : σ) :
    (v.teardown.run host state).1.2.drop.calls host after = [] := by
  obtain ⟨hextents, hcache⟩ := teardown_leaves host v state
  obtain ⟨hrequests, -⟩ := teardown_calls host (v.teardown.run host state).1.2 after
  rw [hextents, hcache] at hrequests
  rw [drop_calls]
  exact List.map_eq_nil_iff.mp hrequests

theorem close_calls (host : Host Handle Cache σ) (v : Volume Handle Cache) (state : σ) :
    v.close.calls host state = v.teardown.calls host state ∧
      (v.close.run host state).1 = (v.teardown.run host state).1.1 := by
  rw [close, Program.bind_eq, Program.calls_bind, Program.run_bind]
  refine ⟨?_, ?_⟩
  · dsimp only
    rw [Program.bind_eq, Program.calls_bind, drop_calls_of_torn, List.nil_append]
    exact List.append_nil _
  · dsimp only
    rw [Program.bind_eq, Program.run_bind]
    rfl

end Volume

end FlatVolume
