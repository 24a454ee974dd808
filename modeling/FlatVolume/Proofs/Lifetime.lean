import FlatVolume.Proofs.Opening
import FlatVolume.Proofs.Usage

/-!
# From opening to the end

Whatever is done with a volume, what it has opened stays open until it is closed or given up.
Each file is then closed once, in order and whatever the closes before it report, and after the
files the cache that was attached last. A cache that another has taken the place of is left to
whoever attached it.
-/

namespace FlatVolume.Volume

variable {Handle Cache σ : Type} {host : Host Handle Cache σ} {m : Manifest}
  {v : Volume Handle Cache} {state opened : σ}

/-- The files of a volume are those that its opening has asked for, in order. -/
theorem handles_of_opened
    (h : (ofManifest m : Program Handle Cache _).run host state = (.ok v, opened)) :
    v.cache = none ∧
      host.openEach m.files state = (v.layout.extents.map Extent.handle).map .ok ∧
      ((ofManifest m : Program Handle Cache _).calls host state).map Exchange.request =
        m.files.map DeclaredFile.opening := by
  obtain ⟨outcome, hends, hrun⟩ := ofManifest_ends host m state
  rw [h] at hrun
  generalize hrequests : ((ofManifest m : Program Handle Cache _).calls host state).map
    Exchange.request = requests at hends
  cases hends with
  | @opened handles layout hreplies hextents htotal =>
    obtain rfl := Except.ok.inj hrun
    have hlength : handles.length = m.files.length := by
      rw [← host.length_openEach m.files state, hreplies, List.length_map]
    refine ⟨rfl, ?_, rfl⟩
    rw [hextents, hreplies]
    exact congrArg _ (Manifest.map_handle_placed 0 hlength).symm
  | tooLarge => cases hrun
  | refused => cases hrun
  | faulted => cases hrun

theorem opening_closes_nothing
    (h : (ofManifest m : Program Handle Cache _).run host state = (.ok v, opened))
    {x : Exchange Handle Cache} (hx : x ∈ (ofManifest m : Program Handle Cache _).exchanges host state) :
    x.request.kind ≠ .closing := by
  obtain ⟨-, -, hrequests⟩ := handles_of_opened h
  by_cases hlogging : x.request.kind = .logging
  · rw [hlogging]
    exact nofun
  · have hcall : x ∈ (ofManifest m : Program Handle Cache _).calls host state :=
      List.mem_filter.mpr ⟨hx, decide_eq_true hlogging⟩
    have hmem := List.mem_map_of_mem (f := Exchange.request) hcall
    rw [hrequests] at hmem
    obtain ⟨file, -, hfile⟩ := List.mem_map.mp hmem
    rw [← hfile]
    exact nofun

/-- No use closes anything. The end closes every file that was opened and then the cache that
was attached last, each of them once; the failure that comes first is what `close` reports. What
its teardown leaves is given up without a further call. -/
theorem closes_exactly_once
    (h : (ofManifest m : Program Handle Cache _).run host state = (.ok v, opened))
    (patience : Nat) (uses : List (Use Handle Cache)) :
    let used := (Use.performAll patience uses v).run host opened
    ∃ handles : List Handle, host.openEach m.files state = handles.map .ok ∧
      (∀ x ∈ (ofManifest m : Program Handle Cache _).exchanges host state ++
        (Use.performAll patience uses v).exchanges host opened, x.request.kind ≠ .closing) ∧
      let closings := handles.map .closeHandle ++
        (uses.filterMap Use.attached?).getLast?.toList.map .closeCache
      (used.1.close.calls host used.2).map Exchange.request = closings ∧
      (used.1.close.run host used.2).1 =
        Exchange.closeReport (used.1.close.calls host used.2) ∧
      (used.1.drop.calls host used.2).map Exchange.request = closings ∧
      let torn := used.1.teardown.run host used.2
      (used.1.teardown.calls host used.2).map Exchange.request = closings ∧
        torn.1.2.drop.calls host torn.2 = [] := by
  intro used
  obtain ⟨hcache, hhandles, -⟩ := handles_of_opened h
  refine ⟨_, hhandles, fun x hx => ?_, ?_⟩
  · rcases List.mem_append.mp hx with hx | hx
    · exact opening_closes_nothing h hx
    · intro hclosing
      have hkind := (Use.within_performAll uses patience v).kind_mem hx
      rw [hclosing] at hkind
      obtain ⟨use, -, huse⟩ := List.mem_flatMap.mp hkind
      exact use.closing_not_mem_kinds huse
  · intro closings
    have hvolume : used.1 = ⟨v.layout, (uses.filterMap Use.attached?).getLast?⟩ := by
      have hreached := Use.run_performAll host uses patience v opened
      rwa [hcache, Option.or_none] at hreached
    obtain ⟨hrequests, hreport⟩ := teardown_calls host used.1 used.2
    have hclosings : (used.1.teardown.calls host used.2).map Exchange.request = closings := by
      rw [hrequests, hvolume]
      exact congrArg (· ++ _) List.map_map.symm
    obtain ⟨hcalls, hresult⟩ := close_calls host used.1 used.2
    refine ⟨?_, ?_, ?_, hclosings, drop_calls_of_torn host used.1 used.2 _⟩
    · rw [hcalls, hclosings]
    · rw [hresult, hcalls, hreport]
    · rw [drop_calls, hclosings]

/-- Two files and three caches in turn, with a write that fails, a commit that faults, a batch of
reads, and closes that fail for the second file and for the last cache. -/
theorem closes_exactly_once_desk :
    let failure : IoError := ⟨.other, "stuck"⟩
    let desk : Desk := ⟨fun _ => none, fun n => if n = 1 then some failure else none,
      fun n => if n = 9 then some failure else none⟩
    let m : Manifest := .multi "ab" [⟨["a"], 3, none⟩, ⟨["b"], 2, none⟩]
    let v : Volume Nat Nat := ⟨⟨[⟨0, 3, 0⟩, ⟨3, 2, 1⟩], 5, ⟨rfl, rfl, rfl⟩, by decide⟩, none⟩
    let uses : List (Use Nat Nat) := [.attach 7, .write [1, 2] 1, .attach 8, .attach 9,
      .commit 0 [1, 2] 2, .readEach .oneByOne [⟨0, [0]⟩, ⟨4, [0]⟩], .readFiles [0, 0, 0] 1]
    let used := (Use.performAll 0 uses v).run desk.host 2
    (ofManifest m : Program Nat Nat _).run desk.host 0 = (.ok v, 2) ∧
      (used.1.close.run desk.host used.2).1 = .error (.closeFailed failure) ∧
      (used.1.close.calls desk.host used.2).map Exchange.request =
        [.closeHandle 0, .closeHandle 1, .closeCache 9] ∧
      (used.1.drop.calls desk.host used.2).map Exchange.request =
        [.closeHandle 0, .closeHandle 1, .closeCache 9] := by
  intro failure desk m v uses used
  have hopen : (ofManifest m : Program Nat Nat _).run desk.host 0 = (.ok v, 2) := rfl
  obtain ⟨handles, hhandles, -, hcloses, hreport, hdrops, -⟩ := closes_exactly_once hopen 0 uses
  obtain rfl : [0, 1] = handles :=
    (List.map_inj_right fun _ _ heq => Except.ok.inj heq).mp hhandles
  have hused : used.1 = ⟨v.layout, some 9⟩ := Use.run_performAll desk.host uses 0 v 2
  refine ⟨hopen, ?_, hcloses, hdrops⟩
  rw [hreport, hused]
  generalize used.2 = after
  rfl

end FlatVolume.Volume
