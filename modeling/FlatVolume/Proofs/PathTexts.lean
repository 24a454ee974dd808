import FlatVolume.Path.Steps

/-!
# Texts of declared paths

A declared path under a root becomes a text. The names in that text are those of the root and
behind them the components of the path, and it ends in the last of them.
-/

namespace FlatVolume.Path

theorem isStep_component {c : String} (h : isComponent c = true) : isStep c = true := by
  simp only [isComponent, isStep, Bool.and_eq_true] at h ⊢
  exact ⟨h.1.1.1, h.1.1.2⟩

theorem ne_parent {c : String} (h : isComponent c = true) : c ≠ ".." := by
  simp only [isComponent, Bool.and_eq_true, decide_eq_true_eq] at h
  exact h.1.2

theorem split_append_slash (front rest : String) :
    split (front ++ "/" ++ rest) = split front ++ split rest := by
  have hchars : (front ++ "/" ++ rest).toList = front.toList ++ '/' :: rest.toList := by
    simp [String.toList_append]
  rw [split, hchars, List.splitOn, List.splitOnP_append_cons _ _ (by simp), List.map_append]
  rfl

theorem split_component {c : String} (h : isComponent c = true) : split c = [c] := by
  rw [split, List.splitOn_eq_singleton (slash_not_mem h)]
  simp

/-- The parts of a text that lead somewhere. -/
def names (text : String) : List String :=
  (steps text).map Step.name

theorem names_eq (text : String) : names text = (split text).filter isStep :=
  map_name_steps text

/-- A component that is joined to a text is its last part, and the parts before it lead where the
text does. -/
theorem split_join (base : String) {c : String} (h : isComponent c = true) :
    ∃ front, split (join base c) = front ++ [c] ∧ front.filter isStep = names base := by
  have hhead : c.toList.head? ≠ some '/' := fun heq =>
    slash_not_mem h (List.mem_of_head? heq)
  rw [join, if_neg hhead, names_eq]
  by_cases hempty : base = ""
  · subst hempty
    refine ⟨[], ?_, rfl⟩
    rw [if_pos (.inl rfl), String.empty_append, split_component h, List.nil_append]
  by_cases hlast : base.toList.getLast? = some '/'
  · obtain ⟨chars, hchars⟩ := List.getLast?_eq_some_iff.mp hlast
    have hbase : base = String.ofList chars ++ "/" := by
      apply String.toList_inj.mp
      rw [hchars]
      simp
    have hsplit : split base = split (String.ofList chars) ++ [""] := by
      have hcut := split_append_slash (String.ofList chars) ""
      rw [String.append_empty] at hcut
      rw [hbase]
      exact hcut
    refine ⟨split (String.ofList chars), ?_, ?_⟩
    · rw [if_pos (.inr hlast), hbase, split_append_slash, split_component h]
    · rw [hsplit, List.filter_append]
      simp [isStep]
  · refine ⟨split base, ?_, rfl⟩
    rw [if_neg (not_or.mpr ⟨hempty, hlast⟩), split_append_slash, split_component h]

theorem names_join (base : String) {c : String} (h : isComponent c = true) :
    names (join base c) = names base ++ [c] := by
  obtain ⟨front, hsplit, hfront⟩ := split_join base h
  rw [names_eq, hsplit, List.filter_append, hfront]
  simp [isStep_component h]

theorem endsInStep_join (base : String) {c : String} (h : isComponent c = true) :
    endsInStep (join base c) = true := by
  obtain ⟨front, hsplit, -⟩ := split_join base h
  rw [endsInStep, hsplit, List.getLast?_append]
  exact isStep_component h

theorem names_foldl_join (root : String) {path : List String} (h : ∀ c ∈ path, isComponent c = true) :
    names (path.foldl join root) = names root ++ path := by
  induction path generalizing root with
  | nil => simp
  | cons c rest ih =>
    rw [List.foldl_cons, ih _ fun c' hc' => h c' (List.mem_cons_of_mem _ hc'),
      names_join root (h c List.mem_cons_self)]
    simp

/-- The text of an accepted path under a root, by its names. -/
theorem resolve_names (root : String) {path : List String} (valid : check path = .ok ()) :
    ∃ text, resolve root path = .ok text ∧ names text = names root ++ path ∧
      endsInStep text = true := by
  obtain ⟨hne, hall⟩ := check_eq_ok_iff.mp valid
  refine ⟨path.foldl join root, by rw [resolve, valid], names_foldl_join root hall, ?_⟩
  obtain ⟨above, c, rfl⟩ := (List.eq_nil_or_concat path).resolve_left hne
  rw [List.concat_eq_append, List.foldl_append]
  exact endsInStep_join _ (hall c (by simp))

end FlatVolume.Path
