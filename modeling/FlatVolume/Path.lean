import FlatVolume.IoError
import FlatVolume.Path.Quoted

/-!
# Declared paths

A declared path is a list of components. A path is accepted when it has a
component and none of them could lead anywhere but one level down, so that an
accepted path resolves to a place under the root.
-/

namespace FlatVolume.Path

/-- Characters that no component may contain. -/
def isReserved (c : Char) : Bool :=
  c = '/' || c = '\\' || c = '\x00'

/-- A component names one level down: it is not empty, it is not one of the two
names for a directory above, and it contains no reserved character. -/
def isComponent (text : String) : Bool :=
  text ≠ "" && text ≠ "." && text ≠ ".." && !text.toList.any isReserved

def emptyPath : IoError :=
  ⟨.invalidInput, "empty path"⟩

def badComponent (text : String) : IoError :=
  ⟨.invalidInput, "invalid path component: " ++ quoted text⟩

def checkComponent (text : String) : Except IoError Unit :=
  if isComponent text then .ok () else .error (badComponent text)

/-- The first bad component decides the error. -/
def checkComponents : List String → Except IoError Unit
  | [] => .ok ()
  | c :: rest =>
    match checkComponent c with
    | .ok () => checkComponents rest
    | .error e => .error e

def check (path : List String) : Except IoError Unit :=
  match path with
  | [] => .error emptyPath
  | _ :: _ => checkComponents path

/-- The components with a slash between each two. -/
def display (path : List String) : String :=
  "/".intercalate path

/-- The components of a text, as the slashes cut it. -/
def split (text : String) : List String :=
  (text.toList.splitOn '/').map String.ofList

/-- One step down from `base`: a slash goes between unless `base` is empty or ends
with one, and a step that starts with a slash begins anew. -/
def join (base step : String) : String :=
  if step.toList.head? = some '/' then step
  else if base = "" ∨ base.toList.getLast? = some '/' then base ++ step
  else base ++ "/" ++ step

/-- Where an accepted path lies under `root`. -/
def resolve (root : String) (path : List String) : Except IoError String :=
  match check path with
  | .ok () => .ok (path.foldl join root)
  | .error e => .error e

theorem checkComponent_eq_ok_iff {text : String} :
    checkComponent text = .ok () ↔ isComponent text = true := by
  by_cases h : isComponent text <;> simp [checkComponent, h]

theorem check_eq_ok_iff {path : List String} :
    check path = .ok () ↔ path ≠ [] ∧ ∀ c ∈ path, isComponent c = true := by
  have all (cs : List String) :
      checkComponents cs = .ok () ↔ ∀ c ∈ cs, isComponent c = true := by
    induction cs with
    | nil => simp [checkComponents]
    | cons c rest ih => by_cases h : isComponent c <;> simp [checkComponents, checkComponent, h, ih]
  cases path with
  | nil => simp [check]
  | cons c rest => simp [check, all]

theorem slash_not_mem {c : String} (h : isComponent c = true) : '/' ∉ c.toList := by
  intro hin
  have hreserved := (Bool.and_eq_true_iff.mp h).2
  rw [Bool.not_eq_true', List.any_eq_false] at hreserved
  exact hreserved '/' hin rfl

/-- An accepted path can be read off how it is displayed. -/
theorem split_display {path : List String} (h : check path = .ok ()) : split (display path) = path := by
  obtain ⟨hne, hall⟩ := check_eq_ok_iff.mp h
  have hslash : ∀ chars ∈ path.map String.toList, '/' ∉ chars := by
    intro chars hmem hin
    obtain ⟨text, htext, rfl⟩ := List.mem_map.mp hmem
    exact slash_not_mem (hall text htext) hin
  have hchars : (display path).toList = ['/'].intercalate (path.map String.toList) :=
    String.toList_intercalate
  rw [split, hchars, List.splitOn_intercalate '/' hslash (by simpa using hne), List.map_map]
  simp [Function.comp_def]

theorem display_split (text : String) : display (split text) = text := by
  have hchars : (display (split text)).toList = ['/'].intercalate ((split text).map String.toList) :=
    String.toList_intercalate
  have hparts : (split text).map String.toList = text.toList.splitOn '/' := by
    rw [split, List.map_map]
    simp [Function.comp_def]
  rw [hparts, List.intercalate_splitOn] at hchars
  exact String.toList_inj.mp hchars

theorem display_inj {path path' : List String} (h : check path = .ok ()) (h' : check path' = .ok ())
    (heq : display path = display path') : path = path' := by
  rw [← split_display h, ← split_display h', heq]

end FlatVolume.Path
