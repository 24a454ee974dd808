/-!
# Settings

Where volumes are stored on disk, and whether files get their declared length
as soon as they are opened. The settings of a process are fixed once: by the
first who sets them or, with the defaults, by the first who reads them.
-/

namespace FlatVolume

structure Settings where
  downloadDirectory : String
  preallocate : Bool
  deriving DecidableEq, Repr

namespace Settings

/-- The current directory, with preallocation. -/
def standard : Settings :=
  ⟨".", true⟩

/-- One choice of whoever puts settings together. -/
inductive Choice where
  | downloadDirectory (directory : String)
  | preallocate (enabled : Bool)
  deriving DecidableEq, Repr

/-- What has been chosen so far. -/
structure Draft where
  downloadDirectory : Option String
  preallocate : Option Bool
  deriving DecidableEq, Repr

namespace Draft

def empty : Draft :=
  ⟨none, none⟩

def choose (draft : Draft) : Choice → Draft
  | .downloadDirectory directory => { draft with downloadDirectory := some directory }
  | .preallocate enabled => { draft with preallocate := some enabled }

/-- The chosen settings, the standard ones where nothing was chosen. -/
def build (draft : Draft) : Settings :=
  ⟨draft.downloadDirectory.getD standard.downloadDirectory,
    draft.preallocate.getD standard.preallocate⟩

end Draft

/-- The settings that a chain of choices builds. -/
def ofChoices (choices : List Choice) : Settings :=
  (choices.foldl Draft.choose .empty).build

end Settings

/-- The settings of a process, none before they are fixed. -/
structure ProcessSettings where
  fixed : Option Settings
  deriving DecidableEq, Repr

namespace ProcessSettings

def untouched : ProcessSettings :=
  ⟨none⟩

/-- Fixes the settings unless they are fixed already; says whether it did. -/
def set (p : ProcessSettings) (settings : Settings) : Bool × ProcessSettings :=
  match p.fixed with
  | none => (true, ⟨some settings⟩)
  | some _ => (false, p)

/-- Fixes the settings that a chain of choices builds. -/
def init (p : ProcessSettings) (choices : List Settings.Choice) : Bool × ProcessSettings :=
  p.set (.ofChoices choices)

/-- Fixes the standard settings. -/
def initStandard (p : ProcessSettings) : Bool × ProcessSettings :=
  p.init []

/-- The settings, which from here on stay what they are. -/
def read (p : ProcessSettings) : Settings × ProcessSettings :=
  let settings := p.fixed.getD .standard
  (settings, ⟨some settings⟩)

end ProcessSettings

end FlatVolume
