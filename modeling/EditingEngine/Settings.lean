import EditingEngine.Caret
import EditingEngine.Language

/-!
# Settings

The settings of an editing session: how columns are measured, how many edits can be
undone, how long a burst of typing lasts, and the language. They are valid if tabs
cover a cell and an edit can be undone at all. Invalid settings can still be used:
both numbers are then read as one.
-/
namespace EditingEngine

structure Settings where
  tabWidth : Nat
  widthRule : WidthRule
  /-- The number of edits that can be undone. -/
  undoLimit : Nat
  /-- The milliseconds after which a burst of typing ends. -/
  pause : Nat
  language : Language
  deriving DecidableEq, Repr

/-- What is wrong with settings. -/
inductive SettingsError where
  | zeroTabWidth
  | zeroUndoLimit
  deriving DecidableEq, Repr

def SettingsError.message : SettingsError → String
  | zeroTabWidth => "tab width must be at least 1"
  | zeroUndoLimit => "history limit must be at least 1"

namespace Settings

/-- The settings of a session that was given none. -/
def standard : Settings where
  tabWidth := 4
  widthRule := .even
  undoLimit := 20
  pause := 300
  language := .javaScript

/-- The first thing wrong with the settings, if there is one. -/
def error? (s : Settings) : Option SettingsError :=
  if s.tabWidth = 0 then some .zeroTabWidth
  else if s.undoLimit = 0 then some .zeroUndoLimit
  else none

/-- How columns are measured. -/
def metrics (s : Settings) : Metrics := ⟨max s.tabWidth 1, s.widthRule⟩

end Settings
end EditingEngine
