import EditingEngine.BracketSpan
import EditingEngine.Indentation.LineBreak
import EditingEngine.NotebookStep
import EditingEngine.Settings

/-!
# Editing sessions

A session edits the active page of a notebook: it finds the text that an edit leads
to and the caret in it, and records both in the history of the page. Typed
characters belong to bursts; edits that change more than one place or the layout
enter the history at once. The two keys pressed last are remembered for the next
line break, until something other than typing changes the text or the page.
-/
namespace EditingEngine

structure Session where
  settings : Settings
  notebook : Notebook
  keys : RecentKeys
  /-- The widths of characters on the grid of the host, which never change. -/
  charWidth : Char → Option Nat

namespace Session

/-- A session with one empty page. -/
def new (charWidth : Char → Option Nat) (settings : Settings) : Session :=
  ⟨settings, .new settings.undoLimit settings.pause, .none, charWidth⟩

/-- The history of the active page. -/
def history (s : Session) : History := s.notebook.activePage.history

/-- The text of the active page. -/
def text (s : Session) : Text := s.history.current.content

/-- The caret of the active page. -/
def caret (s : Session) : Caret := s.history.current.caret

/-- When the burst on the active page ends if nothing more is typed, if there is one. -/
def deadline? (s : Session) : Option Nat := s.history.deadline?

/-- Take a step in the history of the active page. -/
def stepHistory (s : Session) (step : HistoryStep) : Session :=
  { s with notebook := s.notebook.stepActive step }

def noteKey (s : Session) (c : Char) : Session := { s with keys := s.keys.push c }

def forgetKeys (s : Session) : Session := { s with keys := .none }

/-- A text with the caret at an offset into it. -/
def measured (s : Session) (text : Text) (offset : Nat) : Snapshot :=
  ⟨text, .ofOffset s.charWidth s.settings.metrics text offset⟩

/-- Record an edit that enters the history at once. -/
def edit (s : Session) (text : Text) (offset : Nat) : Session :=
  s.stepHistory (.edit (s.measured text offset))

/-- Record an edit of a burst. -/
def burstEdit (s : Session) (text : Text) (offset now : Nat) : Session :=
  s.stepHistory (.burstEdit (s.measured text offset) now)

/-- The text with some characters inserted at the caret. -/
def inserted (s : Session) (chars : Text) : Text :=
  s.text.take s.caret.offset ++ chars ++ s.text.drop s.caret.offset

/-- Move the caret to an offset. -/
def moveTo (s : Session) (offset : Nat) : Session :=
  s.stepHistory (.moveCaret (.ofOffset s.charWidth s.settings.metrics s.text offset))

/-- Move the caret to a line and column. -/
def moveToPosition (s : Session) (line column : Nat) : Session :=
  s.stepHistory (.moveCaret (.ofPosition s.charWidth s.settings.metrics s.text line column))

/-- Break the line at the caret. -/
def pressEnter (s : Session) : Session :=
  let b := insertLineBreak s.settings.language s.keys s.text s.caret.offset
  (s.noteKey '\n').edit b.text b.caret

/-- Insert a tab at the caret. -/
def pressTab (s : Session) : Session :=
  (s.noteKey '\t').edit (s.inserted ['\t']) (s.caret.offset + 1)

/-- Type a character at the caret. A line feed and a tab are more than a character. -/
def pressKey (s : Session) (c : Char) (now : Nat) : Session :=
  if c = '\n' then s.pressEnter
  else if c = '\t' then s.pressTab
  else (s.noteKey c).burstEdit (s.inserted [c]) (s.caret.offset + 1) now

/-- Insert a text at the caret. -/
def paste (s : Session) (chars : Text) : Session :=
  s.forgetKeys.edit (s.inserted chars) (s.caret.offset + chars.length)

/-- Put another text in the place of the whole text. -/
def replace (s : Session) (text : Text) (offset : Nat) : Session := s.forgetKeys.edit text offset

/-- Load a text into the active page, without a way back. -/
def load (s : Session) (text : Text) : Session := s.forgetKeys.stepHistory (.restart text)

/-- A session whose page holds a text. -/
def withContent (charWidth : Char → Option Nat) (settings : Settings) (text : Text) : Session :=
  (new charWidth settings).load text

/-- Whether re-indenting would not change the text. -/
def isIndented (s : Session) : Bool :=
  EditingEngine.reindent s.settings.language s.text == s.text

/-- Re-indent the text. If it is well indented already, only the caret may move. -/
def reindent (s : Session) : Session :=
  let offset := reindentedOffset s.settings.language s.text s.caret.offset
  if s.isIndented then s.moveTo offset
  else s.edit (EditingEngine.reindent s.settings.language s.text) offset

def undo (s : Session) : Session := s.forgetKeys.stepHistory .undo

def redo (s : Session) : Session := s.forgetKeys.stepHistory .redo

/-- The span of the bracket at the caret and its partner. -/
def matchSpan? (s : Session) : Option Span :=
  EditingEngine.matchSpan? s.settings.language.matchPairs s.text s.caret.offset

/-- Change the settings, also for the histories of all pages. -/
def configure (s : Session) (settings : Settings) : Session :=
  { s with
    settings := settings
    notebook := s.notebook.configure settings.undoLimit settings.pause }

@[simp] theorem history_stepHistory (s : Session) (step : HistoryStep) :
    (s.stepHistory step).history = s.history.step step := by
  simp [history, stepHistory]

end Session
end EditingEngine
