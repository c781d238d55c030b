import EditingEngine.Session

/-!
# Steps of a session

Everything that can be asked of a session, as one type. Every step of its notebook
is one too.
-/
namespace EditingEngine

inductive SessionStep where
  | pressKey (c : Char) (now : Nat)
  | pressTab
  | pressEnter
  /-- Remember a key whose character the host has inserted itself. -/
  | noteKey (c : Char)
  | moveTo (offset : Nat)
  | moveToPosition (line column : Nat)
  /-- An edit that the host has made, as part of a burst. -/
  | hostEdit (text : Text) (offset now : Nat)
  | replace (text : Text) (offset : Nat)
  | paste (text : Text)
  | load (text : Text)
  | reindent
  | undo
  | redo
  | tick (now : Nat)
  /-- Make another page active, and forget what was typed on this one. -/
  | turnTo (index : Nat)
  /-- Put other pages in the place of all pages, and forget what was typed. -/
  | renew (pages : List (Text × Text))
  | configure (settings : Settings)
  | notebook (step : NotebookStep)
  deriving DecidableEq, Repr

inductive SessionAnswer where
  | done
  /-- Where the caret is now. -/
  | caret (caret : Caret)
  | flag (yes : Bool)
  | failed (error : NotebookError)
  | notebook (answer : NotebookAnswer)
  deriving DecidableEq, Repr

/-- What a step leads to. -/
structure SessionOutcome where
  session : Session
  notices : List Notice
  answer : SessionAnswer

namespace Session

/-- The outcome of a step that is answered with the caret. -/
def showingCaret (s : Session) : SessionOutcome := ⟨s, [], .caret s.caret⟩

/-- Take a step. -/
def step (s : Session) : SessionStep → SessionOutcome
  | .pressKey c now => (s.pressKey c now).showingCaret
  | .pressTab => s.pressTab.showingCaret
  | .pressEnter => s.pressEnter.showingCaret
  | .noteKey c => ⟨s.noteKey c, [], .done⟩
  | .moveTo offset => (s.moveTo offset).showingCaret
  | .moveToPosition line column => (s.moveToPosition line column).showingCaret
  | .hostEdit text offset now => (s.burstEdit text offset now).showingCaret
  | .replace text offset => (s.replace text offset).showingCaret
  | .paste text => (s.paste text).showingCaret
  | .load text => ⟨s.load text, [], .done⟩
  | .reindent => ⟨s.reindent, [], .flag !s.isIndented⟩
  | .undo => ⟨s.undo, [], .flag s.history.undone?.isSome⟩
  | .redo => ⟨s.redo, [], .flag s.history.redone?.isSome⟩
  | .tick now =>
    ⟨s.stepHistory (.tick now), [], .flag (s.history.isDue now && s.history.burstCounts)⟩
  | .turnTo index =>
    let reply := s.notebook.turnTo index
    let t := { s with notebook := reply.notebook }
    match reply.result with
    | .error e => ⟨t, reply.notices, .failed e⟩
    | .ok shown => ⟨t.forgetKeys, reply.notices, .caret shown.caret⟩
  | .renew pages =>
    let outcome := s.notebook.step (.renew pages)
    ⟨{ s.forgetKeys with notebook := outcome.notebook }, outcome.notices, .done⟩
  | .configure settings => ⟨s.configure settings, [], .done⟩
  | .notebook step =>
    let outcome := s.notebook.step step
    ⟨{ s with notebook := outcome.notebook }, outcome.notices, .notebook outcome.answer⟩

/-- The session after some steps. -/
def run (s : Session) (steps : List SessionStep) : Session :=
  steps.foldl (fun t step => (t.step step).session) s

@[simp] theorem run_nil (s : Session) : s.run [] = s := rfl

@[simp] theorem run_cons (s : Session) (step : SessionStep) (steps : List SessionStep) :
    s.run (step :: steps) = (s.step step).session.run steps := rfl

end Session
end EditingEngine
