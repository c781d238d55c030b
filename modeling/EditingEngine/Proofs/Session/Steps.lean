import EditingEngine.Proofs.Notebook.PageHistories
import EditingEngine.SessionStep

/-!
# What a step of a session does to its pages

A session reaches its pages in three ways. It takes steps of its own making in the
history of the active page, it passes its settings on to all pages, or it has its
notebook take a step. All that a proof about the pages of a session has to know of its
steps is which of the three it was.
-/
namespace EditingEngine

/-- The step that a session has its notebook take as it is. -/
def SessionStep.inNotebook? : SessionStep → Option NotebookStep
  | .turnTo index => some (.turnTo index)
  | .renew pages => some (.renew pages)
  | .notebook step => some step
  | _ => none

/-- The step that a session has its notebook take as a whole. Settings are passed on to the
notebook as such a step, too. -/
def SessionStep.passedOn? : SessionStep → Option NotebookStep
  | .configure settings => some (.configure settings.undoLimit settings.pause)
  | step => step.inNotebook?

namespace Session

/-- The history steps of a session's own making. A caret that they bring along was measured in
the text that it is for. -/
inductive Makes (s : Session) : HistoryStep → Prop where
  | edit (text : Text) (offset : Nat) : s.Makes (.edit (s.measured text offset))
  | burstEdit (text : Text) (offset now : Nat) : s.Makes (.burstEdit (s.measured text offset) now)
  | moveCaret (offset : Nat) :
    s.Makes (.moveCaret (.ofOffset s.charWidth s.settings.metrics s.text offset))
  | restart (text : Text) : s.Makes (.restart text)
  | undo : s.Makes .undo
  | redo : s.Makes .redo
  | tick (now : Nat) : s.Makes (.tick now)

theorem pressKey_cases (s : Session) (c : Char) (now : Nat) :
    ∃ keys st, s.Makes st ∧ s.pressKey c now = { s.stepHistory st with keys := keys } := by
  unfold pressKey
  split
  · exact ⟨_, _, .edit _ _, rfl⟩
  · split
    · exact ⟨_, _, .edit _ _, rfl⟩
    · exact ⟨_, _, .burstEdit _ _ _, rfl⟩

theorem reindent_cases (s : Session) : ∃ st, s.Makes st ∧ s.reindent = s.stepHistory st := by
  unfold reindent
  split
  · exact ⟨_, .moveCaret _, rfl⟩
  · exact ⟨_, .edit _ _, rfl⟩

theorem step_cases (s : Session) (step : SessionStep) :
    (∃ keys, (s.step step).session = { s with keys := keys }) ∨
    (∃ keys st, s.Makes st ∧ (s.step step).session = { s.stepHistory st with keys := keys }) ∨
    (∃ settings, step = .configure settings ∧ (s.step step).session = s.configure settings) ∨
    (∃ keys st, step.inNotebook? = some st ∧
      (s.step step).session =
        { s with notebook := (s.notebook.step st).notebook, keys := keys }) := by
  cases step with
  | pressKey c now => exact Or.inr (Or.inl (s.pressKey_cases c now))
  | pressTab | pressEnter => exact Or.inr (Or.inl ⟨_, _, .edit _ _, rfl⟩)
  | noteKey c => exact Or.inl ⟨_, rfl⟩
  | moveTo offset => exact Or.inr (Or.inl ⟨_, _, .moveCaret _, rfl⟩)
  | moveToPosition line column => exact Or.inr (Or.inl ⟨_, _, .moveCaret _, rfl⟩)
  | hostEdit text offset now => exact Or.inr (Or.inl ⟨_, _, .burstEdit _ _ _, rfl⟩)
  | replace text offset => exact Or.inr (Or.inl ⟨_, _, .edit _ _, rfl⟩)
  | paste text => exact Or.inr (Or.inl ⟨_, _, .edit _ _, rfl⟩)
  | load text => exact Or.inr (Or.inl ⟨_, _, .restart _, rfl⟩)
  | reindent =>
    obtain ⟨st, hst, heq⟩ := s.reindent_cases
    exact Or.inr (Or.inl ⟨s.keys, st, hst, heq⟩)
  | undo => exact Or.inr (Or.inl ⟨_, _, .undo, rfl⟩)
  | redo => exact Or.inr (Or.inl ⟨_, _, .redo, rfl⟩)
  | tick now => exact Or.inr (Or.inl ⟨_, _, .tick now, rfl⟩)
  | turnTo index =>
    simp only [Session.step]
    split
    · exact Or.inr (Or.inr (Or.inr ⟨s.keys, _, rfl, rfl⟩))
    · exact Or.inr (Or.inr (Or.inr ⟨.none, _, rfl, rfl⟩))
  | renew pages => exact Or.inr (Or.inr (Or.inr ⟨_, _, rfl, rfl⟩))
  | configure settings => exact Or.inr (Or.inr (Or.inl ⟨settings, rfl, rfl⟩))
  | notebook step => exact Or.inr (Or.inr (Or.inr ⟨_, _, rfl, rfl⟩))

lemma notebook_of_passedOn (s : Session) {step : SessionStep} {st : NotebookStep}
    (hst : step.passedOn? = some st) :
    (s.step step).session.notebook = (s.notebook.step st).notebook := by
  cases step with
  | configure | renew | notebook =>
    cases hst
    rfl
  | turnTo index =>
    cases hst
    simp only [Session.step]
    split <;> rfl
  | _ => cases hst

/-- A step that is not passed on concerns the active page at most. -/
lemma notebook_of_not_passedOn (s : Session) {step : SessionStep} (hst : step.passedOn? = none) :
    (s.step step).session.notebook = s.notebook ∨
      ∃ st, s.Makes st ∧ (s.step step).session.notebook = s.notebook.stepActive st := by
  rcases s.step_cases step with ⟨keys, h⟩ | ⟨keys, st, hmakes, h⟩ | ⟨settings, rfl, h⟩ |
    ⟨keys, st, hin, h⟩
  · exact Or.inl (by rw [h])
  · exact Or.inr ⟨st, hmakes, by rw [h]; rfl⟩
  · cases hst
  · cases step <;> simp_all [SessionStep.passedOn?, SessionStep.inNotebook?]

/-- Whatever a step of a session is, its notebook stays as it is or takes one step. -/
theorem notebook_step (s : Session) (step : SessionStep) :
    (s.step step).session.notebook = s.notebook ∨
      ∃ st, (s.step step).session.notebook = (s.notebook.step st).notebook := by
  cases hst : step.passedOn? with
  | some st => exact Or.inr ⟨st, s.notebook_of_passedOn hst⟩
  | none =>
    rcases s.notebook_of_not_passedOn hst with h | ⟨st, _, h⟩
    · exact Or.inl h
    · exact Or.inr ⟨.active st, h⟩

@[simp] theorem run_append (s : Session) (first second : List SessionStep) :
    s.run (first ++ second) = (s.run first).run second := List.foldl_append

end Session
end EditingEngine
