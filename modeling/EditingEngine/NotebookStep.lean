import EditingEngine.Notebook

/-!
# Steps of a notebook

Everything that can be asked of a notebook, as one type. A step leads to the next
notebook, to an answer and to what the subscribers are told.
-/
namespace EditingEngine

inductive NotebookStep where
  | turnTo (index : Nat)
  | renew (pages : List (Text × Text))
  | add (title content : Text)
  | retitle (index : Nat) (title : Text)
  | retitleActive (title : Text)
  | remove (index : Nat)
  | configure (limit pause : Nat)
  | setQuiet (quiet : Bool)
  | subscribe
  /-- A step in the history of the active page. -/
  | active (step : HistoryStep)
  deriving DecidableEq, Repr

inductive NotebookAnswer where
  | done
  /-- The snapshot of the page that is now active. -/
  | shown (snapshot : Snapshot)
  /-- The place of the new page. -/
  | added (index : Nat)
  /-- The page that was removed. -/
  | removed (page : Page)
  | failed (error : NotebookError)
  | history (answer : HistoryAnswer)
  deriving DecidableEq, Repr

/-- What a step leads to. -/
structure NotebookOutcome where
  notebook : Notebook
  notices : List Notice
  answer : NotebookAnswer
  deriving DecidableEq, Repr

namespace Notebook

/-- The outcome of a step that is answered with the result of a request. -/
def Reply.outcome {α : Type} (reply : Reply α) (answer : α → NotebookAnswer) : NotebookOutcome where
  notebook := reply.notebook
  notices := reply.notices
  answer :=
    match reply.result with
    | .error e => .failed e
    | .ok a => answer a

/-- Take a step. Subscribers hear of a page that was turned to, of the first page if it was not the
active one before all pages were renewed, and of the page that takes the place of an active page
that was removed. -/
def step (nb : Notebook) : NotebookStep → NotebookOutcome
  | .turnTo index => (nb.turnTo index).outcome .shown
  | .renew pages =>
    let next := nb.renew pages
    ⟨next, if nb.active = 0 then [] else next.announce, .done⟩
  | .add title content => ⟨nb.add title content, [], .added nb.pages.length⟩
  | .retitle index title => (nb.retitle index title).outcome fun _ => .done
  | .retitleActive title => ⟨nb.modifyActive fun p => { p with title := title }, [], .done⟩
  | .remove index => (nb.remove index).outcome .removed
  | .configure limit pause => ⟨nb.configure limit pause, [], .done⟩
  | .setQuiet quiet => ⟨nb.setQuiet quiet, [], .done⟩
  | .subscribe => ⟨nb.subscribe, [], .done⟩
  | .active s => ⟨nb.stepActive s, [], .history (nb.activePage.history.answer s)⟩

/-- The notebook after some steps. -/
def run (nb : Notebook) (steps : List NotebookStep) : Notebook :=
  steps.foldl (fun n s => (n.step s).notebook) nb

@[simp] theorem run_nil (nb : Notebook) : nb.run [] = nb := rfl

@[simp] theorem run_cons (nb : Notebook) (s : NotebookStep) (steps : List NotebookStep) :
    nb.run (s :: steps) = (nb.step s).notebook.run steps := rfl

end Notebook
end EditingEngine
