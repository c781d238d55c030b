import EditingEngine.History.Basic

/-!
# Steps of a history

Everything that can be asked of a history, as one type. A step leads from one
history to the next and has an answer; a run is a list of steps.
-/
namespace EditingEngine

inductive HistoryStep where
  /-- An edit that enters the history at once. -/
  | edit (next : Snapshot)
  /-- An edit of a burst. -/
  | burstEdit (next : Snapshot) (now : Nat)
  | tick (now : Nat)
  | endBurst
  | undo
  | redo
  | moveCaret (caret : Caret)
  | restart (content : Text)
  | withLimit (limit : Nat)
  | withPause (pause : Nat)
  deriving DecidableEq, Repr

inductive HistoryAnswer where
  | done
  /-- Whether an undo entry was added. -/
  | added (yes : Bool)
  /-- The snapshot that was brought back, if there was one. -/
  | restored (snapshot : Option Snapshot)
  deriving DecidableEq, Repr

namespace History

/-- The history after a step. -/
def step (h : History) : HistoryStep → History
  | .edit next => h.edit next
  | .burstEdit next now => h.burstEdit next now
  | .tick now => h.tick now
  | .endBurst => h.endBurst
  | .undo => h.undo
  | .redo => h.redo
  | .moveCaret caret => h.moveCaret caret
  | .restart content => h.restart content
  | .withLimit limit => h.withLimit limit
  | .withPause pause => h.withPause pause

/-- The answer to a step. -/
def answer (h : History) : HistoryStep → HistoryAnswer
  | .tick now => .added (h.isDue now && h.burstCounts)
  | .endBurst => .added h.burstCounts
  | .undo => .restored h.undone?
  | .redo => .restored h.redone?
  | _ => .done

/-- The history after some steps. -/
def run (h : History) (steps : List HistoryStep) : History := steps.foldl step h

/-- The answers to some steps, each asked of the history that the steps before it lead to. -/
def answers (h : History) : List HistoryStep → List HistoryAnswer
  | [] => []
  | s :: rest => h.answer s :: (h.step s).answers rest

@[simp] theorem run_nil (h : History) : h.run [] = h := rfl

@[simp] theorem run_cons (h : History) (s : HistoryStep) (steps : List HistoryStep) :
    h.run (s :: steps) = (h.step s).run steps := rfl

@[simp] theorem run_append (h : History) (first second : List HistoryStep) :
    h.run (first ++ second) = (h.run first).run second := List.foldl_append

@[simp] theorem answers_nil (h : History) : h.answers [] = [] := rfl

@[simp] theorem answers_cons (h : History) (s : HistoryStep) (steps : List HistoryStep) :
    h.answers (s :: steps) = h.answer s :: (h.step s).answers steps := rfl

@[simp] theorem answers_append (h : History) (first second : List HistoryStep) :
    h.answers (first ++ second) = h.answers first ++ (h.run first).answers second := by
  induction first generalizing h with
  | nil => rfl
  | cons s rest ih => simp [ih]

end History
end EditingEngine
