import EditingEngine.Caret

/-!
# Snapshots

What an undo brings back: a text and the caret in it.
-/
namespace EditingEngine

structure Snapshot where
  content : Text
  caret : Caret
  deriving DecidableEq, Repr

/-- A text with the caret at its start. -/
def Snapshot.atOrigin (content : Text) : Snapshot := ⟨content, .origin⟩

end EditingEngine
