import EditingEngine.History.Snapshot

/-!
# Undo histories

A history holds the current snapshot and the snapshots that undo and redo lead to,
the nearest one first. An edit enters the history at once, or belongs to a burst of
typing: the snapshot from before a burst is kept aside, and every edit of the burst
moves the deadline at which the burst ends. It can also be ended early. A burst that
ends with the text it began with leaves no trace, and neither does an edit that
changes no text; only the caret moves. An edit that enters the history takes away
what could be redone. Undo entries beyond the limit are forgotten, the oldest first.
Times are in milliseconds and come with the edits, so a history has no clock.
-/
namespace EditingEngine

/-- A burst of typing that has not ended. -/
structure Burst where
  /-- The snapshot from before the burst. -/
  before : Snapshot
  /-- The time at which the burst ends if nothing more is typed. -/
  deadline : Nat
  deriving DecidableEq, Repr

structure History where
  current : Snapshot
  undoStack : List Snapshot
  redoStack : List Snapshot
  /-- The number of undo entries kept. -/
  limit : Nat
  /-- The time for which a burst waits for its next edit. -/
  pause : Nat
  burst : Option Burst
  deriving DecidableEq, Repr

namespace History

/-- A history that begins with a text. At least one undo entry is kept, whatever the limit. -/
def start (content : Text) (limit pause : Nat) : History where
  current := .atOrigin content
  undoStack := []
  redoStack := []
  limit := max limit 1
  pause := pause
  burst := none

/-- Forget the oldest undo entries beyond the limit. -/
def forgetOldest (h : History) : History := { h with undoStack := h.undoStack.take h.limit }

/-- Put a snapshot on the undo stack, unless it is there on top. -/
def push (h : History) (s : Snapshot) : History :=
  if h.undoStack.head? = some s then h
  else { h with undoStack := s :: h.undoStack }.forgetOldest

/-- Whether putting a snapshot on the undo stack adds an entry. -/
def pushes (h : History) (s : Snapshot) : Bool := h.undoStack.head? != some s

/-- End the burst. The snapshot from before it enters the history if the text has changed. -/
def endBurst (h : History) : History :=
  match h.burst with
  | none => h
  | some b =>
    if b.before.content = h.current.content then { h with burst := none }
    else { h with burst := none, redoStack := [] }.push b.before

/-- Whether ending the burst adds an undo entry. -/
def burstCounts (h : History) : Bool :=
  match h.burst with
  | none => false
  | some b => b.before.content != h.current.content && h.pushes b.before

def moveCaret (h : History) (caret : Caret) : History :=
  { h with current := { h.current with caret := caret } }

/-- An edit that enters the history at once. -/
def edit (h : History) (next : Snapshot) : History :=
  let quiet := h.endBurst
  if next.content = quiet.current.content then quiet.moveCaret next.caret
  else { quiet with current := next, redoStack := [] }.push quiet.current

/-- An edit that begins or continues a burst. -/
def burstEdit (h : History) (next : Snapshot) (now : Nat) : History :=
  match h.burst with
  | some b => { h with current := next, burst := some ⟨b.before, now + h.pause⟩ }
  | none =>
    if next.content = h.current.content then h.moveCaret next.caret
    else { h with current := next, burst := some ⟨h.current, now + h.pause⟩ }

/-- The deadline of the burst, if there is one. -/
def deadline? (h : History) : Option Nat := h.burst.map (·.deadline)

/-- Whether the deadline of a burst has come. -/
def isDue (h : History) (now : Nat) : Bool := h.burst.any (·.deadline ≤ now)

/-- End the burst if its deadline has come. -/
def tick (h : History) (now : Nat) : History := if h.isDue now then h.endBurst else h

/-- End the burst and go back to the last undo entry, if there is one. -/
def undo (h : History) : History :=
  let quiet := h.endBurst
  match quiet.undoStack with
  | [] => quiet
  | s :: rest =>
    { quiet with current := s, undoStack := rest, redoStack := quiet.current :: quiet.redoStack }

/-- The snapshot that undoing goes back to. -/
def undone? (h : History) : Option Snapshot := h.endBurst.undoStack.head?

/-- End the burst and go on to the last redo entry, if there is one. -/
def redo (h : History) : History :=
  let quiet := h.endBurst
  match quiet.redoStack with
  | [] => quiet
  | s :: rest => { quiet with current := s, redoStack := rest }.push quiet.current

/-- The snapshot that redoing goes on to. -/
def redone? (h : History) : Option Snapshot := h.endBurst.redoStack.head?

/-- Begin anew with a text. -/
def restart (h : History) (content : Text) : History := start content h.limit h.pause

/-- Change the limit, and forget the oldest undo entries beyond it. -/
def withLimit (h : History) (limit : Nat) : History := { h with limit := max limit 1 }.forgetOldest

/-- Change the time for which later edits of a burst wait. -/
def withPause (h : History) (pause : Nat) : History := { h with pause := pause }

@[simp] theorem current_push (h : History) (s : Snapshot) : (h.push s).current = h.current := by
  unfold push
  split <;> rfl

theorem current_undo {h : History} {s : Snapshot} (hs : h.undone? = some s) :
    h.undo.current = s := by
  unfold undone? at hs
  unfold undo
  cases hstack : h.endBurst.undoStack with
  | nil => simp [hstack] at hs
  | cons t rest => simpa [hstack] using hs

theorem current_redo {h : History} {s : Snapshot} (hs : h.redone? = some s) :
    h.redo.current = s := by
  unfold redone? at hs
  unfold redo
  cases hstack : h.endBurst.redoStack with
  | nil => simp [hstack] at hs
  | cons t rest => simpa [hstack] using hs

theorem limit_restart {h : History} (hlimit : 1 ≤ h.limit) (content : Text) :
    (h.restart content).limit = h.limit := Nat.max_eq_left hlimit

end History
end EditingEngine
