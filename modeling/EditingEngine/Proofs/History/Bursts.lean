import EditingEngine.History.Step
import Mathlib.Tactic.Lemma

/-!
# What the end of a burst does

The base of a history is what a burst would be undone to: the snapshot from before it,
or the current one where nothing is being typed. A burst has changed the text when the
base has another text than the current snapshot. This decides what the end of the burst
does: an unchanged text is left as it is with all that can be undone and redone, a
changed one puts the base on the undo stack and clears the redo stack.
-/
namespace EditingEngine.History

section push

variable (h : History) (s : Snapshot)

@[simp] theorem redoStack_push : (h.push s).redoStack = h.redoStack := by
  unfold push
  split <;> rfl

@[simp] theorem burst_push : (h.push s).burst = h.burst := by
  unfold push
  split <;> rfl

@[simp] theorem limit_push : (h.push s).limit = h.limit := by
  unfold push
  split <;> rfl

lemma mem_of_mem_undoStack_push {h : History} {s t : Snapshot} (ht : t ∈ (h.push s).undoStack) :
    t ∈ s :: h.undoStack := by
  unfold push at ht
  split at ht
  · exact List.mem_cons_of_mem s ht
  · exact List.mem_of_mem_take ht

lemma length_undoStack_push_le : (h.push s).undoStack.length ≤ h.undoStack.length + 1 := by
  unfold push
  split
  · omega
  · exact List.length_take_le' _ _

end push

/-- The snapshot from before the burst, or the current one if there is no burst. -/
def base (h : History) : Snapshot :=
  match h.burst with
  | none => h.current
  | some b => b.before

/-- Whether a burst has changed the text and can still take the change back. -/
def isChanged (h : History) : Bool := h.base.content != h.current.content

lemma base_of_quiet {h : History} (hquiet : h.burst = none) : h.base = h.current := by
  simp [base, hquiet]

lemma isChanged_of_quiet {h : History} (hquiet : h.burst = none) : h.isChanged = false := by
  simp [isChanged, base_of_quiet hquiet]

lemma content_base {h : History} (hsame : h.isChanged = false) :
    h.base.content = h.current.content := by
  simpa [isChanged] using hsame

lemma endBurst_of_quiet {h : History} (hquiet : h.burst = none) : h.endBurst = h := by
  simp [endBurst, hquiet]

lemma endBurst_of_same {h : History} (hsame : h.isChanged = false) :
    h.endBurst = { h with burst := none } := by
  have hcontent := content_base hsame
  cases hb : h.burst with
  | none => rw [endBurst_of_quiet hb, ← hb]
  | some b => simp_all [endBurst, base]

lemma endBurst_of_changed {h : History} (hchanged : h.isChanged = true) :
    h.endBurst = { h with burst := none, redoStack := [] }.push h.base := by
  cases hb : h.burst with
  | none => simp [isChanged_of_quiet hb] at hchanged
  | some b => simp_all [endBurst, isChanged, base]

@[simp] theorem current_endBurst (h : History) : h.endBurst.current = h.current := by
  cases hc : h.isChanged with
  | false => rw [endBurst_of_same hc]
  | true => rw [endBurst_of_changed hc, current_push]

@[simp] theorem burst_endBurst (h : History) : h.endBurst.burst = none := by
  cases hc : h.isChanged with
  | false => rw [endBurst_of_same hc]
  | true => rw [endBurst_of_changed hc, burst_push]

theorem redoStack_endBurst (h : History) :
    h.endBurst.redoStack = if h.isChanged then [] else h.redoStack := by
  cases hc : h.isChanged with
  | false => rw [endBurst_of_same hc]; rfl
  | true => rw [endBurst_of_changed hc, redoStack_push]; rfl

@[simp] theorem base_endBurst (h : History) : h.endBurst.base = h.current := by
  rw [base_of_quiet (burst_endBurst h), current_endBurst]

/-- Moving the caret does not change which text the base has. -/
@[simp] theorem content_base_moveCaret (h : History) (caret : Caret) :
    (h.moveCaret caret).base.content = h.base.content := by
  unfold base
  cases hb : h.burst <;> simp [moveCaret, hb]

section burstEdit

variable (h : History) (next : Snapshot) (now : Nat)

@[simp] theorem undoStack_burstEdit : (h.burstEdit next now).undoStack = h.undoStack := by
  unfold burstEdit
  cases h.burst with
  | some b => rfl
  | none => simp only; split <;> rfl

@[simp] theorem redoStack_burstEdit : (h.burstEdit next now).redoStack = h.redoStack := by
  unfold burstEdit
  cases h.burst with
  | some b => rfl
  | none => simp only; split <;> rfl

@[simp] theorem limit_burstEdit : (h.burstEdit next now).limit = h.limit := by
  unfold burstEdit
  cases h.burst with
  | some b => rfl
  | none => simp only; split <;> rfl

/-- A burst begins at its base and keeps it, whatever is typed. -/
@[simp] theorem content_base_burstEdit :
    (h.burstEdit next now).base.content = h.base.content := by
  cases hb : h.burst with
  | some b => simp [burstEdit, base, hb]
  | none =>
    simp only [burstEdit, hb]
    split
    · exact content_base_moveCaret h next.caret
    · rw [base_of_quiet hb]
      rfl

end burstEdit

section steps

variable {h : History} {s : Snapshot} {rest : List Snapshot}

lemma edit_of_same {next : Snapshot} (hsame : next.content = h.current.content) :
    h.edit next = h.endBurst.moveCaret next.caret := by
  simp [edit, hsame]

lemma edit_of_differs {next : Snapshot} (hne : next.content ≠ h.current.content) :
    h.edit next = { h.endBurst with current := next, redoStack := [] }.push h.current := by
  simp [edit, hne]

lemma undo_of_nil (hstack : h.endBurst.undoStack = []) : h.undo = h.endBurst := by
  simp [undo, hstack]

lemma undo_of_cons (hstack : h.endBurst.undoStack = s :: rest) :
    h.undo = { h.endBurst with
      current := s, undoStack := rest, redoStack := h.current :: h.endBurst.redoStack } := by
  simp [undo, hstack]

lemma undo_of_quiet (hquiet : h.burst = none) (hstack : h.undoStack = s :: rest) :
    h.undo = { h with
      current := s, undoStack := rest, redoStack := h.current :: h.redoStack } := by
  simp [undo, endBurst_of_quiet hquiet, hstack]

lemma redo_of_nil (hstack : h.endBurst.redoStack = []) : h.redo = h.endBurst := by
  simp [redo, hstack]

lemma redo_of_cons (hstack : h.endBurst.redoStack = s :: rest) :
    h.redo = { h.endBurst with current := s, redoStack := rest }.push h.current := by
  simp [redo, hstack]

lemma redo_of_quiet (hquiet : h.burst = none) (hstack : h.redoStack = s :: rest) :
    h.redo = { h with current := s, redoStack := rest }.push h.current := by
  simp [redo, endBurst_of_quiet hquiet, hstack]

variable (h)

lemma burst_edit (next : Snapshot) : (h.edit next).burst = none := by
  by_cases hsame : next.content = h.current.content
  · rw [edit_of_same hsame]
    exact burst_endBurst h
  · rw [edit_of_differs hsame, burst_push]
    exact burst_endBurst h

lemma burst_undo : h.undo.burst = none := by
  cases hstack : h.endBurst.undoStack with
  | nil => rw [undo_of_nil hstack, burst_endBurst]
  | cons s rest => rw [undo_of_cons hstack, burst_endBurst]

lemma burst_redo : h.redo.burst = none := by
  cases hstack : h.endBurst.redoStack with
  | nil => rw [redo_of_nil hstack, burst_endBurst]
  | cons s rest => rw [redo_of_cons hstack, burst_push, burst_endBurst]

end steps

end EditingEngine.History
