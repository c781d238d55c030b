import EditingEngine.Proofs.History.UndoEntries

/-!
# Depths under changing limits

The limit cuts the undo stack alone. What can be redone is bounded because every redo entry was an
undo entry before: an undo or a redo moves one entry from stack to stack, and whatever else puts an
entry on the undo stack clears the redo stack. So the entries of both stacks together are never more
than before the step, unless they are all on the undo stack, where the limit holds. A limit that was
lowered in between leaves the redo stack alone, so the bound is the largest limit of the run.
-/
namespace EditingEngine.History

/-- The number of snapshots that can be undone or redone. -/
def totalDepth (h : History) : Nat := h.undoStack.length + h.redoStack.length

/-- The largest limit in force during a run, from before the first step on. -/
def peakLimit (h : History) : List HistoryStep → Nat
  | [] => h.limit
  | s :: rest => max h.limit ((h.step s).peakLimit rest)

lemma limit_le_peakLimit (h : History) (steps : List HistoryStep) :
    h.limit ≤ h.peakLimit steps := by
  cases steps with
  | nil => exact Nat.le_refl _
  | cons s rest => exact Nat.le_max_left _ _

lemma totalDepth_push_le (h : History) (s : Snapshot) :
    (h.push s).totalDepth ≤ h.totalDepth + 1 := by
  have hpush := length_undoStack_push_le h s
  simp only [totalDepth, redoStack_push]
  omega

section

variable {h : History} (hc : h.Consistent)
include hc

lemma Consistent.totalDepth_le (hredo : h.redoStack = []) : h.totalDepth ≤ h.limit := by
  rw [totalDepth, hredo, List.length_nil, Nat.add_zero]
  exact hc.depth_le

lemma Consistent.totalDepth_endBurst_le : h.endBurst.totalDepth ≤ max h.totalDepth h.limit := by
  cases hchanged : h.isChanged with
  | false =>
    rw [endBurst_of_same hchanged]
    exact Nat.le_max_left _ _
  | true =>
    have hredo : h.endBurst.redoStack = [] := by rw [redoStack_endBurst, if_pos hchanged]
    have hle := hc.endBurst.totalDepth_le hredo
    rw [limit_endBurst] at hle
    exact hle.trans (Nat.le_max_right _ _)

lemma Consistent.totalDepth_edit_le (next : Snapshot) :
    (h.edit next).totalDepth ≤ max h.totalDepth h.limit := by
  by_cases hsame : next.content = h.current.content
  · rw [edit_of_same hsame]
    exact hc.totalDepth_endBurst_le
  · have hredo : (h.edit next).redoStack = [] := by rw [edit_of_differs hsame, redoStack_push]
    have hle := (hc.edit next).totalDepth_le hredo
    rw [limit_edit] at hle
    exact hle.trans (Nat.le_max_right _ _)

/-- An undo moves an entry to the redo stack. -/
lemma Consistent.totalDepth_undo_le : h.undo.totalDepth ≤ max h.totalDepth h.limit := by
  have hend := hc.totalDepth_endBurst_le
  cases hstack : h.endBurst.undoStack with
  | nil =>
    rw [undo_of_nil hstack]
    exact hend
  | cons s rest =>
    rw [undo_of_cons hstack]
    simp only [totalDepth, hstack, List.length_cons] at hend ⊢
    omega

/-- A redo takes an entry off the redo stack, and puts at most one on the undo stack. -/
lemma Consistent.totalDepth_redo_le : h.redo.totalDepth ≤ max h.totalDepth h.limit := by
  have hend := hc.totalDepth_endBurst_le
  cases hstack : h.endBurst.redoStack with
  | nil =>
    rw [redo_of_nil hstack]
    exact hend
  | cons s rest =>
    have hpush := totalDepth_push_le { h.endBurst with current := s, redoStack := rest } h.current
    rw [redo_of_cons hstack]
    simp only [totalDepth, hstack, List.length_cons] at hend hpush ⊢
    omega

/-- No step goes above the depth from before it, except up to the limit that is in force behind
it. -/
theorem Consistent.totalDepth_step_le (s : HistoryStep) :
    (h.step s).totalDepth ≤ max h.totalDepth (h.step s).limit := by
  cases s with
  | edit next =>
    rw [History.step, limit_edit]
    exact hc.totalDepth_edit_le next
  | burstEdit next now =>
    simp only [History.step, totalDepth, undoStack_burstEdit, redoStack_burstEdit]
    exact Nat.le_max_left _ _
  | tick now =>
    simp only [History.step, History.tick]
    split
    · rw [limit_endBurst]
      exact hc.totalDepth_endBurst_le
    · exact Nat.le_max_left _ _
  | endBurst =>
    rw [History.step, limit_endBurst]
    exact hc.totalDepth_endBurst_le
  | undo =>
    rw [History.step, limit_undo]
    exact hc.totalDepth_undo_le
  | redo =>
    rw [History.step, limit_redo]
    exact hc.totalDepth_redo_le
  | restart content => exact Nat.zero_le _
  | withLimit limit =>
    have hkept : (h.withLimit limit).undoStack.length ≤ h.undoStack.length :=
      List.length_take_le' _ _
    exact (Nat.add_le_add_right hkept _).trans (Nat.le_max_left _ _)
  | moveCaret | withPause => exact Nat.le_max_left _ _

end

/-- The induction is on the steps, with the history generalised: each step may raise the depth up to
the limit behind it, which is one of the limits of the run. -/
lemma Consistent.totalDepth_run_le {h : History} (hc : h.Consistent) (steps : List HistoryStep) :
    (h.run steps).totalDepth ≤ max h.totalDepth (h.peakLimit steps) := by
  induction steps generalizing h with
  | nil => exact Nat.le_max_left _ _
  | cons s rest ih =>
    have hfirst := hc.totalDepth_step_le s
    have hrest := ih (hc.step s)
    have hlimit := limit_le_peakLimit (h.step s) rest
    rw [run_cons, peakLimit]
    omega

/-- In every history that a run of steps leads to, with the limit changed to any numbers on the way,
the undo stack is within the limit, the limit is positive, and both stacks together are within the
largest limit there was. A change of the limit keeps the newest undo entries, as many as there are
and the limit allows, and everything else. -/
theorem depths_within_limits (content : Text) (limit pause : Nat) (steps : List HistoryStep) :
    let h := (start content limit pause).run steps
    h.undoStack.length ≤ h.limit ∧ 1 ≤ h.limit ∧
    h.undoStack.length + h.redoStack.length ≤ (start content limit pause).peakLimit steps ∧
    ∀ n, h.withLimit n = { h with
      limit := max n 1, undoStack := h.undoStack.take (min h.undoStack.length (max n 1)) } := by
  intro h
  have hstart := consistent_start content limit pause
  have hc : h.Consistent := hstart.run steps
  refine ⟨hc.depth_le, hc.limit_pos, ?_, ?_⟩
  · have hdepth := hstart.totalDepth_run_le steps
    have hnone : (start content limit pause).totalDepth = 0 := rfl
    rwa [hnone, Nat.zero_max] at hdepth
  · intro n
    rw [withLimit, forgetOldest, List.take_eq_take_min, Nat.min_comm]

-- Three entries, two of them undone, then a limit of one: the bound is the limit from before.
example : let h := (start [] 3 300).run [.edit (.atOrigin ['a']), .edit (.atOrigin ['b']),
      .edit (.atOrigin ['c']), .undo, .undo, .withLimit 0]
    (h.undoStack.length, h.redoStack.length, h.limit) = (1, 2, 1) := by decide

end EditingEngine.History
