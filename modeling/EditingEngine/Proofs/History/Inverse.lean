import EditingEngine.Proofs.History.Timeline

/-!
# Undo and redo as inverses

On a consistent history without a burst, a redo takes an undo back and an undo takes a
redo back, to the last field of the history. An undo never runs into the limit on its
way back, since the undo stack was no longer than the limit before it. A redo is taken
back whole only if the undo stack has room for its entry. Both carry over to any number
of steps there and back.
-/
namespace EditingEngine

/-- Whether a step has brought a snapshot back. -/
def HistoryAnswer.Restores (a : HistoryAnswer) : Prop := ∃ s, a = .restored (some s)

namespace History

/-- Steps that all bring a snapshot back and lead to the history that they began with. -/
def ComesBack (h : History) (steps : List HistoryStep) : Prop :=
  h.run steps = h ∧ ∀ a ∈ h.answers steps, a.Restores

/-- What is kept on the way there: one step less is needed after each, and a single step back
would lead to the history before it. -/
lemma comesBack_replicate (ready : Nat → History → Prop) {there back : HistoryStep}
    (hstep : ∀ k h, ready (k + 1) h → ready k (h.step there) ∧ h.ComesBack [there, back])
    (k : Nat) (h : History) (hready : ready k h) :
    h.ComesBack (List.replicate k there ++ List.replicate k back) := by
  induction k generalizing h with
  | zero => simp [ComesBack]
  | succ k ih =>
    obtain ⟨hnext, hrun, hanswers⟩ := hstep k h hready
    obtain ⟨hrunRest, hanswersRest⟩ := ih (h.step there) hnext
    rw [List.replicate_succ, List.replicate_succ' (a := back), List.cons_append,
      ← List.append_assoc]
    refine ⟨?_, ?_⟩
    · rw [run_cons, run_append, hrunRest]
      exact hrun
    · rw [answers_cons, answers_append, hrunRest]
      intro a ha
      rw [List.mem_cons, List.mem_append] at ha
      rcases ha with ha | ha | ha
      · exact hanswers a (by simp [ha])
      · exact hanswersRest a ha
      · exact hanswers a (by simpa using Or.inr (by simpa using ha))

lemma answer_undo_restores {h : History} (hquiet : h.burst = none) (hne : h.undoStack ≠ []) :
    (h.answer .undo).Restores := by
  obtain ⟨s, rest, hstack⟩ := List.exists_cons_of_ne_nil hne
  refine ⟨s, ?_⟩
  simp [answer, undone?, endBurst_of_quiet hquiet, hstack]

lemma answer_redo_restores {h : History} (hquiet : h.burst = none) (hne : h.redoStack ≠ []) :
    (h.answer .redo).Restores := by
  obtain ⟨s, rest, hstack⟩ := List.exists_cons_of_ne_nil hne
  refine ⟨s, ?_⟩
  simp [answer, redone?, endBurst_of_quiet hquiet, hstack]

section

variable {h : History} (hc : h.Consistent) (hquiet : h.burst = none)
include hc hquiet

/-- The entry that a redo puts back on the undo stack was the top of that stack. -/
lemma undo_comesBack (hne : h.undoStack ≠ []) : h.ComesBack [.undo, .redo] := by
  obtain ⟨s, rest, hstack⟩ := List.exists_cons_of_ne_nil hne
  have hundo := undo_of_quiet hquiet hstack
  have hquiet' : h.undo.burst = none := by rw [hundo, hquiet]
  have hstack' : h.undo.redoStack = h.current :: h.redoStack := by rw [hundo]
  have hdiffers : (s :: rest).IsChain Snapshot.Differs := by
    rw [← hstack]
    exact hc.undo_differs.tail
  have hroom : (s :: rest).length ≤ h.limit := by
    rw [← hstack]
    exact hc.depth_le
  constructor
  · calc
      h.undo.redo = { h with undoStack := rest }.push s := by
        rw [redo_of_quiet hquiet' hstack', hundo]
      _ = { h with undoStack := (s :: rest).take h.limit } := push_of_differs hdiffers
      _ = h := by rw [List.take_of_length_le hroom, ← hstack]
  · intro a ha
    obtain rfl | rfl : a = h.answer .undo ∨ a = (h.step .undo).answer .redo := by
      simpa using ha
    · exact answer_undo_restores hquiet hne
    · exact answer_redo_restores hquiet' (hstack' ▸ List.cons_ne_nil _ _)

/-- The entry that an undo takes off the undo stack was put there by the redo. -/
lemma redo_comesBack (hne : h.redoStack ≠ []) (hroom : h.undoStack.length < h.limit) :
    h.ComesBack [.redo, .undo] := by
  obtain ⟨s, rest, hstack⟩ := List.exists_cons_of_ne_nil hne
  have hdiffers : (h.current :: h.undoStack).IsChain Snapshot.Differs := by
    rw [← base_of_quiet hquiet]
    exact hc.undo_differs
  have hredo : h.redo = { h with
      current := s, undoStack := h.current :: h.undoStack, redoStack := rest } := by
    rw [redo_of_quiet hquiet hstack, push_of_differs]
    · simp only [List.take_of_length_le (l := h.current :: h.undoStack) hroom]
    · exact hdiffers
  have hquiet' : h.redo.burst = none := by rw [hredo, hquiet]
  have hstack' : h.redo.undoStack = h.current :: h.undoStack := by rw [hredo]
  constructor
  · change h.redo.undo = h
    rw [undo_of_quiet hquiet' hstack', hredo, ← hstack]
  · intro a ha
    obtain rfl | rfl : a = h.answer .redo ∨ a = (h.step .redo).answer .undo := by
      simpa using ha
    · exact answer_redo_restores hquiet hne
    · exact answer_undo_restores hquiet' (hstack' ▸ List.cons_ne_nil _ _)

/-- After each undo the history is still consistent and without a burst, and has one undo entry
less. -/
lemma undos_come_back {k : Nat} (hk : k ≤ h.undoStack.length) :
    h.ComesBack (List.replicate k .undo ++ List.replicate k .redo) := by
  apply comesBack_replicate fun k h =>
    h.Consistent ∧ h.burst = none ∧ k ≤ h.undoStack.length
  · rintro k h ⟨hc, hquiet, hk⟩
    obtain ⟨s, rest, hstack⟩ := List.exists_cons_of_length_pos (Nat.zero_lt_of_lt hk)
    have hundo := undo_of_quiet hquiet hstack
    have hdepth : h.undo.undoStack.length + 1 = h.undoStack.length := by simp [hundo, hstack]
    refine ⟨⟨hc.undo, ?_, ?_⟩, undo_comesBack hc hquiet (by simp [hstack])⟩
    · change h.undo.burst = none
      rw [hundo, hquiet]
    · change k ≤ h.undo.undoStack.length
      omega
  · exact ⟨hc, hquiet, hk⟩

/-- Each redo takes one redo entry away and one place below the limit. -/
lemma redos_come_back {j : Nat} (hj : j ≤ h.redoStack.length)
    (hroom : h.undoStack.length + j ≤ h.limit) :
    h.ComesBack (List.replicate j .redo ++ List.replicate j .undo) := by
  apply comesBack_replicate fun j h => h.Consistent ∧ h.burst = none ∧
    j ≤ h.redoStack.length ∧ h.undoStack.length + j ≤ h.limit
  · rintro j h ⟨hc, hquiet, hj, hroom⟩
    obtain ⟨s, rest, hstack⟩ := List.exists_cons_of_length_pos (Nat.zero_lt_of_lt hj)
    have hredo := redo_of_quiet hquiet hstack
    have hahead : h.redo.redoStack.length + 1 = h.redoStack.length := by simp [hredo, hstack]
    have hdepth : h.redo.undoStack.length ≤ h.undoStack.length + 1 := by
      rw [hredo]
      exact length_undoStack_push_le _ _
    have hlimit : h.redo.limit = h.limit := by rw [hredo, limit_push]
    refine ⟨⟨hc.redo, ?_, ?_, ?_⟩, redo_comesBack hc hquiet (by simp [hstack]) (by omega)⟩
    · change h.redo.burst = none
      rw [hredo, burst_push, hquiet]
    · change j ≤ h.redo.redoStack.length
      omega
    · change h.redo.undoStack.length + j ≤ h.redo.limit
      omega
  · exact ⟨hc, hquiet, hj, hroom⟩

end

/-- Whatever was done to a history, once its burst has ended it comes back from any number of
undos by as many redos, and from any number of redos that the limit has room for by as many
undos. -/
theorem undos_redos_come_back (content : Text) (limit pause : Nat) (steps : List HistoryStep) :
    let h := ((start content limit pause).run steps).endBurst
    (∀ k ≤ h.undoStack.length,
      h.ComesBack (List.replicate k .undo ++ List.replicate k .redo)) ∧
    ∀ j ≤ h.redoStack.length, h.undoStack.length + j ≤ h.limit →
      h.ComesBack (List.replicate j .redo ++ List.replicate j .undo) := by
  intro h
  have hc : h.Consistent := ((consistent_start content limit pause).run steps).endBurst
  have hquiet : h.burst = none := burst_endBurst _
  constructor
  · intro k hk
    exact undos_come_back hc hquiet hk
  · intro j hj hroom
    exact redos_come_back hc hquiet hj hroom

/-- One undo and two redos around the end of a burst that was taken back. -/
theorem undos_redos_come_back_typed :
    let h := ((start [] 3 300).run [.edit (.atOrigin ['a']), .edit (.atOrigin ['b']),
      .burstEdit (.atOrigin ['c']) 0, .undo, .undo, .burstEdit (.atOrigin ['d']) 5,
      .burstEdit (.atOrigin ['a']) 6]).endBurst
    1 ≤ h.undoStack.length ∧ 2 ≤ h.redoStack.length ∧ h.undoStack.length + 2 ≤ h.limit ∧
      h.ComesBack [.undo, .redo] ∧ h.ComesBack [.redo, .redo, .undo, .undo] := by
  intro h
  have hdepth : 1 ≤ h.undoStack.length := by decide
  have hahead : 2 ≤ h.redoStack.length := by decide
  have hroom : h.undoStack.length + 2 ≤ h.limit := by decide
  obtain ⟨hundos, hredos⟩ := undos_redos_come_back [] 3 300 [.edit (.atOrigin ['a']),
    .edit (.atOrigin ['b']), .burstEdit (.atOrigin ['c']) 0, .undo, .undo,
    .burstEdit (.atOrigin ['d']) 5, .burstEdit (.atOrigin ['a']) 6]
  exact ⟨hdepth, hahead, hroom, hundos 1 hdepth, hredos 2 hahead hroom⟩

end History
end EditingEngine
