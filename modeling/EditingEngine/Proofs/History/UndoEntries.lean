import EditingEngine.Proofs.History.Inverse

/-!
# Undo entries one by one

An edit that changes the text puts the snapshot from before it on the undo stack, where
it stays above all older entries until the limit pushes it out. Edits that change no text
and moved carets put nothing there. So the latest entries are the snapshots from before
the latest edits that changed the text, and as many undos bring them back one by one. The
limit of a history is changed by nothing but a step that sets it.
-/
namespace EditingEngine.History

section limit

variable (h : History)

@[simp] theorem limit_endBurst : h.endBurst.limit = h.limit := by
  cases hc : h.isChanged with
  | false => rw [endBurst_of_same hc]
  | true => rw [endBurst_of_changed hc, limit_push]

@[simp] theorem limit_edit (next : Snapshot) : (h.edit next).limit = h.limit := by
  by_cases hsame : next.content = h.current.content
  · rw [edit_of_same hsame]
    exact limit_endBurst h
  · rw [edit_of_differs hsame, limit_push]
    exact limit_endBurst h

@[simp] theorem limit_undo : h.undo.limit = h.limit := by
  cases hstack : h.endBurst.undoStack with
  | nil => rw [undo_of_nil hstack, limit_endBurst]
  | cons s rest =>
    rw [undo_of_cons hstack]
    exact limit_endBurst h

@[simp] theorem limit_redo : h.redo.limit = h.limit := by
  cases hstack : h.endBurst.redoStack with
  | nil => rw [redo_of_nil hstack, limit_endBurst]
  | cons s rest =>
    rw [redo_of_cons hstack, limit_push]
    exact limit_endBurst h

/-- Where an edit changes no text, its text is the current one already. -/
@[simp] theorem current_edit (next : Snapshot) : (h.edit next).current = next := by
  by_cases hsame : next.content = h.current.content
  · have hmoved : (h.edit next).current = ⟨h.current.content, next.caret⟩ := by
      rw [edit_of_same hsame, moveCaret, current_endBurst]
    rw [hmoved, ← hsame]
  · rw [edit_of_differs hsame, current_push]

theorem limit_step {h : History} (hlimit : 1 ≤ h.limit) {s : HistoryStep}
    (hs : ∀ limit, s ≠ .withLimit limit) : (h.step s).limit = h.limit := by
  cases s with
  | edit next => exact limit_edit h next
  | burstEdit next now => exact limit_burstEdit h next now
  | tick now =>
    simp only [step, tick]
    split
    · exact limit_endBurst h
    · rfl
  | endBurst => exact limit_endBurst h
  | undo => exact limit_undo h
  | redo => exact limit_redo h
  | restart content => exact limit_restart hlimit content
  | withLimit limit => exact absurd rfl (hs limit)
  | moveCaret | withPause => rfl

end limit

/-- Each answer is asked of the history that the steps before it lead to. -/
lemma getElem?_answers (h : History) (steps : List HistoryStep) (i : Nat) :
    (h.answers steps)[i]? = steps[i]?.map fun s => (h.run (steps.take i)).answer s := by
  induction steps generalizing h i with
  | nil => simp
  | cons s rest ih =>
    cases i with
    | zero => simp
    | succ i => simpa using ih (h.step s) i

/-- The latest undo entries are the given ones, and undoing them does not have to end a burst. -/
structure Undoes (h : History) (entries : List Snapshot) : Prop where
  consistent : h.Consistent
  undoStack : entries <+: h.undoStack
  quiet : entries ≠ [] → h.burst = none

/-- A consistent history undoes to no entries, whatever burst goes on. -/
lemma undoes_nil {h : History} (hc : h.Consistent) : h.Undoes [] :=
  ⟨hc, List.nil_prefix, fun hne => absurd rfl hne⟩

section

variable {h : History} {entries : List Snapshot} (hu : h.Undoes entries)
include hu

lemma Undoes.endBurst : h.endBurst.Undoes entries := by
  refine ⟨hu.consistent.endBurst, ?_, fun _ => burst_endBurst h⟩
  cases entries with
  | nil => exact List.nil_prefix
  | cons s rest =>
    rw [endBurst_of_quiet (hu.quiet (List.cons_ne_nil _ _))]
    exact hu.undoStack

lemma Undoes.moveCaret (caret : Caret) : (h.moveCaret caret).Undoes entries :=
  ⟨hu.consistent.moveCaret caret, hu.undoStack, hu.quiet⟩

lemma Undoes.edit_of_same {next : Snapshot} (hsame : next.content = h.current.content) :
    (h.edit next).Undoes entries := by
  rw [History.edit_of_same hsame]
  exact hu.endBurst.moveCaret next.caret

/-- A changed text leaves one more entry behind, if the limit has room for it. -/
lemma Undoes.edit_of_differs {next : Snapshot} (hne : next.content ≠ h.current.content)
    (hroom : entries.length < h.limit) : (h.edit next).Undoes (h.current :: entries) := by
  have hedit := History.edit_of_differs hne
  refine ⟨hu.consistent.edit next, ?_, fun _ => burst_edit h next⟩
  rw [hedit, push_of_differs]
  · refine List.prefix_take_iff.mpr ⟨List.cons_prefix_cons.mpr ⟨rfl, hu.endBurst.undoStack⟩, ?_⟩
    change entries.length + 1 ≤ h.endBurst.limit
    rwa [limit_endBurst]
  · exact hu.consistent.undo_current

end

lemma Undoes.undo {h : History} {s : Snapshot} {rest : List Snapshot}
    (hu : h.Undoes (s :: rest)) :
    h.undone? = some s ∧ h.undo.current = s ∧ h.undo.Undoes rest := by
  have hquiet := hu.quiet (List.cons_ne_nil _ _)
  obtain ⟨older, hstack⟩ := hu.undoStack
  have hundo := undo_of_quiet hquiet (hstack.symm : h.undoStack = s :: (rest ++ older))
  have hundone : h.undone? = some s := by rw [undone?, endBurst_of_quiet hquiet, ← hstack]; rfl
  refine ⟨hundone, current_undo hundone, hu.consistent.undo, ?_, fun _ => ?_⟩
  · rw [hundo]
    exact List.prefix_append rest older
  · rw [hundo]
    exact hquiet

/-- Every undo brings back the next entry. -/
lemma Undoes.undos {h : History} {entries : List Snapshot} (hu : h.Undoes entries) {i : Nat}
    {s : Snapshot} (hs : entries[i]? = some s) :
    (h.run (List.replicate i .undo)).undone? = some s ∧
      (h.run (List.replicate (i + 1) .undo)).current = s := by
  induction i generalizing h entries with
  | zero =>
    obtain ⟨rest, rfl⟩ := List.head?_eq_some_iff.mp (List.head?_eq_getElem? ▸ hs)
    exact ⟨hu.undo.1, hu.undo.2.1⟩
  | succ i ih =>
    cases entries with
    | nil => simp at hs
    | cons t rest => exact ih hu.undo.2.2 hs

/-- As many redos lead back to where the undos began. -/
lemma Undoes.redos {h : History} {entries : List Snapshot} (hu : h.Undoes entries) :
    let undone := h.run (List.replicate entries.length .undo)
    (∀ i < entries.length, ((undone.run (List.replicate i .redo)).redone?).isSome) ∧
      undone.run (List.replicate entries.length .redo) = h := by
  intro undone
  rcases List.eq_nil_or_concat entries with rfl | ⟨front, last, hentries⟩
  · exact ⟨by simp, rfl⟩
  · have hquiet := hu.quiet (by simp [hentries])
    obtain ⟨hrun, hanswers⟩ := undos_come_back hu.consistent hquiet hu.undoStack.length_le
    rw [run_append] at hrun
    rw [answers_append] at hanswers
    refine ⟨?_, hrun⟩
    intro i hi
    have hasked : ((undone.answers (List.replicate entries.length .redo))[i]?) =
        some (undone.run (List.replicate i .redo) |>.answer .redo) := by
      rw [getElem?_answers, List.getElem?_replicate_of_lt hi, List.take_replicate,
        Nat.min_eq_left hi.le]
      rfl
    obtain ⟨s, hs⟩ := hanswers _ (List.mem_append_right _ (List.mem_of_getElem? hasked))
    have hredone : (undone.run (List.replicate i .redo)).redone? = some s := by
      simpa [answer] using hs
    simp [hredone]

end EditingEngine.History
