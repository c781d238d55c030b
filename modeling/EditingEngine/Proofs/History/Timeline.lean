import EditingEngine.Proofs.History.Bursts
import Mathlib.Data.List.Chain

/-!
# The timeline of a history

The undo stack from its oldest entry, the base and the redo stack from its nearest entry
form one row of snapshots. A history is consistent if neighbours in this row have
different texts and the undo stack respects a positive limit. Every history that a run
can lead to is consistent. So an undo or redo that brings a snapshot back changes the
text, and a snapshot to be put on the undo stack is never there on top.
-/
namespace EditingEngine

/-- Two snapshots with different texts. -/
def Snapshot.Differs (a b : Snapshot) : Prop := a.content ≠ b.content

/-- Only the text of the first snapshot of a row counts, not its caret. -/
lemma Snapshot.isChain_cons_congr {a b : Snapshot} (h : a.content = b.content)
    (l : List Snapshot) : (a :: l).IsChain Differs ↔ (b :: l).IsChain Differs := by
  cases l with
  | nil => simp
  | cons c l => simp only [List.isChain_cons_cons, Differs, h]

namespace History

/-- The snapshots that undoing and redoing pass through, from the oldest to the last undone. -/
def timeline (h : History) : List Snapshot := h.undoStack.reverse ++ h.base :: h.redoStack

structure Consistent (h : History) : Prop where
  undo_differs : (h.base :: h.undoStack).IsChain Snapshot.Differs
  redo_differs : (h.base :: h.redoStack).IsChain Snapshot.Differs
  depth_le : h.undoStack.length ≤ h.limit
  limit_pos : 1 ≤ h.limit

theorem isChain_timeline_iff (h : History) :
    h.timeline.IsChain Snapshot.Differs ↔ (h.base :: h.undoStack).IsChain Snapshot.Differs ∧
      (h.base :: h.redoStack).IsChain Snapshot.Differs := by
  have hback : (h.undoStack.reverse ++ [h.base]).IsChain Snapshot.Differs ↔
      (h.base :: h.undoStack).IsChain Snapshot.Differs := by
    rw [← List.reverse_cons, List.isChain_reverse]
    have hsymm : (fun a b => Snapshot.Differs b a) = Snapshot.Differs := by
      funext a b
      exact propext ⟨Ne.symm, Ne.symm⟩
    rw [hsymm]
  rw [timeline, List.isChain_split, hback]

lemma pushes_of_differs {h : History} {s : Snapshot}
    (hs : (s :: h.undoStack).IsChain Snapshot.Differs) : h.pushes s = true := by
  unfold pushes
  cases hstack : h.undoStack with
  | nil => rfl
  | cons t rest =>
    rw [hstack, List.isChain_cons_cons] at hs
    have hne : t ≠ s := fun heq => hs.1 (by rw [heq])
    simpa using hne

lemma push_of_differs {h : History} {s : Snapshot}
    (hs : (s :: h.undoStack).IsChain Snapshot.Differs) :
    h.push s = { h with undoStack := (s :: h.undoStack).take h.limit } := by
  have hhead : h.undoStack.head? ≠ some s := by simpa [pushes] using pushes_of_differs hs
  rw [push, if_neg hhead, forgetOldest]

lemma consistent_of_quiet {h : History} (hquiet : h.burst = none)
    (hundo : (h.current :: h.undoStack).IsChain Snapshot.Differs)
    (hredo : (h.current :: h.redoStack).IsChain Snapshot.Differs)
    (hdepth : h.undoStack.length ≤ h.limit) (hlimit : 1 ≤ h.limit) : h.Consistent := by
  rw [← base_of_quiet hquiet] at hundo hredo
  exact ⟨hundo, hredo, hdepth, hlimit⟩

lemma consistent_push {h : History} {s : Snapshot} (hquiet : h.burst = none)
    (hundo : (h.current :: s :: h.undoStack).IsChain Snapshot.Differs)
    (hredo : (h.current :: h.redoStack).IsChain Snapshot.Differs) (hlimit : 1 ≤ h.limit) :
    (h.push s).Consistent := by
  rw [push_of_differs hundo.tail]
  apply consistent_of_quiet
  · exact hquiet
  · exact hundo.take (h.limit + 1)
  · exact hredo
  · exact List.length_take_le _ _
  · exact hlimit

theorem consistent_start (content : Text) (limit pause : Nat) :
    (start content limit pause).Consistent := by
  apply consistent_of_quiet
  · rfl
  · simp [start]
  · simp [start]
  · exact Nat.zero_le _
  · exact Nat.le_max_right limit 1

section

variable {h : History} (hc : h.Consistent)
include hc

/-- Only the stacks, the limit and the text of the base count. -/
lemma Consistent.congr {g : History} (hbase : h.base.content = g.base.content)
    (hundo : h.undoStack = g.undoStack) (hredo : h.redoStack = g.redoStack)
    (hlimit : h.limit = g.limit) : g.Consistent := by
  refine ⟨?_, ?_, ?_, ?_⟩
  · rw [← hundo]
    exact (Snapshot.isChain_cons_congr hbase _).mp hc.undo_differs
  · rw [← hredo]
    exact (Snapshot.isChain_cons_congr hbase _).mp hc.redo_differs
  · rw [← hundo, ← hlimit]
    exact hc.depth_le
  · rw [← hlimit]
    exact hc.limit_pos

lemma Consistent.endBurst : h.endBurst.Consistent := by
  cases hchanged : h.isChanged with
  | false =>
    rw [endBurst_of_same hchanged]
    exact hc.congr (content_base hchanged) rfl rfl rfl
  | true =>
    have hne : h.base.content ≠ h.current.content := by simpa [isChanged] using hchanged
    rw [endBurst_of_changed hchanged]
    apply consistent_push rfl
    · exact List.isChain_cons_cons.mpr ⟨hne.symm, hc.undo_differs⟩
    · simp
    · exact hc.limit_pos

lemma Consistent.undo_current : (h.current :: h.endBurst.undoStack).IsChain Snapshot.Differs := by
  have hundo := hc.endBurst.undo_differs
  rwa [base_endBurst] at hundo

lemma Consistent.redo_current : (h.current :: h.endBurst.redoStack).IsChain Snapshot.Differs := by
  have hredo := hc.endBurst.redo_differs
  rwa [base_endBurst] at hredo

/-- The end of a burst that has changed the text always adds an entry. -/
lemma Consistent.burstCounts_eq : h.burstCounts = h.isChanged := by
  cases hb : h.burst with
  | none => simp [burstCounts, hb, isChanged_of_quiet hb]
  | some b =>
    have hundo := hc.undo_differs
    simp only [base, hb] at hundo
    simp only [burstCounts, isChanged, base, hb]
    rw [pushes_of_differs hundo, Bool.and_true]

lemma Consistent.moveCaret (caret : Caret) : (h.moveCaret caret).Consistent :=
  hc.congr (content_base_moveCaret h caret).symm rfl rfl rfl

lemma Consistent.edit (next : Snapshot) : (h.edit next).Consistent := by
  by_cases hsame : next.content = h.current.content
  · rw [edit_of_same hsame]
    exact hc.endBurst.moveCaret next.caret
  · rw [edit_of_differs hsame]
    apply consistent_push
    · exact burst_endBurst h
    · exact List.isChain_cons_cons.mpr ⟨hsame, hc.undo_current⟩
    · simp
    · exact hc.endBurst.limit_pos

lemma Consistent.burstEdit (next : Snapshot) (now : Nat) : (h.burstEdit next now).Consistent := by
  apply hc.congr <;> simp

lemma Consistent.tick (now : Nat) : (h.tick now).Consistent := by
  unfold History.tick
  split
  · exact hc.endBurst
  · exact hc

lemma Consistent.undo : h.undo.Consistent := by
  have hundo := hc.undo_current
  have hdepth := hc.endBurst.depth_le
  cases hstack : h.endBurst.undoStack with
  | nil =>
    rw [undo_of_nil hstack]
    exact hc.endBurst
  | cons s rest =>
    rw [hstack, List.isChain_cons_cons] at hundo
    rw [hstack] at hdepth
    rw [undo_of_cons hstack]
    apply consistent_of_quiet
    · exact burst_endBurst h
    · exact hundo.2
    · exact List.isChain_cons_cons.mpr ⟨hundo.1.symm, hc.redo_current⟩
    · exact Nat.le_of_succ_le hdepth
    · exact hc.endBurst.limit_pos

lemma Consistent.redo : h.redo.Consistent := by
  have hredo := hc.redo_current
  cases hstack : h.endBurst.redoStack with
  | nil =>
    rw [redo_of_nil hstack]
    exact hc.endBurst
  | cons s rest =>
    rw [hstack, List.isChain_cons_cons] at hredo
    rw [redo_of_cons hstack]
    apply consistent_push
    · exact burst_endBurst h
    · exact List.isChain_cons_cons.mpr ⟨hredo.1.symm, hc.undo_current⟩
    · exact hredo.2
    · exact hc.endBurst.limit_pos

lemma Consistent.withLimit (limit : Nat) : (h.withLimit limit).Consistent := by
  refine ⟨?_, hc.redo_differs, List.length_take_le _ _, Nat.le_max_right limit 1⟩
  exact hc.undo_differs.take (max limit 1 + 1)

theorem Consistent.step (s : HistoryStep) : (h.step s).Consistent := by
  cases s with
  | edit next => exact hc.edit next
  | burstEdit next now => exact hc.burstEdit next now
  | tick now => exact hc.tick now
  | endBurst => exact hc.endBurst
  | undo => exact hc.undo
  | redo => exact hc.redo
  | moveCaret caret => exact hc.moveCaret caret
  | restart content => exact consistent_start content h.limit h.pause
  | withLimit limit => exact hc.withLimit limit
  | withPause pause => exact hc.congr rfl rfl rfl rfl

end

theorem Consistent.run {h : History} (hc : h.Consistent) (steps : List HistoryStep) :
    (h.run steps).Consistent := by
  induction steps generalizing h with
  | nil => exact hc
  | cons s rest ih => exact ih (hc.step s)

section

variable (put : History → Snapshot → History) (h : History)

/-- The end of a burst, with `put` in the place of `push`. -/
def endBurstBy : History :=
  match h.burst with
  | none => h
  | some b =>
    if b.before.content = h.current.content then { h with burst := none }
    else put { h with burst := none, redoStack := [] } b.before

/-- A step, with `put` in the place of `push` wherever a snapshot goes on the undo stack. -/
def stepBy : HistoryStep → History
  | .edit next =>
    let quiet := h.endBurstBy put
    if next.content = quiet.current.content then quiet.moveCaret next.caret
    else put { quiet with current := next, redoStack := [] } quiet.current
  | .tick now => if h.isDue now then h.endBurstBy put else h
  | .endBurst => h.endBurstBy put
  | .undo =>
    let quiet := h.endBurstBy put
    match quiet.undoStack with
    | [] => quiet
    | s :: rest =>
      { quiet with current := s, undoStack := rest, redoStack := quiet.current :: quiet.redoStack }
  | .redo =>
    let quiet := h.endBurstBy put
    match quiet.redoStack with
    | [] => quiet
    | s :: rest => put { quiet with current := s, redoStack := rest } quiet.current
  | s => h.step s

@[simp] theorem stepBy_push (s : HistoryStep) : h.stepBy push s = h.step s := by
  cases s <;> rfl

end

/-- On a consistent history no step reaches the case in which `push` leaves a snapshot out, so
what is put in its place there does not matter. -/
lemma Consistent.stepBy_eq {h : History} (hc : h.Consistent)
    {put : History → Snapshot → History}
    (hput : ∀ g s, g.pushes s = true → put g s = g.push s) (step : HistoryStep) :
    h.stepBy put step = h.step step := by
  have hend : h.endBurstBy put = h.endBurst := by
    cases hb : h.burst with
    | none => simp only [endBurstBy, History.endBurst, hb]
    | some b =>
      have hundo := hc.undo_differs
      simp only [base, hb] at hundo
      simp only [endBurstBy, History.endBurst, hb]
      rw [hput { h with burst := none, redoStack := [] } b.before (pushes_of_differs hundo)]
  have hcurrent : ∀ g : History, g.undoStack = h.endBurst.undoStack →
      put g h.current = g.push h.current := by
    intro g hg
    apply hput
    apply pushes_of_differs
    rw [hg]
    exact hc.undo_current
  cases step with
  | edit next =>
    simp only [stepBy, hend, current_endBurst, hcurrent, History.step]
    by_cases hsame : next.content = h.current.content
    · rw [if_pos hsame, edit_of_same hsame]
    · rw [if_neg hsame, edit_of_differs hsame]
  | redo =>
    simp only [stepBy, hend, current_endBurst, hcurrent, History.step]
    cases hstack : h.endBurst.redoStack with
    | nil => rw [redo_of_nil hstack]
    | cons s rest => rw [redo_of_cons hstack]
  | tick | endBurst | undo =>
    simp only [stepBy, hend]
    rfl
  | burstEdit | moveCaret | restart | withLimit | withPause => rfl

/-- After every run, neighbours on the timeline have different texts. So an undo or redo that
brings a snapshot back changes the text, and no snapshot is left out because it is on top of the
undo stack already: a `put` that is only told apart from `push` there makes the same steps. -/
theorem timeline_differs (content : Text) (limit pause : Nat) (steps : List HistoryStep) :
    let h := (start content limit pause).run steps
    h.timeline.IsChain Snapshot.Differs ∧
      (∀ s, h.undone? = some s → h.undo.current = s ∧ s.content ≠ h.current.content) ∧
      (∀ s, h.redone? = some s → h.redo.current = s ∧ s.content ≠ h.current.content) ∧
      ∀ put : History → Snapshot → History,
        (∀ g s, g.pushes s = true → put g s = g.push s) →
          ∀ step, h.stepBy put step = h.step step := by
  intro h
  have hc : h.Consistent := (consistent_start content limit pause).run steps
  refine ⟨?_, ?_, ?_, ?_⟩
  · exact h.isChain_timeline_iff.mpr ⟨hc.undo_differs, hc.redo_differs⟩
  · intro s hs
    have hundo := hc.undo_current
    obtain ⟨rest, hstack⟩ := List.head?_eq_some_iff.mp hs
    rw [hstack, List.isChain_cons_cons] at hundo
    exact ⟨current_undo hs, hundo.1.symm⟩
  · intro s hs
    have hredo := hc.redo_current
    obtain ⟨rest, hstack⟩ := List.head?_eq_some_iff.mp hs
    rw [hstack, List.isChain_cons_cons] at hredo
    exact ⟨current_redo hs, hredo.1.symm⟩
  · intro put hput step
    exact hc.stepBy_eq hput step

/-- Two edits, a burst and an undo that ends it: there is something to undo and to redo. -/
theorem timeline_differs_typed :
    let h := (start [] 2 300).run [.edit (.atOrigin ['a']), .edit (.atOrigin ['b']),
      .burstEdit (.atOrigin ['c']) 0, .undo]
    let put := fun (g : History) s => { g with undoStack := s :: g.undoStack }.forgetOldest
    h.undone? = some (.atOrigin ['a']) ∧ ['a'] ≠ h.current.content ∧
      h.redone? = some (.atOrigin ['c']) ∧ ['c'] ≠ h.current.content ∧
      (∀ g s, g.pushes s = true → put g s = g.push s) ∧ h.stepBy put .redo = h.step .redo := by
  intro h put
  obtain ⟨_, hundo, hredo, hstep⟩ := timeline_differs [] 2 300 [.edit (.atOrigin ['a']),
    .edit (.atOrigin ['b']), .burstEdit (.atOrigin ['c']) 0, .undo]
  have hput : ∀ g s, g.pushes s = true → put g s = g.push s := by
    intro g s hg
    have hhead : g.undoStack.head? ≠ some s := by simpa [pushes] using hg
    rw [push, if_neg hhead]
  have hundone : h.undone? = some (.atOrigin ['a']) := by decide
  have hredone : h.redone? = some (.atOrigin ['c']) := by decide
  exact ⟨hundone, (hundo _ hundone).2, hredone, (hredo _ hredone).2, hput, hstep put hput .redo⟩

end History
end EditingEngine
