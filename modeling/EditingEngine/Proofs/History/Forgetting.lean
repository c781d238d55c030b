import EditingEngine.Proofs.History.Timeline

/-!
# A limit only forgets

Two histories with different limits that take the same steps stay alike in everything but
their undo stacks, and there the lower limit has only taken the oldest entries away. The
snapshots to be put on the undo stacks are the same, and none of them is on top already,
so it does not matter that the top entry may be there in one history and forgotten in the
other. Only an undo that the lower limit no longer allows leads them apart.
-/
namespace EditingEngine.History

/-- The first history is the second one, but for a limit that is no higher and the oldest undo
entries. -/
structure CutFrom (h g : History) : Prop where
  current : h.current = g.current
  undoStack : h.undoStack <+: g.undoStack
  redoStack : h.redoStack = g.redoStack
  limit_le : h.limit ≤ g.limit
  pause : h.pause = g.pause
  burst : h.burst = g.burst

lemma cutFrom_start (content : Text) {limit larger : Nat} (hle : limit ≤ larger) (pause : Nat) :
    (start content limit pause).CutFrom (start content larger pause) := by
  have hlimit : max limit 1 ≤ max larger 1 := by omega
  exact ⟨rfl, List.nil_prefix, rfl, hlimit, rfl, rfl⟩

section

variable {h g : History} (hcut : h.CutFrom g)
include hcut

lemma CutFrom.base : h.base = g.base := by
  simp only [History.base, hcut.burst, hcut.current]

lemma CutFrom.isChanged : h.isChanged = g.isChanged := by
  simp only [History.isChanged, hcut.base, hcut.current]

lemma CutFrom.isDue (now : Nat) : h.isDue now = g.isDue now := by
  simp only [History.isDue, hcut.burst]

/-- A lower limit forgets no entry earlier than it has to, so both stacks get the new one. -/
lemma CutFrom.push {s : Snapshot} (hs : (s :: g.undoStack).IsChain Snapshot.Differs) :
    (h.push s).CutFrom (g.push s) := by
  have hnewest : s :: h.undoStack <+: s :: g.undoStack :=
    List.cons_prefix_cons.mpr ⟨rfl, hcut.undoStack⟩
  have hdiffers := List.IsChain.prefix hs hnewest
  rw [push_of_differs hdiffers, push_of_differs hs]
  refine ⟨hcut.current, ?_, hcut.redoStack, hcut.limit_le, hcut.pause, hcut.burst⟩
  refine List.prefix_take_iff.mpr ⟨(List.take_prefix _ _).trans hnewest, ?_⟩
  exact (List.length_take_le _ _).trans hcut.limit_le

variable (hg : g.Consistent)
include hg

lemma CutFrom.endBurst : h.endBurst.CutFrom g.endBurst := by
  cases hc : g.isChanged with
  | false =>
    rw [endBurst_of_same hc, endBurst_of_same (hcut.isChanged.trans hc)]
    exact ⟨hcut.current, hcut.undoStack, hcut.redoStack, hcut.limit_le, hcut.pause, rfl⟩
  | true =>
    rw [endBurst_of_changed hc, endBurst_of_changed (hcut.isChanged.trans hc), hcut.base]
    apply CutFrom.push
    · exact ⟨hcut.current, hcut.undoStack, rfl, hcut.limit_le, hcut.pause, rfl⟩
    · exact hg.undo_differs

omit hg in
lemma CutFrom.moveCaret (caret : Caret) : (h.moveCaret caret).CutFrom (g.moveCaret caret) := by
  refine ⟨?_, hcut.undoStack, hcut.redoStack, hcut.limit_le, hcut.pause, hcut.burst⟩
  simp only [History.moveCaret, hcut.current]

lemma CutFrom.edit (next : Snapshot) : (h.edit next).CutFrom (g.edit next) := by
  have hend := hcut.endBurst hg
  by_cases hsame : next.content = g.current.content
  · rw [edit_of_same hsame, edit_of_same (hcut.current ▸ hsame)]
    exact hend.moveCaret next.caret
  · rw [edit_of_differs hsame, edit_of_differs (hcut.current ▸ hsame), hcut.current]
    apply CutFrom.push
    · exact ⟨rfl, hend.undoStack, rfl, hend.limit_le, hend.pause, hend.burst⟩
    · exact hg.undo_current

omit hg in
lemma CutFrom.burstEdit (next : Snapshot) (now : Nat) :
    (h.burstEdit next now).CutFrom (g.burstEdit next now) := by
  cases hb : g.burst with
  | some b =>
    simp only [History.burstEdit, hcut.burst, hb, hcut.pause]
    exact ⟨rfl, hcut.undoStack, hcut.redoStack, hcut.limit_le, rfl, rfl⟩
  | none =>
    simp only [History.burstEdit, hcut.burst, hb, hcut.pause, hcut.current]
    split
    · exact hcut.moveCaret next.caret
    · exact ⟨rfl, hcut.undoStack, hcut.redoStack, hcut.limit_le, rfl, rfl⟩

lemma CutFrom.redo : h.redo.CutFrom g.redo := by
  have hend := hcut.endBurst hg
  cases hstack : g.endBurst.redoStack with
  | nil =>
    rw [redo_of_nil hstack, redo_of_nil (hend.redoStack.trans hstack)]
    exact hend
  | cons s rest =>
    rw [redo_of_cons hstack, redo_of_cons (hend.redoStack.trans hstack), hcut.current]
    apply CutFrom.push
    · exact ⟨rfl, hend.undoStack, rfl, hend.limit_le, hend.pause, hend.burst⟩
    · exact hg.undo_current

/-- Unless the lower limit has left no entry for an undo, both histories find the same one. -/
lemma CutFrom.undoStack_cases (hundo : g.undone?.isSome → h.undone?.isSome) :
    (h.endBurst.undoStack = [] ∧ g.endBurst.undoStack = []) ∨
      ∃ s newer older, h.endBurst.undoStack = s :: newer ∧ g.endBurst.undoStack = s :: older ∧
        newer <+: older := by
  have hnewest := (hcut.endBurst hg).undoStack
  unfold undone? at hundo
  cases hstack : g.endBurst.undoStack with
  | nil =>
    rw [hstack, List.prefix_nil] at hnewest
    exact Or.inl ⟨hnewest, rfl⟩
  | cons s older =>
    rw [hstack] at hnewest hundo
    rcases List.prefix_cons_iff.mp hnewest with hnil | ⟨newer, hnewer, hle⟩
    · simp [hnil] at hundo
    · exact Or.inr ⟨s, newer, older, hnewer, rfl, hle⟩

lemma CutFrom.undone?_eq (hundo : g.undone?.isSome → h.undone?.isSome) : h.undone? = g.undone? := by
  unfold undone?
  rcases hcut.undoStack_cases hg hundo with ⟨hh, hg⟩ | ⟨s, newer, older, hh, hg, _⟩
  · rw [hh, hg]
  · rw [hh, hg, List.head?_cons, List.head?_cons]

lemma CutFrom.undo (hundo : g.undone?.isSome → h.undone?.isSome) : h.undo.CutFrom g.undo := by
  have hend := hcut.endBurst hg
  rcases hcut.undoStack_cases hg hundo with ⟨hh, hg⟩ | ⟨s, newer, older, hh, hg, hle⟩
  · rw [undo_of_nil hh, undo_of_nil hg]
    exact hend
  · rw [undo_of_cons hh, undo_of_cons hg, hcut.current, hend.redoStack]
    exact ⟨rfl, hle, rfl, hend.limit_le, hend.pause, hend.burst⟩

theorem CutFrom.step {s : HistoryStep} (hlimit : ∀ limit, s ≠ .withLimit limit)
    (hundo : s = .undo → g.undone?.isSome → h.undone?.isSome) :
    (h.step s).CutFrom (g.step s) := by
  cases s with
  | edit next => exact hcut.edit hg next
  | burstEdit next now => exact hcut.burstEdit next now
  | tick now =>
    simp only [History.step, tick, hcut.isDue]
    split
    · exact hcut.endBurst hg
    · exact hcut
  | endBurst => exact hcut.endBurst hg
  | undo => exact hcut.undo hg (hundo rfl)
  | redo => exact hcut.redo hg
  | moveCaret caret => exact hcut.moveCaret caret
  | restart content =>
    simp only [History.step, restart, hcut.pause]
    exact cutFrom_start content hcut.limit_le g.pause
  | withLimit limit => exact absurd rfl (hlimit limit)
  | withPause pause =>
    exact ⟨hcut.current, hcut.undoStack, hcut.redoStack, hcut.limit_le, rfl, hcut.burst⟩

theorem CutFrom.answer (hh : h.Consistent) {s : HistoryStep}
    (hundo : s = .undo → g.undone?.isSome → h.undone?.isSome) : h.answer s = g.answer s := by
  have hcounts : h.burstCounts = g.burstCounts := by
    rw [hh.burstCounts_eq, hg.burstCounts_eq, hcut.isChanged]
  cases s with
  | tick now => simp only [History.answer, hcut.isDue, hcounts]
  | endBurst => simp only [History.answer, hcounts]
  | undo => simp only [History.answer, hcut.undone?_eq hg (hundo rfl)]
  | redo => simp only [History.answer, redone?, (hcut.endBurst hg).redoStack]
  | edit | burstEdit | moveCaret | restart | withLimit | withPause => rfl

end

/-- The induction is on the steps, with both histories generalised: the premise on undos speaks of
the runs up to each of them. -/
lemma CutFrom.run {h g : History} (hcut : h.CutFrom g) (hh : h.Consistent) (hg : g.Consistent)
    {steps : List HistoryStep} (hlimit : ∀ s ∈ steps, ∀ limit, s ≠ .withLimit limit)
    (hundo : ∀ i < steps.length, steps[i]? = some .undo →
      (g.run (steps.take i)).undone?.isSome → (h.run (steps.take i)).undone?.isSome) :
    (h.run steps).CutFrom (g.run steps) ∧ h.answers steps = g.answers steps := by
  induction steps generalizing h g with
  | nil => exact ⟨hcut, rfl⟩
  | cons s rest ih =>
    rw [List.forall_mem_cons] at hlimit
    have hfirst : s = .undo → g.undone?.isSome → h.undone?.isSome := by
      rintro rfl
      exact hundo 0 (Nat.zero_lt_succ _) rfl
    have hrest : ∀ i < rest.length, rest[i]? = some .undo →
        ((g.step s).run (rest.take i)).undone?.isSome →
          ((h.step s).run (rest.take i)).undone?.isSome := by
      intro i hi
      exact hundo (i + 1) (Nat.succ_lt_succ hi)
    have hstep := hcut.step hg hlimit.1 hfirst
    obtain ⟨hrun, hanswers⟩ := ih hstep (hh.step s) (hg.step s) hlimit.2 hrest
    refine ⟨hrun, ?_⟩
    rw [answers_cons, answers_cons, hcut.answer hg hh hfirst, hanswers]

/-- Two histories of the same text, pause and steps, none of which sets the limit, differ only in
what the lower limit has forgotten, as long as every undo that finds an entry under the higher
limit finds one under the lower limit, too: they answer all steps alike, show the same snapshot,
can redo the same and are in the same burst, and the undo stack of the lower limit is the newest
part of the other one. -/
theorem limit_forgets_oldest (content : Text) (limit larger pause : Nat)
    (steps : List HistoryStep) (hle : limit ≤ larger)
    (hsteps : ∀ s ∈ steps, ∀ n, s ≠ .withLimit n) :
    let h := start content limit pause
    let g := start content larger pause
    (∀ i < steps.length, steps[i]? = some .undo →
      (g.run (steps.take i)).undone?.isSome → (h.run (steps.take i)).undone?.isSome) →
    h.answers steps = g.answers steps ∧
    (h.run steps).current = (g.run steps).current ∧
    (h.run steps).redoStack = (g.run steps).redoStack ∧
    (h.run steps).burst = (g.run steps).burst ∧
    (h.run steps).undoStack <+: (g.run steps).undoStack := by
  intro h g hundo
  have hh := consistent_start content limit pause
  have hg := consistent_start content larger pause
  obtain ⟨hcut, hanswers⟩ := (cutFrom_start content hle pause).run hh hg hsteps hundo
  exact ⟨hanswers, hcut.current, hcut.redoStack, hcut.burst, hcut.undoStack⟩

/-- The lower limit has forgotten the entry that would be on top before the burst ends, and the
burst is ended by the undo. -/
theorem limit_forgets_oldest_typed :
    let h := start [] 1 300
    let g := start [] 2 300
    let steps : List HistoryStep := [.edit (.atOrigin ['a']), .edit (.atOrigin ['b']), .undo,
      .burstEdit (.atOrigin ['c']) 0, .undo, .moveCaret ⟨1, 2, 1⟩, .redo,
      .burstEdit (.atOrigin ['d']) 10]
    1 ≤ 2 ∧ (∀ s ∈ steps, ∀ n, s ≠ .withLimit n) ∧
    (∀ i < steps.length, steps[i]? = some .undo →
      (g.run (steps.take i)).undone?.isSome → (h.run (steps.take i)).undone?.isSome) ∧
    h.answers steps = g.answers steps ∧ (h.run steps).burst = (g.run steps).burst ∧
    (h.run steps).undoStack = [⟨['a'], ⟨1, 2, 1⟩⟩] ∧
    (g.run steps).undoStack = [⟨['a'], ⟨1, 2, 1⟩⟩, .atOrigin []] ∧
    (h.run steps).undoStack <+: (g.run steps).undoStack := by
  intro h g steps
  have hsteps : ∀ s ∈ steps, ∀ n, s ≠ .withLimit n := by simp [steps]
  have hundo : ∀ i < steps.length, steps[i]? = some .undo →
      (g.run (steps.take i)).undone?.isSome → (h.run (steps.take i)).undone?.isSome := by decide
  obtain ⟨hanswers, _, _, hburst, hundoStack⟩ :=
    limit_forgets_oldest [] 1 2 300 steps (by decide) hsteps hundo
  exact ⟨by decide, hsteps, hundo, hanswers, hburst, by decide, by decide, hundoStack⟩

end EditingEngine.History
