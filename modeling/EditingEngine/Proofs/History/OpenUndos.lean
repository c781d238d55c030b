import EditingEngine.Proofs.History.Bursts

/-!
# What a redo brings back

An undo stays open until it is redone or discarded. It is discarded when a new text
enters the history, be it by an edit or at the end of a burst, and when another text is
loaded. The open undos of a run are recorded here beside the history, each as the
history that was asked to undo, without a look at the redo stack. They turn out to
account for that stack: a redo brings back the snapshot that the latest open undo left,
and only to the text that this undo led to.
-/
namespace EditingEngine.History

section record

variable (h : History) (undos : List History)

/-- The open undos once the burst has ended: none of them if it has changed the text. -/
def keptOpen : List History := if h.isChanged then [] else undos

/-- The open undos after a step, the latest first. -/
def openAfter : HistoryStep → List History
  | .edit next => if next.content = h.current.content then h.keptOpen undos else []
  | .tick now => if h.isDue now then h.keptOpen undos else undos
  | .endBurst => h.keptOpen undos
  | .undo => if h.undone?.isSome then h :: h.keptOpen undos else h.keptOpen undos
  | .redo => (h.keptOpen undos).tail
  | .restart _ => []
  | .burstEdit _ _ | .moveCaret _ | .withLimit _ | .withPause _ => undos

/-- The open undos after some steps. -/
def openUndos (h : History) (undos : List History) : List HistoryStep → List History
  | [] => undos
  | s :: rest => (h.step s).openUndos (h.openAfter undos s) rest

end record

lemma keptOpen_of_same {h : History} (hsame : h.isChanged = false) (undos : List History) :
    h.keptOpen undos = undos := by
  simp [keptOpen, hsame]

lemma keptOpen_of_changed {h : History} (hchanged : h.isChanged = true) (undos : List History) :
    h.keptOpen undos = [] := by
  simp [keptOpen, hchanged]

@[simp] theorem keptOpen_nil (h : History) : h.keptOpen [] = [] := by
  simp [keptOpen]

lemma mem_of_mem_keptOpen {h u : History} {undos : List History} (hu : u ∈ h.keptOpen undos) :
    u ∈ undos := by
  unfold keptOpen at hu
  split at hu
  · cases hu
  · exact hu

lemma mem_openAfter {h u : History} {undos : List History} {s : HistoryStep}
    (hu : u ∈ h.openAfter undos s) : u ∈ undos ∨ s = .undo ∧ u = h := by
  cases s with
  | undo =>
    simp only [openAfter] at hu
    split at hu
    · rcases List.mem_cons.mp hu with rfl | hu
      · exact Or.inr ⟨rfl, rfl⟩
      · exact Or.inl (mem_of_mem_keptOpen hu)
    · exact Or.inl (mem_of_mem_keptOpen hu)
  | edit next =>
    simp only [openAfter] at hu
    split at hu
    · exact Or.inl (mem_of_mem_keptOpen hu)
    · cases hu
  | tick now =>
    simp only [openAfter] at hu
    split at hu
    · exact Or.inl (mem_of_mem_keptOpen hu)
    · exact Or.inl hu
  | endBurst => exact Or.inl (mem_of_mem_keptOpen hu)
  | redo => exact Or.inl (mem_of_mem_keptOpen (List.mem_of_mem_tail hu))
  | restart content => cases hu
  | burstEdit | moveCaret | withLimit | withPause => exact Or.inl hu

/-- Every open undo was asked of the history at a point of the run. -/
lemma mem_openUndos {h u : History} {undos : List History} {steps : List HistoryStep}
    (hu : u ∈ h.openUndos undos steps) :
    u ∈ undos ∨ ∃ front back, steps = front ++ .undo :: back ∧ u = h.run front := by
  induction steps generalizing h undos with
  | nil => exact Or.inl hu
  | cons s rest ih =>
    rcases ih hu with hmem | ⟨front, back, rfl, rfl⟩
    · rcases mem_openAfter hmem with hmem | ⟨rfl, rfl⟩
      · exact Or.inl hmem
      · exact Or.inr ⟨[], rest, rfl, rfl⟩
    · exact Or.inr ⟨s :: front, back, rfl, rfl⟩

/-- The undos lead on from a text: the latest led to this text, and each one before it to the
text that the undo after it was asked in. -/
def LeadOn (text : Text) : List History → Prop
  | [] => True
  | u :: rest => u.undo.current.content = text ∧ LeadOn u.current.content rest

/-- The redo stack holds what the open undos left, and they lead on from the text of the base. -/
structure Accounts (h : History) (undos : List History) : Prop where
  redoStack_eq : h.redoStack = undos.map current
  leadOn : LeadOn h.base.content undos

section

variable {h : History} {undos : List History} (ha : h.Accounts undos)
include ha

lemma Accounts.congr {g : History} (hbase : h.base.content = g.base.content)
    (hredo : h.redoStack = g.redoStack) : g.Accounts undos := by
  refine ⟨?_, ?_⟩
  · rw [← hredo]
    exact ha.redoStack_eq
  · rw [← hbase]
    exact ha.leadOn

lemma Accounts.endBurst : h.endBurst.Accounts (h.keptOpen undos) := by
  have hstack := redoStack_endBurst h
  cases hchanged : h.isChanged with
  | false =>
    rw [keptOpen_of_same hchanged]
    apply ha.congr
    · rw [base_endBurst, content_base hchanged]
    · simp [hstack, hchanged]
  | true =>
    rw [keptOpen_of_changed hchanged]
    exact ⟨by simp [hstack, hchanged], trivial⟩

lemma Accounts.moveCaret (caret : Caret) : (h.moveCaret caret).Accounts undos :=
  ha.congr (content_base_moveCaret h caret).symm rfl

lemma Accounts.edit (next : Snapshot) :
    (h.edit next).Accounts (h.openAfter undos (.edit next)) := by
  by_cases hsame : next.content = h.current.content
  · rw [edit_of_same hsame, openAfter, if_pos hsame]
    exact ha.endBurst.moveCaret next.caret
  · rw [edit_of_differs hsame, openAfter, if_neg hsame]
    exact ⟨by simp, trivial⟩

/-- A new open undo leads to the text that it brought back, and was asked in the text that the
undo before it had led to. -/
lemma Accounts.undo : h.undo.Accounts (h.openAfter undos .undo) := by
  have hend := ha.endBurst
  have hlead := hend.leadOn
  rw [base_endBurst] at hlead
  cases hstack : h.endBurst.undoStack with
  | nil =>
    rw [undo_of_nil hstack]
    simpa [openAfter, undone?, hstack] using hend
  | cons s rest =>
    have hopen : h.openAfter undos .undo = h :: h.keptOpen undos := by
      simp [openAfter, undone?, hstack]
    have hundo := undo_of_cons hstack
    have hbase : h.undo.base = h.undo.current := base_of_quiet (burst_undo h)
    rw [hopen]
    constructor
    · rw [hundo, List.map_cons, hend.redoStack_eq]
    · rw [hbase]
      exact ⟨rfl, hlead⟩

lemma Accounts.redo : h.redo.Accounts (h.openAfter undos .redo) := by
  have hend := ha.endBurst
  have hlead := hend.leadOn
  have hstack := hend.redoStack_eq
  simp only [openAfter]
  cases hopen : h.keptOpen undos with
  | nil =>
    rw [hopen] at hend hstack
    rw [redo_of_nil hstack]
    exact hend
  | cons u rest =>
    rw [hopen] at hlead hstack
    have hredo := redo_of_cons hstack
    have hbase : h.redo.base = u.current := by
      rw [base_of_quiet (burst_redo h), hredo, current_push]
    constructor
    · rw [hredo, redoStack_push]
      rfl
    · rw [hbase]
      exact hlead.2

lemma Accounts.step (s : HistoryStep) : (h.step s).Accounts (h.openAfter undos s) := by
  cases s with
  | edit next => exact ha.edit next
  | burstEdit next now => apply ha.congr <;> simp [History.step]
  | tick now =>
    simp only [History.step, History.tick, openAfter]
    split
    · exact ha.endBurst
    · exact ha
  | endBurst => exact ha.endBurst
  | undo => exact ha.undo
  | redo => exact ha.redo
  | moveCaret caret => exact ha.moveCaret caret
  | restart content => exact ⟨rfl, trivial⟩
  | withLimit limit => exact ha.congr rfl rfl
  | withPause pause => exact ha.congr rfl rfl

end

lemma Accounts.run {h : History} {undos : List History} (ha : h.Accounts undos)
    (steps : List HistoryStep) : (h.run steps).Accounts (h.openUndos undos steps) := by
  induction steps generalizing h undos with
  | nil => exact ha
  | cons s rest ih => exact ih (ha.step s)

/-- A redo asks for the latest open undo, after its own end of the burst. -/
lemma Accounts.redone?_eq {h : History} {undos : List History} (ha : h.Accounts undos) :
    h.redone? = (h.keptOpen undos).head?.map current := by
  rw [redone?, ha.endBurst.redoStack_eq, List.head?_map]

/-- Whether a step leaves what was undone behind: a changed text enters the history and can no
longer be taken back within its burst, or another text is loaded. An undo is not such a step,
since it opens an undo at once. -/
def diverges (h : History) : HistoryStep → Bool
  | .edit next => h.isChanged || next.content != h.current.content
  | .tick now => h.isDue now && h.isChanged
  | .endBurst | .redo => h.isChanged
  | .restart _ => true
  | .undo | .burstEdit _ _ | .moveCaret _ | .withLimit _ | .withPause _ => false

/-- Whether a step only moves the caret, sets the limit or pause, goes on with a burst, or ends
one that has been taken back. Edits that leave the text alone are among these steps. -/
def marksTime (h : History) (s : HistoryStep) : Bool :=
  !h.diverges s && s != .undo && s != .redo

/-- Whether a step is not an undo that brings a snapshot back. -/
def undoesNothing (h : History) (s : HistoryStep) : Bool := s != .undo || h.undone?.isNone

/-- Whether all steps of a run have a property of the history before the step and the step. -/
def throughout (p : History → HistoryStep → Bool) (h : History) : List HistoryStep → Bool
  | [] => true
  | s :: rest => p h s && (h.step s).throughout p rest

section

variable {h : History} {s : HistoryStep}

lemma openAfter_of_diverges (hs : h.diverges s = true) (undos : List History) :
    h.openAfter undos s = [] := by
  cases s with
  | edit next =>
    simp only [diverges, Bool.or_eq_true, bne_iff_ne] at hs
    simp only [openAfter]
    split
    · next hsame => exact keptOpen_of_changed (hs.resolve_right (not_not_intro hsame)) undos
    · rfl
  | tick now =>
    simp only [diverges, Bool.and_eq_true] at hs
    simp only [openAfter, if_pos hs.1, keptOpen_of_changed hs.2]
  | endBurst => exact keptOpen_of_changed hs undos
  | redo => simp only [openAfter, keptOpen_of_changed hs, List.tail_nil]
  | restart content => rfl
  | undo | burstEdit | moveCaret | withLimit | withPause => cases hs

lemma openAfter_of_marksTime (hs : h.marksTime s = true) (undos : List History) :
    h.openAfter undos s = undos := by
  cases s with
  | edit next =>
    have hboth : h.isChanged = false ∧ next.content = h.current.content := by
      simpa [marksTime, diverges] using hs
    simp only [openAfter, if_pos hboth.2, keptOpen_of_same hboth.1]
  | tick now =>
    have hearly : h.isDue now = false ∨ h.isChanged = false := by
      simpa [marksTime, diverges] using hs
    simp only [openAfter]
    split
    · next hdue => exact keptOpen_of_same (hearly.resolve_left (by simp [hdue])) undos
    · rfl
  | endBurst =>
    have hsame : h.isChanged = false := by simpa [marksTime, diverges] using hs
    exact keptOpen_of_same hsame undos
  | undo | redo | restart => simp [marksTime, diverges] at hs
  | burstEdit | moveCaret | withLimit | withPause => rfl

lemma openAfter_nil (hs : h.undoesNothing s = true) : h.openAfter [] s = [] := by
  cases s <;> simp_all [undoesNothing, openAfter, keptOpen]

end

lemma openUndos_of_marksTime {h : History} {steps : List HistoryStep}
    (hsteps : h.throughout marksTime steps = true) (undos : List History) :
    h.openUndos undos steps = undos := by
  induction steps generalizing h with
  | nil => rfl
  | cons s rest ih =>
    rw [throughout, Bool.and_eq_true] at hsteps
    rw [openUndos, openAfter_of_marksTime hsteps.1]
    exact ih hsteps.2

lemma openUndos_nil {h : History} {steps : List HistoryStep}
    (hsteps : h.throughout undoesNothing steps = true) : h.openUndos [] steps = [] := by
  induction steps generalizing h with
  | nil => rfl
  | cons s rest ih =>
    rw [throughout, Bool.and_eq_true] at hsteps
    rw [openUndos, openAfter_nil hsteps.1]
    exact ih hsteps.2

/-- After every run, a redo brings a snapshot back exactly if an undo is open and no burst has
changed the text. It is the snapshot that was current when the latest open undo was asked, and the
text is the one which that undo led to. So redoing survives all steps that mark time, once their
bursts are taken back, and after a step that diverges it needs another undo. -/
theorem redo_restores_open_undo (content : Text) (limit pause : Nat) (steps : List HistoryStep) :
    let first := start content limit pause
    let h := first.run steps
    let undos := first.openUndos [] steps
    (h.redone?.isSome ↔ undos ≠ [] ∧ h.isChanged = false) ∧
    (∀ s, h.redone? = some s → ∃ u rest, undos = u :: rest ∧
      (∃ front back, steps = front ++ .undo :: back ∧ u = first.run front) ∧
      s = u.current ∧ h.current.content = u.undo.current.content) ∧
    (∀ s more, h.redone? = some s → h.throughout marksTime more = true →
      (h.run more).isChanged = false → (h.run more).redone? = some s) ∧
    (∀ s more, h.diverges s = true → (h.step s).throughout undoesNothing more = true →
      ((h.step s).run more).redone? = none) ∧
    (∀ s, h.undone? = some s → h.undo.redone? = some h.current) := by
  intro first h undos
  have ha : h.Accounts undos := by
    apply Accounts.run
    exact ⟨rfl, trivial⟩
  have hredone := ha.redone?_eq
  refine ⟨?_, ?_, ?_, ?_, ?_⟩
  · rw [hredone]
    cases hc : h.isChanged with
    | true => simp [keptOpen_of_changed hc]
    | false => cases undos <;> simp [keptOpen_of_same hc]
  · intro s hs
    rw [hredone] at hs
    cases hc : h.isChanged with
    | true => simp [keptOpen_of_changed hc] at hs
    | false =>
      have hlead := ha.leadOn
      rw [keptOpen_of_same hc, Option.map_eq_some_iff] at hs
      obtain ⟨u, hu, rfl⟩ := hs
      obtain ⟨rest, hundos⟩ := List.head?_eq_some_iff.mp hu
      rw [content_base hc, hundos] at hlead
      have hmem : u ∈ first.openUndos [] steps := List.mem_of_head? hu
      have hplace := (mem_openUndos hmem).resolve_left List.not_mem_nil
      exact ⟨u, rest, hundos, hplace, rfl, hlead.1.symm⟩
  · intro s more hs hmore hsame
    have hlater := (ha.run more).redone?_eq
    rw [openUndos_of_marksTime hmore, keptOpen_of_same hsame] at hlater
    cases hc : h.isChanged with
    | true => simp [hredone, keptOpen_of_changed hc] at hs
    | false => rw [hlater, ← hs, hredone, keptOpen_of_same hc]
  · intro s more hs hmore
    have hlater := ((ha.step s).run more).redone?_eq
    rw [openAfter_of_diverges hs, openUndos_nil hmore] at hlater
    simpa using hlater
  · intro s hs
    have hlater := ha.undo.redone?_eq
    have hquiet : h.undo.burst = none := by
      obtain ⟨rest, hstack⟩ := List.head?_eq_some_iff.mp hs
      rw [undo_of_cons hstack, burst_endBurst]
    rw [keptOpen_of_same (isChanged_of_quiet hquiet)] at hlater
    simpa [openAfter, hs] using hlater

/-- A redo outlives a moved caret, an edit that changes nothing and a burst that is taken back and
polled before and after it ends, but not a new text, until that is undone. -/
theorem redo_restores_open_undo_typed :
    let first := start [] 2 300
    let steps : List HistoryStep := [.edit (.atOrigin ['a']), .edit (.atOrigin ['b']), .undo]
    let h := first.run steps
    let more : List HistoryStep := [.moveCaret ⟨1, 2, 1⟩, .edit (.atOrigin ['a']),
      .burstEdit (.atOrigin ['c']) 0, .tick 299, .burstEdit (.atOrigin ['a']) 10, .tick 310]
    let s : HistoryStep := .edit (.atOrigin ['d'])
    let later : List HistoryStep := [.redo, .burstEdit (.atOrigin ['e']) 20, .tick 320]
    h.redone? = some (.atOrigin ['b']) ∧
    (∃ u, u ∈ first.openUndos [] steps ∧ Snapshot.atOrigin ['b'] = u.current ∧
      h.current.content = u.undo.current.content) ∧
    h.throughout marksTime more = true ∧ (h.run more).isChanged = false ∧
    (h.run more).redone? = some (.atOrigin ['b']) ∧
    h.diverges s = true ∧ (h.step s).throughout undoesNothing later = true ∧
    ((h.step s).run later).redone? = none ∧
    h.undone? = some (.atOrigin []) ∧ h.undo.redone? = some h.current := by
  intro first steps h more s later
  obtain ⟨_, hrestores, hsurvives, hdiverges, hundo⟩ := redo_restores_open_undo [] 2 300 steps
  have hredone : h.redone? = some (.atOrigin ['b']) := by decide
  have hmore : h.throughout marksTime more = true := by decide
  have hsame : (h.run more).isChanged = false := by decide
  have hs : h.diverges s = true := by decide
  have hlater : (h.step s).throughout undoesNothing later = true := by decide
  have hundone : h.undone? = some (.atOrigin []) := by decide
  obtain ⟨u, rest, hopen, _, hcurrent, hcontent⟩ := hrestores _ hredone
  have hmem : u ∈ first.openUndos [] steps := by
    rw [hopen]
    exact List.mem_cons_self
  exact ⟨hredone, ⟨u, hmem, hcurrent, hcontent⟩, hmore, hsame,
    hsurvives _ more hredone hmore hsame, hs, hlater, hdiverges s later hs hlater, hundone,
    hundo _ hundone⟩

end EditingEngine.History
