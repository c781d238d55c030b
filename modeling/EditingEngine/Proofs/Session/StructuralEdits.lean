import EditingEngine.Proofs.History.UndoEntries
import EditingEngine.Proofs.Session.Steps

/-!
# Structural edits undo one by one

Pasting, tabs, line breaks, replacing and re-indenting enter the history at once, so each
of them that changes the text has an undo entry of its own: the text and caret from just
before it, moved carets included. A burst that still went on is ended by the first of
them and keeps its own entry below theirs. The pages of a session keep as many entries as
its settings say, as long as nobody sets the limit of a page behind its back.
-/
namespace EditingEngine

namespace SessionStep

/-- Whether a step is an edit that enters the history at once. -/
def isStructural : SessionStep → Bool
  | .pressKey c _ => c == '\n' || c == '\t'
  | .pressTab | .pressEnter | .replace _ _ | .paste _ | .reindent => true
  | _ => false

/-- Whether a step does nothing but move the caret. -/
def movesCaret : SessionStep → Bool
  | .moveTo _ | .moveToPosition _ _ => true
  | _ => false

/-- Whether a step leaves it to the settings of the session how many undo entries its pages
keep. -/
def leavesLimits : SessionStep → Bool
  | .notebook (.configure _ _) | .notebook (.active (.withLimit _)) => false
  | _ => true

end SessionStep

namespace Session

/-- A history that keeps as many undo entries as settings with this limit ask for. -/
structure KeepsLimit (limit : Nat) (h : History) : Prop where
  consistent : h.Consistent
  limit_eq : h.limit = max limit 1

lemma keepsLimit_start (content : Text) (limit pause : Nat) :
    KeepsLimit limit (.start content limit pause) :=
  ⟨History.consistent_start content limit pause, rfl⟩

lemma KeepsLimit.step {limit : Nat} {h : History} (hk : KeepsLimit limit h) {st : HistoryStep}
    (hst : ∀ n, st ≠ .withLimit n) : KeepsLimit limit (h.step st) := by
  refine ⟨hk.consistent.step st, ?_⟩
  rw [History.limit_step hk.consistent.limit_pos hst]
  exact hk.limit_eq

lemma KeepsLimit.configure {limit : Nat} {h : History} (hk : KeepsLimit limit h)
    (newLimit pause : Nat) : KeepsLimit newLimit ((h.withLimit newLimit).withPause pause) :=
  ⟨(hk.consistent.withLimit newLimit).step (.withPause pause), rfl⟩

/-- The session's own steps never set a limit. -/
lemma Makes.ne_withLimit {s : Session} {st : HistoryStep} (hst : s.Makes st) (n : Nat) :
    st ≠ .withLimit n := by
  cases hst <;> simp

lemma keepsLimit_step {s : Session} {step : SessionStep}
    (hk : s.notebook.Keeps (KeepsLimit s.settings.undoLimit)) (hstep : step.leavesLimits = true) :
    (s.step step).session.notebook.Keeps
      (KeepsLimit (s.step step).session.settings.undoLimit) := by
  rcases s.step_cases step with ⟨keys, h⟩ | ⟨keys, st, hst, h⟩ | ⟨settings, rfl, h⟩ |
    ⟨keys, st, hst, h⟩
  · rw [h]
    exact hk
  · rw [h]
    exact hk.stepActive fun hactive => hactive.step hst.ne_withLimit
  · rw [h]
    exact hk.configure (fun _ hold => hold.configure _ _) fun content =>
      keepsLimit_start content _ _
  · rw [h]
    apply hk.step
    · intro h hold
      exact hold.step (by simp : ∀ n, HistoryStep.endBurst ≠ .withLimit n)
    · rintro limit pause rfl
      cases step <;> simp_all [SessionStep.inNotebook?, SessionStep.leavesLimits]
    · rintro st rfl hactive
      apply hactive.step
      rintro n rfl
      cases step <;> simp_all [SessionStep.inNotebook?, SessionStep.leavesLimits]

theorem keepsLimit_run {s : Session} {steps : List SessionStep}
    (hk : s.notebook.Keeps (KeepsLimit s.settings.undoLimit))
    (hsteps : ∀ step ∈ steps, step.leavesLimits = true) :
    (s.run steps).notebook.Keeps (KeepsLimit (s.run steps).settings.undoLimit) := by
  induction steps generalizing s with
  | nil => exact hk
  | cons step rest ih =>
    rw [List.forall_mem_cons] at hsteps
    exact ih (keepsLimit_step hk hsteps.1) hsteps.2

/-- What a structural edit or a moved caret does to the history of the active page. -/
lemma history_structural {s : Session} {step : SessionStep}
    (hstep : step.isStructural = true ∨ step.movesCaret = true) :
    (∃ next, (s.step step).session.history = s.history.edit next) ∨
      ∃ caret, (s.step step).session.history = s.history.moveCaret caret := by
  have hedit : ∀ (t : Session) (keys : RecentKeys) (text : Text) (offset : Nat),
      ({ t with keys := keys }.edit text offset).history =
        t.history.edit (t.measured text offset) :=
    fun t keys text offset => history_stepHistory { t with keys := keys } _
  cases step with
  | pressKey c now =>
    have hc : c = '\n' ∨ c = '\t' := by
      simpa [SessionStep.isStructural, SessionStep.movesCaret] using hstep
    rcases hc with rfl | rfl
    · exact Or.inl ⟨_, hedit s _ _ _⟩
    · exact Or.inl ⟨_, hedit s _ _ _⟩
  | pressTab | pressEnter => exact Or.inl ⟨_, hedit s _ _ _⟩
  | replace text offset => exact Or.inl ⟨_, hedit s _ _ _⟩
  | paste text => exact Or.inl ⟨_, hedit s _ _ _⟩
  | moveTo offset => exact Or.inr ⟨_, history_stepHistory s _⟩
  | moveToPosition line column => exact Or.inr ⟨_, history_stepHistory s _⟩
  | reindent =>
    change (∃ next, s.reindent.history = _) ∨ ∃ caret, s.reindent.history = _
    unfold reindent
    split
    · exact Or.inr ⟨_, history_stepHistory s _⟩
    · exact Or.inl ⟨_, hedit s s.keys _ _⟩
  | _ => simp [SessionStep.isStructural, SessionStep.movesCaret] at hstep

/-- The texts and carets from just before the steps that changed the text, the latest first. -/
def leftBehind (s : Session) : List SessionStep → List Snapshot
  | [] => []
  | step :: rest =>
    let next := (s.step step).session
    next.leftBehind rest ++ if next.text = s.text then [] else [s.history.current]

/-- Each structural edit that changes the text adds the snapshot from before it. -/
lemma undoes_step {s : Session} {entries : List Snapshot} (hu : s.history.Undoes entries)
    {step : SessionStep} (hstep : step.isStructural = true ∨ step.movesCaret = true)
    (hroom : (s.leftBehind [step]).length + entries.length ≤ s.history.limit) :
    (s.step step).session.history.Undoes (s.leftBehind [step] ++ entries) ∧
      (s.step step).session.history.limit = s.history.limit := by
  rcases history_structural (s := s) hstep with ⟨next, h⟩ | ⟨caret, h⟩
  · have htext : (s.step step).session.text = next.content := by
      rw [text, h]
      exact congrArg Snapshot.content (History.current_edit _ next)
    rw [h]
    refine ⟨?_, History.limit_edit _ next⟩
    by_cases hsame : next.content = s.text
    · simpa [leftBehind, htext, hsame] using hu.edit_of_same hsame
    · have hroom' : entries.length < s.history.limit := by
        simp [leftBehind, htext, hsame] at hroom
        omega
      simpa [leftBehind, htext, hsame] using hu.edit_of_differs hsame hroom'
  · have htext : (s.step step).session.text = s.text := by
      rw [text, h]
      rfl
    rw [h]
    exact ⟨by simpa [leftBehind, htext] using hu.moveCaret caret, rfl⟩

lemma undoes_leftBehind {s : Session} {entries : List Snapshot} (hu : s.history.Undoes entries)
    {edits : List SessionStep}
    (hedits : ∀ step ∈ edits, step.isStructural = true ∨ step.movesCaret = true)
    (hroom : (s.leftBehind edits).length + entries.length ≤ s.history.limit) :
    (s.run edits).history.Undoes (s.leftBehind edits ++ entries) := by
  induction edits generalizing s entries with
  | nil => exact hu
  | cons step rest ih =>
    rw [List.forall_mem_cons] at hedits
    have hsplit : s.leftBehind (step :: rest) =
        (s.step step).session.leftBehind rest ++ s.leftBehind [step] := by simp [leftBehind]
    rw [hsplit, List.length_append] at hroom
    obtain ⟨hnext, hlimit⟩ := undoes_step hu hedits.1 (by omega)
    rw [hsplit, List.append_assoc]
    apply ih hnext hedits.2
    rw [hlimit, List.length_append]
    omega

/-- A step that only takes a step in the history does so as often as it is repeated. -/
lemma history_run_replicate {step : SessionStep} {st : HistoryStep}
    (hstep : ∀ s : Session, (s.step step).session.history = s.history.step st) (s : Session)
    (n : Nat) :
    (s.run (List.replicate n step)).history = s.history.run (List.replicate n st) := by
  induction n generalizing s with
  | zero => rfl
  | succ n ih =>
    rw [List.replicate_succ, List.replicate_succ, run_cons, History.run_cons, ih, hstep]

lemma history_undos (s : Session) (n : Nat) :
    (s.run (List.replicate n .undo)).history = s.history.run (List.replicate n .undo) := by
  apply history_run_replicate
  exact fun s => history_stepHistory s.forgetKeys .undo

lemma history_redos (s : Session) (n : Nat) :
    (s.run (List.replicate n .redo)).history = s.history.run (List.replicate n .redo) := by
  apply history_run_replicate
  exact fun s => history_stepHistory s.forgetKeys .redo

/-- From wherever a session has got to, even in the middle of a burst, structural edits and moved
carets that change the text no more often than the settings let undo are undone one by one: each
undo answers yes and brings back the text and caret from just before one more of the changes.
As many redos all answer yes, too, and lead back to the text and caret before the undos. -/
theorem structural_edits_undo_one_by_one (w : Char → Option Nat) (settings : Settings)
    (before edits : List SessionStep)
    (hbefore : ∀ step ∈ before, step.leavesLimits = true)
    (hedits : ∀ step ∈ edits, step.isStructural = true ∨ step.movesCaret = true) :
    let s := (new w settings).run before
    let left := s.leftBehind edits
    let t := s.run edits
    let undone := t.run (List.replicate left.length .undo)
    left.length ≤ max 1 s.settings.undoLimit →
      (∀ i x, left[i]? = some x →
        ((t.run (List.replicate i .undo)).step .undo).answer = .flag true ∧
        (t.run (List.replicate (i + 1) .undo)).history.current = x) ∧
      (∀ i < left.length,
        ((undone.run (List.replicate i .redo)).step .redo).answer = .flag true) ∧
      (undone.run (List.replicate left.length .redo)).history.current = t.history.current := by
  intro s left t undone hroom
  have hkeeps : KeepsLimit s.settings.undoLimit s.history := by
    have hnew : (new w settings).notebook.Keeps (KeepsLimit (new w settings).settings.undoLimit) :=
      Notebook.keeps_new fun content => keepsLimit_start content _ _
    exact (keepsLimit_run hnew hbefore).activePage
  have hundoes : t.history.Undoes left := by
    have hroom' : left.length + 0 ≤ s.history.limit := by
      rw [hkeeps.limit_eq, Nat.max_comm]
      exact hroom
    simpa using undoes_leftBehind (History.undoes_nil hkeeps.consistent) hedits hroom'
  refine ⟨?_, ?_, ?_⟩
  · intro i x hx
    obtain ⟨hundone, hcurrent⟩ := hundoes.undos hx
    rw [← history_undos] at hundone hcurrent
    refine ⟨?_, hcurrent⟩
    simp [step, hundone]
  · intro i hi
    have hredone := hundoes.redos.1 i hi
    rw [← history_undos, ← history_redos] at hredone
    change SessionAnswer.flag _ = _
    rw [hredone]
  · rw [history_redos, history_undos, hundoes.redos.2]

/-- A burst goes on before a line break, a paste and a tab, with the carets moved in between; the
replaced text is the text that is there already. The limit has room for just the four changes. -/
theorem structural_edits_undo_one_by_one_typed :
    let w : Char → Option Nat := fun _ => some 1
    let settings : Settings := { Settings.standard with undoLimit := 4 }
    let before : List SessionStep := [.pressKey 'a' 0, .pressKey '{' 1]
    let edits : List SessionStep := [.pressEnter, .moveTo 1, .paste ['b'], .reindent,
      .replace ['a', 'b', '{', '\n'] 0, .moveToPosition 2 7, .pressKey '\t' 5]
    let s := (new w settings).run before
    let left := s.leftBehind edits
    let t := s.run edits
    let undone := t.run (List.replicate left.length .undo)
    (∀ step ∈ before, step.leavesLimits = true) ∧
    (∀ step ∈ edits, step.isStructural = true ∨ step.movesCaret = true) ∧
    s.history.burst.isSome ∧ left.length = max 1 s.settings.undoLimit ∧
    left[3]? = some ⟨['a', '{'], ⟨1, 3, 2⟩⟩ ∧
    ((t.run (List.replicate 3 .undo)).step .undo).answer = .flag true ∧
    (t.run (List.replicate 4 .undo)).history.current = ⟨['a', '{'], ⟨1, 3, 2⟩⟩ ∧
    ((undone.run (List.replicate 3 .redo)).step .redo).answer = .flag true ∧
    (undone.run (List.replicate left.length .redo)).history.current = t.history.current := by
  intro w settings before edits s left t undone
  have hbefore : ∀ step ∈ before, step.leavesLimits = true := by decide
  have hedits : ∀ step ∈ edits, step.isStructural = true ∨ step.movesCaret = true := by decide
  have hleft : left.length = max 1 s.settings.undoLimit := by decide
  have hfirst : left[3]? = some ⟨['a', '{'], ⟨1, 3, 2⟩⟩ := by decide
  obtain ⟨hundos, hredos, hback⟩ :=
    structural_edits_undo_one_by_one w settings before edits hbefore hedits hleft.le
  obtain ⟨hanswer, hcurrent⟩ := hundos 3 _ hfirst
  have hthree : 3 < left.length := by decide
  have hburst : s.history.burst.isSome := by decide
  exact ⟨hbefore, hedits, hburst, hleft, hfirst, hanswer, hcurrent, hredos 3 hthree, hback⟩

end Session
end EditingEngine
