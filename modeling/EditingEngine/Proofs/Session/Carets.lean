import EditingEngine.Proofs.History.StoredSnapshots
import EditingEngine.Proofs.Session.Steps

/-!
# Carets fit their texts

A session measures every caret in the text that it stores it with. Undoing, redoing, the
ends of bursts and everything that is done with pages only move such pairs about. So all
carets of a session fit their texts, as long as the host stores no caret of its own behind
the session's back and columns are measured the same way all along.
-/
namespace EditingEngine

namespace Snapshot

variable (w : Char → Option Nat) (m : Metrics)

/-- The caret is the one that its offset has in the text, and the text reaches that far. -/
structure Fits (x : Snapshot) : Prop where
  offset_le : x.caret.offset ≤ x.content.length
  caret_eq : x.caret = .ofOffset w m x.content x.caret.offset

/-- A measured caret fits, also where the offset that was asked for lies past the end. -/
lemma fits_ofOffset (text : Text) (offset : Nat) :
    Fits w m ⟨text, .ofOffset w m text offset⟩ := by
  constructor
  · rw [Caret.offset_ofOffset]
    exact Nat.min_le_right _ _
  · change Caret.ofOffset w m text offset =
      Caret.ofOffset w m text (Caret.ofOffset w m text offset).offset
    rw [Caret.offset_ofOffset, ← Caret.ofOffset_eq_min]

lemma fits_atOrigin (text : Text) : (atOrigin text).Fits w m := fits_ofOffset w m text 0

end Snapshot

/-- Whether a step stores neither a snapshot nor a caret that it was given. -/
def HistoryStep.isBare : HistoryStep → Bool
  | .edit _ | .burstEdit _ _ | .moveCaret _ => false
  | _ => true

/-- Whether a step leaves all carets to the session. -/
def SessionStep.isBare : SessionStep → Bool
  | .notebook (.active st) => st.isBare
  | _ => true

/-- How columns are measured from a step on, if the step changes that. -/
def SessionStep.metrics? : SessionStep → Option Metrics
  | .configure settings => some settings.metrics
  | _ => none

/-- Whether a step leaves all carets to the session, and columns to be measured with given
metrics. -/
def SessionStep.leavesCarets (m : Metrics) : SessionStep → Bool
  | .notebook (.active st) => st.isBare
  | .configure settings => settings.metrics == m
  | _ => true

lemma SessionStep.leavesCarets_iff {m : Metrics} {step : SessionStep} :
    step.leavesCarets m = true ↔ step.isBare = true ∧ ∀ n, step.metrics? = some n → n = m := by
  cases step with
  | notebook st => cases st <;> simp [leavesCarets, isBare, metrics?]
  | _ => simp [leavesCarets, isBare, metrics?]

namespace Session

variable {w : Char → Option Nat}

/-- All that a step of a history brings with it fits if the step stores nothing of its own. -/
lemma fits_of_isBare {m : Metrics} {h : History} {st : HistoryStep} (hst : st.isBare = true) :
    ∀ x, st.brings? h = some x → x.Fits w m := by
  intro x hx
  cases st with
  | restart content =>
    cases hx
    exact Snapshot.fits_atOrigin w m content
  | edit | burstEdit | moveCaret => cases hst
  | _ => cases hx

lemma Makes.fits {s : Session} {st : HistoryStep} (hst : s.Makes st) :
    ∀ x, st.brings? s.history = some x → x.Fits s.charWidth s.settings.metrics := by
  intro x hx
  cases hst with
  | restart text =>
    cases hx
    exact Snapshot.fits_atOrigin _ _ text
  | undo | redo | tick => cases hx
  | edit | burstEdit | moveCaret =>
    cases hx
    exact Snapshot.fits_ofOffset _ _ _ _

section

variable {p : Metrics → Prop}

/-- Every page stores carets that fit their texts by some metrics of a kind, and so does every page
that can be added. Columns are measured by metrics of that kind now, with the same widths. -/
structure CaretsMeasured (w : Char → Option Nat) (p : Metrics → Prop) (s : Session) : Prop where
  charWidth_eq : s.charWidth = w
  metrics : p s.settings.metrics
  keeps : s.notebook.Keeps fun h => h.Stores fun x => ∃ m, p m ∧ x.Fits w m

lemma caretsMeasured_new {settings : Settings} (hp : p settings.metrics) :
    (new w settings).CaretsMeasured w p where
  charWidth_eq := rfl
  metrics := hp
  keeps := Notebook.keeps_new fun content =>
    History.stores_start ⟨_, hp, Snapshot.fits_atOrigin w _ content⟩ _ _

lemma keeps_measured_configure {nb : Notebook} {m : Metrics} (hm : p m)
    (hk : nb.Keeps fun h => h.Stores fun x => ∃ m, p m ∧ x.Fits w m) (limit pause : Nat) :
    (nb.configure limit pause).Keeps fun h => h.Stores fun x => ∃ m, p m ∧ x.Fits w m := by
  apply hk.configure
  · exact fun h hold => (hold.withLimit limit).withPause pause
  · exact fun content =>
      History.stores_start ⟨m, hm, Snapshot.fits_atOrigin w m content⟩ limit pause

lemma CaretsMeasured.step {s : Session} {step : SessionStep} (hs : s.CaretsMeasured w p)
    (hbare : step.isBare = true) (hp : ∀ m, step.metrics? = some m → p m) :
    (s.step step).session.CaretsMeasured w p := by
  obtain ⟨rfl, hnow, hk⟩ := hs
  rcases s.step_cases step with ⟨keys, h⟩ | ⟨keys, st, hst, h⟩ | ⟨settings, rfl, h⟩ |
    ⟨keys, st, hst, h⟩
  · rw [h]
    exact ⟨rfl, hnow, hk⟩
  · rw [h]
    refine ⟨rfl, hnow, hk.stepActive fun hactive => hactive.step ?_⟩
    exact fun x hx => ⟨_, hnow, hst.fits x hx⟩
  · rw [h]
    exact ⟨rfl, hp _ rfl, keeps_measured_configure hnow hk _ _⟩
  · rw [h]
    refine ⟨rfl, hnow, hk.step (fun _ hold => hold.endBurst) ?_ ?_⟩
    · intro limit pause _
      exact keeps_measured_configure hnow hk limit pause
    · rintro st rfl hactive
      apply hactive.step
      have hst' : st.isBare = true := by
        cases step <;> simp_all [SessionStep.inNotebook?, SessionStep.isBare]
      exact fun x hx => ⟨_, hnow, fits_of_isBare hst' x hx⟩

theorem CaretsMeasured.run {s : Session} (hs : s.CaretsMeasured w p) {steps : List SessionStep}
    (hbare : ∀ step ∈ steps, step.isBare = true)
    (hp : ∀ m ∈ steps.filterMap SessionStep.metrics?, p m) :
    (s.run steps).CaretsMeasured w p := by
  induction steps generalizing s with
  | nil => exact hs
  | cons step rest ih =>
    rw [List.forall_mem_cons] at hbare
    have hrest : ∀ m ∈ rest.filterMap SessionStep.metrics?, p m := fun m hm =>
      hp m (((List.sublist_cons_self step rest).filterMap _).subset hm)
    have hstep : ∀ m, step.metrics? = some m → p m := fun m hm =>
      hp m (List.mem_filterMap.mpr ⟨step, List.mem_cons_self, hm⟩)
    exact ih (hs.step hbare.1 hstep) hbare.2 hrest

end

/-- The carets of a session stay measured by the same metrics if no step changes them. -/
lemma CaretsMeasured.run_leavesCarets {m : Metrics} {s : Session} (hs : s.CaretsMeasured w (· = m))
    {steps : List SessionStep} (hsteps : ∀ step ∈ steps, step.leavesCarets m = true) :
    (s.run steps).CaretsMeasured w (· = m) := by
  refine hs.run ?_ ?_
  · exact fun step hstep => (SessionStep.leavesCarets_iff.mp (hsteps step hstep)).1
  · intro n hn
    obtain ⟨step, hstep, hmetrics⟩ := List.mem_filterMap.mp hn
    exact (SessionStep.leavesCarets_iff.mp (hsteps step hstep)).2 n hmetrics

/-- After every run that leaves carets to the session and measures columns the same way all along,
each snapshot that a page stores, be it the current one, an undo or redo entry or the one from
before a burst, has a caret within its text, with the line and column that its offset has there. -/
theorem snapshots_fit (w : Char → Option Nat) (settings : Settings) (steps : List SessionStep)
    (hsteps : ∀ step ∈ steps, step.leavesCarets settings.metrics = true) :
    let s := (new w settings).run steps
    ∀ page ∈ s.notebook.pages, page.history.Stores (·.Fits w s.settings.metrics) := by
  intro s page hpage
  have hs : s.CaretsMeasured w (· = settings.metrics) :=
    (caretsMeasured_new (p := (· = settings.metrics)) rfl).run_leavesCarets hsteps
  refine (hs.keeps.pages page hpage).imp ?_
  rintro x ⟨m, rfl, hx⟩
  rwa [hs.metrics]

/-- A burst goes on behind a wide character, after an undo that can be redone, while a second page
is added and the undo limit is changed. -/
theorem snapshots_fit_typed :
    let w : Char → Option Nat := fun c => if c = '你' then some 2 else some 1
    let settings : Settings := { Settings.standard with tabWidth := 2, widthRule := .byScript }
    let steps : List SessionStep := [.pressKey '(' 0, .paste ['\t', '你'], .pressEnter, .undo,
      .pressKey 'x' 5, .configure { settings with undoLimit := 9 }, .notebook (.add ['b'] ['c']),
      .moveToPosition 1 3]
    let s := (new w settings).run steps
    (∀ step ∈ steps, step.leavesCarets settings.metrics = true) ∧
    s.notebook.activePage ∈ s.notebook.pages ∧
    s.history.base = ⟨['(', '\t', '你'], ⟨1, 6, 3⟩⟩ ∧
    s.history.redoStack = [⟨['(', '\t', '你', '\n'], ⟨2, 1, 4⟩⟩] ∧
    s.history.Stores (·.Fits w s.settings.metrics) := by
  intro w settings steps s
  have hsteps : ∀ step ∈ steps, step.leavesCarets settings.metrics = true := by decide
  have hmem : s.notebook.activePage ∈ s.notebook.pages := Notebook.activePage_mem _
  have hbase : s.history.base = ⟨['(', '\t', '你'], ⟨1, 6, 3⟩⟩ := by decide +kernel
  have hredo : s.history.redoStack = [⟨['(', '\t', '你', '\n'], ⟨2, 1, 4⟩⟩] := by decide +kernel
  exact ⟨hsteps, hmem, hbase, hredo, snapshots_fit w settings steps hsteps _ hmem⟩

end Session
end EditingEngine
