import EditingEngine.Proofs.History.UndoEntries
import EditingEngine.Proofs.Session.PageIsolation
import EditingEngine.Proofs.Session.PendingBursts

/-!
# The settings that pages follow

The limit and the pause of undo histories are kept in three places: in the settings of the
session, in the notebook for pages to come, and in the history of every page. They are
given to the notebook when it is made, by the settings of its session and by those who
configure the notebook itself, and each time all pages get them. No other step changes them,
unless it singles out a page and sets the limit or the pause of this page alone. Under
whatever limit, a history keeps no more undo entries than it has room for.
-/
namespace EditingEngine

/-- Whether a step sets the limit or the pause of the active page alone. -/
def NotebookStep.singlesOut : NotebookStep → Bool
  | .active (.withLimit _) | .active (.withPause _) => true
  | _ => false

/-- Whether a step of a session sets the limit or the pause of the active page alone. -/
def SessionStep.singlesOut (step : SessionStep) : Bool :=
  step.passedOn?.any NotebookStep.singlesOut

/-- The limit and the pause that settings ask for. -/
def Settings.given (settings : Settings) : Nat × Nat := (settings.undoLimit, settings.pause)

/-- What is given last is what the first step gives, unless a later one gives something. -/
lemma getLastD_filterMap_cons {α β : Type} (f : α → Option β) (step : α) (rest : List α) (b : β) :
    ((step :: rest).filterMap f).getLastD b = (rest.filterMap f).getLastD ((f step).getD b) := by
  cases hf : f step with
  | none => rw [List.filterMap_cons_none hf, Option.getD_none]
  | some c => rw [List.filterMap_cons_some hf, List.getLastD_cons, Option.getD_some]

namespace History

section pause

variable (h : History)

@[simp] theorem pause_push (s : Snapshot) : (h.push s).pause = h.pause := by
  unfold push
  split <;> rfl

@[simp] theorem pause_endBurst : h.endBurst.pause = h.pause := by
  cases hc : h.isChanged with
  | false => rw [endBurst_of_same hc]
  | true => rw [endBurst_of_changed hc, pause_push]

theorem pause_step {s : HistoryStep} (hs : ∀ pause, s ≠ .withPause pause) :
    (h.step s).pause = h.pause := by
  have hend := pause_endBurst h
  cases s with
  | edit next =>
    by_cases hsame : next.content = h.current.content
    · rw [step, edit_of_same hsame]
      exact hend
    · rw [step, edit_of_differs hsame, pause_push]
      exact hend
  | burstEdit next now =>
    simp only [step, burstEdit]
    split
    · rfl
    · split <;> rfl
  | tick now =>
    simp only [step, tick]
    split
    · exact hend
    · rfl
  | endBurst => exact hend
  | undo =>
    cases hstack : h.endBurst.undoStack with
    | nil => rw [step, undo_of_nil hstack, hend]
    | cons s rest =>
      rw [step, undo_of_cons hstack]
      exact hend
  | redo =>
    cases hstack : h.endBurst.redoStack with
    | nil => rw [step, redo_of_nil hstack, hend]
    | cons s rest =>
      rw [step, redo_of_cons hstack, pause_push]
      exact hend
  | withPause pause => exact absurd rfl (hs pause)
  | moveCaret | restart | withLimit => rfl

end pause

/-- A history with the limit and the pause that were given. -/
structure Follows (given : Nat × Nat) (h : History) : Prop where
  limit_eq : h.limit = max given.1 1
  pause_eq : h.pause = given.2

lemma Follows.step {given : Nat × Nat} {h : History} (hf : h.Follows given) {s : HistoryStep}
    (hs : (NotebookStep.active s).singlesOut = false) : (h.step s).Follows given := by
  have hpos : 1 ≤ h.limit := by
    rw [hf.limit_eq]
    exact Nat.le_max_right _ _
  constructor
  · rw [limit_step hpos, hf.limit_eq]
    rintro n rfl
    cases hs
  · rw [pause_step h, hf.pause_eq]
    rintro n rfl
    cases hs

end History

namespace Notebook

/-- There is an active page in its place, and every page keeps to the limit of its history. -/
structure IsSound (nb : Notebook) : Prop where
  active_lt : nb.active < nb.pages.length
  active_page : nb.pages[nb.active]? = some nb.activePage
  depth_le : ∀ page ∈ nb.pages, page.history.undoStack.length ≤ page.history.limit

/-- The notebook and all its pages have the limit and the pause that were given. -/
structure Follows (given : Nat × Nat) (nb : Notebook) : Prop where
  limit_eq : nb.limit = given.1
  pause_eq : nb.pause = given.2
  pages : ∀ page ∈ nb.pages, page.history.Follows given

lemma Keeps.isSound {nb : Notebook} (hk : nb.Keeps History.Consistent) : nb.IsSound :=
  ⟨nb.active_lt, nb.getElem?_active, fun page hpage => (hk.pages page hpage).depth_le⟩

lemma Keeps.consistent_run {nb : Notebook} (hk : nb.Keeps History.Consistent)
    (steps : List NotebookStep) : (nb.run steps).Keeps History.Consistent := by
  induction steps generalizing nb with
  | nil => exact hk
  | cons s rest ih => exact ih (hk.consistent_step s)

section

variable {given : Nat × Nat} {nb : Notebook}

lemma follows_of_keeps (hlimit : nb.limit = given.1) (hpause : nb.pause = given.2)
    (hk : nb.Keeps (History.Follows given)) : nb.Follows given :=
  ⟨hlimit, hpause, hk.pages⟩

lemma Follows.keeps (hf : nb.Follows given) : nb.Keeps (History.Follows given) := by
  refine ⟨hf.pages, fun content => ?_⟩
  rw [hf.limit_eq, hf.pause_eq]
  exact ⟨rfl, rfl⟩

lemma follows_new (limit pause : Nat) : (new limit pause).Follows (limit, pause) := by
  refine ⟨rfl, rfl, ?_⟩
  intro page hpage
  obtain rfl := List.mem_singleton.mp hpage
  exact ⟨rfl, rfl⟩

/-- A notebook takes no limit and no pause but those that a step gives. -/
lemma limit_pause_step (nb : Notebook) (s : NotebookStep) :
    ((nb.step s).notebook.limit, (nb.step s).notebook.pause) =
      s.given?.getD (nb.limit, nb.pause) := by
  cases s with
  | turnTo index =>
    simp only [step, Reply.outcome, turnTo]
    split <;> rfl
  | retitle index title =>
    simp only [step, Reply.outcome, retitle]
    split <;> rfl
  | remove index =>
    rcases nb.notebook_remove index with hrefused | ⟨hindex, hmore, hnext⟩
    · rw [hrefused]
      rfl
    · rw [hnext]
      rfl
  | renew | add | retitleActive | configure | setQuiet | subscribe | active => rfl

lemma Follows.step (hf : nb.Follows given) {s : NotebookStep} (hs : s.singlesOut = false) :
    (nb.step s).notebook.Follows (s.given?.getD given) := by
  have hnumbers := nb.limit_pause_step s
  rw [hf.limit_eq, hf.pause_eq, Prod.ext_iff] at hnumbers
  refine follows_of_keeps hnumbers.1 hnumbers.2 ?_
  cases hgiven : s.given? with
  | none =>
    apply hf.keeps.step
    · exact fun h hh => hh.step (s := .endBurst) rfl
    · rintro limit pause rfl
      cases hgiven
    · rintro st rfl hactive
      exact hactive.step hs
  | some g =>
    cases s with
    | configure limit pause =>
      cases hgiven
      exact hf.keeps.configure (fun _ _ => ⟨rfl, rfl⟩) fun _ => ⟨rfl, rfl⟩
    | _ => cases hgiven

/-- What a run has given last is what holds behind it. -/
lemma Follows.run (hf : nb.Follows given) {steps : List NotebookStep}
    (hsteps : ∀ s ∈ steps, s.singlesOut = false) :
    (nb.run steps).Follows ((steps.filterMap NotebookStep.given?).getLastD given) := by
  induction steps generalizing nb given with
  | nil => exact hf
  | cons s rest ih =>
    rw [List.forall_mem_cons] at hsteps
    rw [run_cons, getLastD_filterMap_cons]
    exact ih (hf.step hsteps.1) hsteps.2

end

end Notebook

namespace Session

/-- A step of a session gives its notebook what it gives itself, and singles out a page in its
notebook only if it does so itself. -/
lemma follows_step {given : Nat × Nat} {s : Session} (hf : s.notebook.Follows given)
    {step : SessionStep} (hstep : step.singlesOut = false) :
    (s.step step).session.notebook.Follows (step.given?.getD given) := by
  cases hst : step.passedOn? with
  | some st =>
    have hst' : st.singlesOut = false := by simpa [SessionStep.singlesOut, hst] using hstep
    have hgiven : step.given? = st.given? := by simp [SessionStep.given?, hst]
    rw [s.notebook_of_passedOn hst, hgiven]
    exact hf.step hst'
  | none =>
    have hgiven : step.given? = none := by simp [SessionStep.given?, hst]
    rw [hgiven]
    rcases s.notebook_of_not_passedOn hst with h | ⟨st, hmakes, h⟩
    · rw [h]
      exact hf
    · rw [h]
      have hst' : (NotebookStep.active st).singlesOut = false := by cases hmakes <;> rfl
      exact hf.step hst'

lemma follows_run {given : Nat × Nat} {s : Session} (hf : s.notebook.Follows given)
    {steps : List SessionStep} (hsteps : ∀ step ∈ steps, step.singlesOut = false) :
    (s.run steps).notebook.Follows ((steps.filterMap SessionStep.given?).getLastD given) := by
  induction steps generalizing s given with
  | nil => exact hf
  | cons step rest ih =>
    rw [List.forall_mem_cons] at hsteps
    rw [run_cons, getLastD_filterMap_cons]
    exact ih (follows_step hf hsteps.1) hsteps.2

/-- Only a step that configures the session changes its settings. -/
lemma settings_step (s : Session) {step : SessionStep}
    (hstep : ∀ settings, step ≠ .configure settings) :
    (s.step step).session.settings = s.settings := by
  rcases s.step_cases step with ⟨keys, h⟩ | ⟨keys, st, _, h⟩ | ⟨settings, hconfigure, _⟩ |
    ⟨keys, st, _, h⟩
  · rw [h]
  · rw [h]
    rfl
  · exact absurd hconfigure (hstep settings)
  · rw [h]

/-- If the notebook is not configured behind the session's back, what a step gives is what the
settings behind it ask for. -/
lemma given_step (s : Session) {step : SessionStep}
    (hstep : ∀ limit pause, step ≠ .notebook (.configure limit pause)) :
    step.given?.getD s.settings.given = (s.step step).session.settings.given := by
  by_cases hconfigure : ∃ settings, step = .configure settings
  · obtain ⟨settings, rfl⟩ := hconfigure
    rfl
  · have hnone : step.given? = none := by
      cases step with
      | configure settings => exact absurd ⟨settings, rfl⟩ hconfigure
      | notebook st =>
        cases st with
        | configure limit pause => exact absurd rfl (hstep limit pause)
        | _ => rfl
      | _ => rfl
    rw [hnone, s.settings_step fun settings h => hconfigure ⟨settings, h⟩]
    rfl

lemma given_run (s : Session) {steps : List SessionStep}
    (hsteps : ∀ limit pause, .notebook (.configure limit pause) ∉ steps) :
    (steps.filterMap SessionStep.given?).getLastD s.settings.given =
      (s.run steps).settings.given := by
  induction steps generalizing s with
  | nil => rfl
  | cons step rest ih =>
    have hstep : ∀ limit pause, step ≠ .notebook (.configure limit pause) := by
      rintro limit pause rfl
      exact hsteps limit pause List.mem_cons_self
    rw [run_cons, getLastD_filterMap_cons, s.given_step hstep]
    exact ih _ fun limit pause hmem => hsteps limit pause (List.mem_cons_of_mem step hmem)

/-- After every run of a notebook or of a session there is an active page in its place, and no page
keeps more undo entries than its limit. If no step has set the limit or the pause of a single page,
the notebook and all its pages have those that were given last: when the notebook was made, with
new settings of the session, or by a step that configures the notebook itself. Without such steps
they are the ones that the settings of the session ask for. -/
theorem pages_follow_given_settings :
    (∀ limit pause (steps : List NotebookStep),
      let nb := (Notebook.new limit pause).run steps
      nb.IsSound ∧
      ((∀ s ∈ steps, s.singlesOut = false) →
        nb.Follows ((steps.filterMap NotebookStep.given?).getLastD (limit, pause)))) ∧
    ∀ w settings (steps : List SessionStep),
      let s := (new w settings).run steps
      s.notebook.IsSound ∧
      ((∀ step ∈ steps, step.singlesOut = false) →
        s.notebook.Follows ((steps.filterMap SessionStep.given?).getLastD settings.given) ∧
        ((∀ limit pause, .notebook (.configure limit pause) ∉ steps) →
          s.notebook.Follows s.settings.given)) := by
  constructor
  · intro limit pause steps nb
    have hk : (Notebook.new limit pause).Keeps History.Consistent :=
      Notebook.keeps_new fun content => History.consistent_start content limit pause
    exact ⟨(hk.consistent_run steps).isSound, (Notebook.follows_new limit pause).run⟩
  · intro w settings steps s
    refine ⟨((keepsBursts_new w settings).run steps).consistent.isSound, fun hsteps => ?_⟩
    have hf : s.notebook.Follows ((steps.filterMap SessionStep.given?).getLastD settings.given) :=
      follows_run (Notebook.follows_new settings.undoLimit settings.pause) hsteps
    refine ⟨hf, fun hown => ?_⟩
    have hgiven : (steps.filterMap SessionStep.given?).getLastD settings.given =
        s.settings.given := (new w settings).given_run hown
    rwa [hgiven] at hf

/-- Three edits under room for one, on a page that is removed later. The session asks for three
entries, someone else for none at all, pages come in every way, and at last the session asks for
two. -/
theorem pages_follow_given_settings_reconfigured :
    let w : Char → Option Nat := fun _ => some 1
    let settings : Settings := { Settings.standard with undoLimit := 0 }
    let last : Settings := { settings with undoLimit := 2, pause := 50 }
    let notebookSteps : List NotebookStep := [.add ['b'] ['x'], .configure 0 7, .turnTo 1,
      .active (.edit ⟨['y'], ⟨1, 2, 1⟩⟩), .active (.edit ⟨['z'], ⟨1, 2, 1⟩⟩), .remove 0]
    let steps : List SessionStep := [.paste ['a'], .paste ['b'], .paste ['c'],
      .configure { settings with undoLimit := 3 }, .notebook (.add ['b'] []), .paste ['d'],
      .notebook (.remove 0), .renew [(['n'], ['t'])], .paste ['e'], .notebook (.add ['c'] []),
      .configure last, .notebook (.add ['d'] [])]
    let meddled : List SessionStep := steps ++ [.notebook (.configure 0 9), .paste ['f']]
    let nb := (Notebook.new 5 300).run notebookSteps
    let s := (new w settings).run steps
    let t := (new w settings).run meddled
    (∀ step ∈ notebookSteps, step.singlesOut = false) ∧
    (∀ step ∈ steps, step.singlesOut = false) ∧ (∀ step ∈ meddled, step.singlesOut = false) ∧
    (∀ limit pause, .notebook (.configure limit pause) ∉ steps) ∧
    nb.IsSound ∧ nb.Follows (0, 7) ∧ s.notebook.IsSound ∧ s.notebook.Follows (2, 50) ∧
    s.notebook.Follows s.settings.given ∧ t.notebook.Follows (0, 9) ∧
    t.settings.given = (2, 50) := by
  intro w settings last notebookSteps steps meddled nb s t
  have hnotebook : ∀ step ∈ notebookSteps, step.singlesOut = false := by decide
  have hsteps : ∀ step ∈ steps, step.singlesOut = false := by decide
  have hmeddled : ∀ step ∈ meddled, step.singlesOut = false := by decide
  have hown : ∀ limit pause, .notebook (.configure limit pause) ∉ steps := by simp [steps]
  obtain ⟨hnb, hfollows⟩ := pages_follow_given_settings.1 5 300 notebookSteps
  obtain ⟨hs, hgiven⟩ := pages_follow_given_settings.2 w settings steps
  obtain ⟨-, hlater⟩ := pages_follow_given_settings.2 w settings meddled
  exact ⟨hnotebook, hsteps, hmeddled, hown, hnb, hfollows hnotebook, hs, (hgiven hsteps).1,
    (hgiven hsteps).2 hown, (hlater hmeddled).1, by decide⟩

end Session
end EditingEngine
