import EditingEngine.Proofs.Notebook.PageOrigins
import EditingEngine.Proofs.Session.Steps
import Mathlib.Data.List.Induction

/-!
# Pages that are not active

Whatever a session does, a page that is not active meanwhile keeps its text, its caret, what
can be undone and redone on it and its burst. Only two things reach it: a title that it is
given, and the limit and pause that all pages are given, for which its oldest undo entries
may be forgotten. The page is told apart by its number, since its place changes when a page
in front of it is removed.
-/
namespace EditingEngine

/-- The limit and pause that a step gives to all pages. -/
def NotebookStep.given? : NotebookStep → Option (Nat × Nat)
  | .configure limit pause => some (limit, pause)
  | _ => none

/-- The title that a step gives to the page with a number. -/
def NotebookStep.titleFor? (nb : Notebook) (id : Nat) : NotebookStep → Option Text
  | .retitle index title => if (nb.pages[index]?).map Page.id = some id then some title else none
  | _ => none

/-- The limit and pause that a step of a session gives to all pages. -/
def SessionStep.given? (step : SessionStep) : Option (Nat × Nat) :=
  step.passedOn?.bind NotebookStep.given?

/-- A history with another limit and pause. -/
def History.configured (h : History) (given : Nat × Nat) : History :=
  (h.withLimit given.1).withPause given.2

/-- What becomes of a history that is only given limits and pauses. -/
lemma History.foldl_configured (given : List (Nat × Nat)) (h : History) :
    given.foldl configured h = { h with
      undoStack := given.foldl (fun stack g => stack.take (max g.1 1)) h.undoStack
      limit := given.foldl (fun _ g => max g.1 1) h.limit
      pause := given.foldl (fun _ g => g.2) h.pause } := by
  induction given generalizing h with
  | nil => rfl
  | cons g rest ih =>
    rw [List.foldl_cons, ih]
    rfl

namespace Notebook

/-- A number stands for one place. -/
lemma Numbered.place_eq {nb : Notebook} (hn : nb.Numbered) {i j : Nat} {page : Page}
    (hi : nb.pages[i]? = some page) (hj : (nb.pages[j]?).map Page.id = some page.id) : j = i := by
  have hids : nb.ids[j]? = nb.ids[i]? := by
    rw [ids, List.getElem?_map, List.getElem?_map, hj, hi]
    rfl
  have hlt : j < nb.ids.length := by
    obtain ⟨other, hother, _⟩ := Option.map_eq_some_iff.mp hj
    simpa [ids] using (List.getElem?_eq_some_iff.mp hother).1
  exact (List.getElem?_inj hlt hn.nodup).mp hids

/-- What a step does to a page that is not active. -/
lemma Numbered.pageAfter_inactive {nb : Notebook} (hn : nb.Numbered) {i : Nat} {page : Page}
    (hplace : nb.pages[i]? = some page) (hi : i ≠ nb.active) (s : NotebookStep) :
    nb.pageAfter i page s = { page with
      title := (s.titleFor? nb page.id).getD page.title
      history := s.given?.elim page.history page.history.configured } := by
  cases s with
  | retitle index title =>
    have hiff : (nb.pages[index]?).map Page.id = some page.id ↔ i = index := by
      constructor
      · exact fun h => (hn.place_eq hplace h).symm
      · rintro rfl
        rw [hplace]
        rfl
    simp only [pageAfter, NotebookStep.titleFor?, NotebookStep.given?, hiff]
    split <;> rfl
  | turnTo | retitleActive | active =>
    simp [pageAfter, NotebookStep.titleFor?, NotebookStep.given?, hi]
  | renew | add | remove | configure | setQuiet | subscribe => rfl

end Notebook

namespace Session

/-- The title that a step gives to the page with a number. -/
def titleFor? (s : Session) (id : Nat) (step : SessionStep) : Option Text :=
  step.passedOn?.bind (·.titleFor? s.notebook id)

/-- The titles that some steps give to the page with a number. -/
def titlesFor (s : Session) (id : Nat) : List SessionStep → List Text
  | [] => []
  | step :: rest => (s.titleFor? id step).toList ++ (s.step step).session.titlesFor id rest

lemma titlesFor_append (s : Session) (id : Nat) (first second : List SessionStep) :
    s.titlesFor id (first ++ second) =
      s.titlesFor id first ++ (s.run first).titlesFor id second := by
  induction first generalizing s with
  | nil => rfl
  | cons step rest ih => simp [titlesFor, ih]

/-- In the notebook of a session, too, numbers are never given twice. -/
lemma numbersOn_step (s : Session) (step : SessionStep) :
    s.notebook.NumbersOn (s.step step).session.notebook := by
  rcases s.notebook_step step with h | ⟨st, h⟩
  · rw [h]
    exact Notebook.numbersOn_of_eq rfl rfl
  · rw [h]
    exact s.notebook.numbersOn_step st

lemma numbered_run {s : Session} (hn : s.notebook.Numbered) (steps : List SessionStep) :
    (s.run steps).notebook.Numbered ∧ s.notebook.nextId ≤ (s.run steps).notebook.nextId := by
  induction steps generalizing s with
  | nil => exact ⟨hn, Nat.le_refl _⟩
  | cons step rest ih =>
    obtain ⟨hrun, hle⟩ := ih (hn.of_numbersOn (s.numbersOn_step step))
    obtain ⟨count, hcount, _⟩ := s.numbersOn_step step
    have hstep : s.notebook.nextId ≤ (s.step step).session.notebook.nextId := by omega
    exact ⟨hrun, Nat.le_trans hstep hle⟩

/-- A step that is not one of the notebook as a whole gives nothing to a page that is not active,
and the others give it what they give in the notebook. -/
lemma notebook_step_given (s : Session) (step : SessionStep) :
    ((s.step step).session.notebook = s.notebook ∧ step.given? = none ∧
      ∀ id, s.titleFor? id step = none) ∨
    ∃ st, (s.step step).session.notebook = (s.notebook.step st).notebook ∧
      step.given? = st.given? ∧ ∀ id, s.titleFor? id step = st.titleFor? s.notebook id := by
  cases hst : step.passedOn? with
  | some st =>
    refine Or.inr ⟨st, s.notebook_of_passedOn hst, ?_, fun id => ?_⟩
    · simp [SessionStep.given?, hst]
    · simp [titleFor?, hst]
  | none =>
    have hgiven : step.given? = none := by simp [SessionStep.given?, hst]
    have htitle : ∀ id, s.titleFor? id step = none := fun id => by simp [titleFor?, hst]
    rcases s.notebook_of_not_passedOn hst with h | ⟨st, _, h⟩
    · exact Or.inl ⟨h, hgiven, htitle⟩
    · exact Or.inr ⟨.active st, h, hgiven, htitle⟩

/-- Behind every page with an old number that is not the active one's there is a page with this
number from before the step. -/
lemma inactive_step {s : Session} (hn : s.notebook.Numbered) {step : SessionStep} {page : Page}
    (hpage : page ∈ (s.step step).session.notebook.pages) (hlt : page.id < s.notebook.nextId)
    (hid : s.notebook.activePage.id ≠ page.id) :
    ∃ old ∈ s.notebook.pages, old.id = page.id ∧
      page.title = (s.titleFor? page.id step).getD old.title ∧
      page.history = step.given?.elim old.history old.history.configured := by
  rcases s.notebook_step_given step with ⟨h, hgiven, htitle⟩ | ⟨st, h, hgiven, htitle⟩
  · rw [h] at hpage
    refine ⟨page, hpage, rfl, ?_, ?_⟩
    · rw [htitle]
      rfl
    · rw [hgiven]
      rfl
  · rw [h] at hpage
    obtain ⟨j, hj⟩ := List.mem_iff_getElem?.mp hpage
    rcases Notebook.isNew_or_origin hj with hnew | ⟨i, old, horigin⟩
    · exact absurd hlt (Nat.not_lt.mpr hnew.nextId_le)
    · have hsame : old.id = page.id := by rw [horigin.page_eq, Notebook.id_pageAfter]
      have hi : i ≠ s.notebook.active := by
        rintro rfl
        have hold := horigin.place
        rw [Notebook.getElem?_active] at hold
        cases hold
        exact hid hsame
      have hafter := hn.pageAfter_inactive horigin.place hi st
      rw [← horigin.page_eq, hsame] at hafter
      refine ⟨old, List.mem_of_getElem? horigin.place, hsame, ?_, ?_⟩
      · rw [htitle, hafter]
      · rw [hgiven, hafter]

/-- The induction is on the run from its end, so that each page is traced back to the page with
its number before the last step. -/
lemma inactive_run {s : Session} (hn : s.notebook.Numbered) {page later : Page}
    {steps : List SessionStep} (hpage : page ∈ s.notebook.pages)
    (hlater : later ∈ (s.run steps).notebook.pages) (hid : later.id = page.id)
    (hinactive : ∀ i ≤ steps.length, (s.run (steps.take i)).notebook.activePage.id ≠ page.id) :
    later.title = (s.titlesFor page.id steps).getLastD page.title ∧
      later.history =
        (steps.filterMap SessionStep.given?).foldl History.configured page.history := by
  induction steps using List.reverseRecOn generalizing later with
  | nil =>
    have hsame : later = page := List.inj_on_of_nodup_map hn.nodup hlater hpage hid
    rw [hsame]
    exact ⟨rfl, rfl⟩
  | append_singleton steps step ih =>
    rw [run_append] at hlater
    obtain ⟨hrun, hle⟩ := numbered_run hn steps
    have hlt : later.id < (s.run steps).notebook.nextId := by
      have hold := hn.lt_nextId page.id (List.mem_map_of_mem hpage)
      omega
    have hquiet : (s.run steps).notebook.activePage.id ≠ later.id := by
      have hlast := hinactive steps.length (by simp)
      rwa [List.take_left', ← hid] at hlast
      rfl
    obtain ⟨old, hold, holdId, htitle, hhistory⟩ := inactive_step hrun hlater hlt hquiet
    have hbefore : ∀ i ≤ steps.length,
        (s.run (steps.take i)).notebook.activePage.id ≠ page.id := by
      intro i hi
      have hstill := hinactive i (by simp; omega)
      rwa [List.take_append_of_le_length hi] at hstill
    obtain ⟨htitleBefore, hhistoryBefore⟩ := ih hold (holdId.trans hid) hbefore
    constructor
    · rw [htitle, hid, htitleBefore, titlesFor_append, titlesFor]
      cases (s.run steps).titleFor? page.id step <;> simp [titlesFor]
    · rw [hhistory, hhistoryBefore, List.filterMap_append, List.foldl_append, List.filterMap_cons]
      cases step.given? <;> rfl

/-- A page that is in the notebook at the end of a run and is not active at any moment of it has
the text, caret, redo entries and burst that it had at the start. Its title is the last one that it
was given meanwhile, if there is one. Its undo entries, limit and pause are those from the start
but for the limits and pauses that all pages were given: each of those limits, which counts as one
at least, may cut off the oldest entries. -/
theorem inactive_page_left_alone (w : Char → Option Nat) (settings : Settings)
    (before steps : List SessionStep) :
    let s := (new w settings).run before
    let given := steps.filterMap SessionStep.given?
    ∀ page ∈ s.notebook.pages, ∀ later ∈ (s.run steps).notebook.pages, later.id = page.id →
      (∀ i ≤ steps.length, (s.run (steps.take i)).notebook.activePage.id ≠ page.id) →
      later.title = (s.titlesFor page.id steps).getLastD page.title ∧
      later.history = { page.history with
        undoStack := given.foldl (fun stack g => stack.take (max g.1 1)) page.history.undoStack
        limit := given.foldl (fun _ g => max g.1 1) page.history.limit
        pause := given.foldl (fun _ g => g.2) page.history.pause } := by
  intro s given page hpage later hlater hid hinactive
  have hn : s.notebook.Numbered :=
    (numbered_run (Notebook.numbered_new settings.undoLimit settings.pause) before).1
  obtain ⟨htitle, hhistory⟩ := inactive_run hn hpage hlater hid hinactive
  refine ⟨htitle, ?_⟩
  rw [hhistory, History.foldl_configured]

/-- The third page of three, with a redo entry and an entry too many for the new settings. Next to
it a burst goes on while the page in front of both is removed and settings and titles change. -/
theorem inactive_page_left_alone_moved :
    let w : Char → Option Nat := fun _ => some 1
    let settings : Settings := { Settings.standard with undoLimit := 5 }
    let before : List SessionStep := [.notebook (.add ['b'] []), .notebook (.add ['c'] []),
      .turnTo 2, .paste ['x'], .paste ['y'], .paste ['z'], .undo, .turnTo 1]
    let steps : List SessionStep := [.pressKey 'k' 0, .notebook (.remove 0),
      .configure { settings with undoLimit := 1 }, .notebook (.retitle 1 ['d']), .tick 999, .undo,
      .notebook (.add ['e'] []), .turnTo 2, .redo]
    let s := (new w settings).run before
    let page : Page := ⟨2, ['c'], ⟨⟨['x', 'y'], ⟨1, 3, 2⟩⟩,
      [⟨['x'], ⟨1, 2, 1⟩⟩, .atOrigin []], [⟨['x', 'y', 'z'], ⟨1, 4, 3⟩⟩], 5, 300, none⟩⟩
    let later : Page := ⟨2, ['d'], ⟨⟨['x', 'y'], ⟨1, 3, 2⟩⟩,
      [⟨['x'], ⟨1, 2, 1⟩⟩], [⟨['x', 'y', 'z'], ⟨1, 4, 3⟩⟩], 1, 300, none⟩⟩
    page ∈ s.notebook.pages ∧ later ∈ (s.run steps).notebook.pages ∧ later.id = page.id ∧
    (∀ i ≤ steps.length, (s.run (steps.take i)).notebook.activePage.id ≠ page.id) ∧
    s.titlesFor page.id steps = [['d']] ∧
    later.title = (s.titlesFor page.id steps).getLastD page.title ∧
    later.history = { page.history with
      undoStack := page.history.undoStack.take 1
      limit := 1
      pause := 300 } := by
  intro w settings before steps s page later
  have hpage : page ∈ s.notebook.pages := by decide
  have hlater : later ∈ (s.run steps).notebook.pages := by decide
  have hinactive : ∀ i ≤ steps.length,
      (s.run (steps.take i)).notebook.activePage.id ≠ page.id := by decide
  obtain ⟨htitle, hhistory⟩ :=
    inactive_page_left_alone w settings before steps page hpage later hlater rfl hinactive
  exact ⟨hpage, hlater, rfl, hinactive, by decide, htitle, hhistory⟩

end Session
end EditingEngine
