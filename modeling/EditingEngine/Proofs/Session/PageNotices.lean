import EditingEngine.Proofs.Session.PageIsolation

/-!
# What subscribers are told

A step tells all subscribers the same, one after the other: the page that is active behind
the step, or nothing. Nothing is told by a quiet notebook and by a step that is refused.
Apart from pages that are renewed in the place of a first page, a page becomes active only
with word of it. So whoever has been told of a page, and of nothing since, still knows which
page is active, although its place may have changed.
-/
namespace EditingEngine

/-- Whether a step was refused. -/
def NotebookAnswer.isRefusal : NotebookAnswer → Bool
  | .failed _ => true
  | _ => false

/-- Whether a step of a session was refused, by the session or by its notebook. -/
def SessionAnswer.isRefusal : SessionAnswer → Bool
  | .failed _ => true
  | .notebook answer => answer.isRefusal
  | _ => false

/-- Whether a step puts other pages in the place of all pages. -/
def NotebookStep.renews : NotebookStep → Bool
  | .renew _ => true
  | _ => false

/-- Whether a step of a session puts other pages in the place of all pages. -/
def SessionStep.renews (step : SessionStep) : Bool := step.passedOn?.any NotebookStep.renews

namespace Notebook

/-- The notices that tell every subscriber the same, in the order in which they subscribed. -/
def tellAll (nb : Notebook) (told : Option PageSummary) : List Notice :=
  (List.range nb.subscribers).flatMap fun subscriber => told.toList.map (⟨subscriber, ·⟩)

/-- The notices of a step tell all subscribers from before it the same, and this is right. -/
structure Tells (nb next : Notebook) (renews refused : Bool) (notices : List Notice)
    (told : Option PageSummary) : Prop where
  notices_eq : notices = nb.tellAll told
  eq_summary : ∀ page, told = some page → page = next.summary
  of_quiet : nb.quiet = true → told = none
  of_refused : refused = true → told = none
  isSome_iff : renews = true → nb.quiet = false → (told.isSome ↔ nb.active ≠ 0)
  same_page : renews = false → nb.quiet = false → told = none →
    next.activePage.id = nb.activePage.id

/-- What an announcement tells of a notebook. -/
def heard (nb : Notebook) : Option PageSummary := if nb.quiet then none else some nb.summary

lemma announce_eq (nb : Notebook) : nb.announce = nb.tellAll nb.heard := by
  unfold announce tellAll heard
  split
  · simp
  · simp [List.map_eq_flatMap]

section

variable {nb next : Notebook} {renews refused : Bool}

lemma tells_nothing (hfirst : renews = false ∨ nb.active = 0)
    (hsame : renews = true ∨ next.activePage.id = nb.activePage.id) :
    nb.Tells next renews refused [] none where
  notices_eq := by simp [tellAll]
  eq_summary := by simp
  of_quiet := fun _ => rfl
  of_refused := fun _ => rfl
  isSome_iff := by
    intro hrenews _
    simpa using hfirst.resolve_left (by simp [hrenews])
  same_page := by
    intro hrenews _ _
    exact hsame.resolve_left (by simp [hrenews])

lemma tells_announce (hquiet : next.quiet = nb.quiet) (hcount : next.subscribers = nb.subscribers)
    (hfirst : renews = false ∨ nb.active ≠ 0) :
    nb.Tells next renews false next.announce next.heard where
  notices_eq := by rw [announce_eq, tellAll, tellAll, hcount]
  eq_summary := by
    intro page hpage
    simp only [heard] at hpage
    split at hpage
    · cases hpage
    · exact (Option.some.inj hpage).symm
  of_quiet := by simp [heard, hquiet]
  of_refused := by simp
  isSome_iff := by
    intro hrenews hloud
    have hactive := hfirst.resolve_left (by simp [hrenews])
    simp [heard, hquiet, hloud, hactive]
  same_page := by
    intro _ hloud htold
    simp [heard, hquiet, hloud] at htold

/-- The number of the active page is the one at its place. -/
lemma id_activePage_eq (h : next.ids[next.active]? = nb.ids[nb.active]?) :
    next.activePage.id = nb.activePage.id := by
  simpa [ids, getElem?_active] using h

/-- The place of the active page is counted down when a page in front of it is removed. -/
lemma activePage_erase {index : Nat} (h : index < nb.pages.length) (hmore : nb.pages.length ≠ 1)
    (hne : index ≠ nb.active) : (nb.erase index h hmore).activePage = nb.activePage := by
  apply activePage_eq
  change (nb.pages.eraseIdx index)[nb.activeWithout index]? = some nb.activePage
  rw [← nb.getElem?_active, List.getElem?_eraseIdx]
  unfold activeWithout
  by_cases hbefore : index < nb.active
  · have hnot : ¬ nb.active - 1 < index := by omega
    have hback : nb.active - 1 + 1 = nb.active := by omega
    rw [if_pos hbefore, if_neg hnot, hback]
  · have hlt : nb.active < index := by omega
    rw [if_neg hbefore, if_neg hne, if_pos hlt]

/-- A request that is refused tells nothing. -/
lemma tells_refuse {α : Type} (nb : Notebook) (e : NotebookError) (answer : α → NotebookAnswer) :
    let outcome := (nb.refuse e).outcome answer
    nb.Tells outcome.notebook false outcome.answer.isRefusal outcome.notices none :=
  tells_nothing (Or.inl rfl) (Or.inr rfl)

lemma tells_turnTo (nb : Notebook) (index : Nat) :
    let outcome := nb.step (.turnTo index)
    ∃ told, nb.Tells outcome.notebook false outcome.answer.isRefusal outcome.notices told := by
  rcases Nat.lt_or_ge index nb.pages.length with hindex | hindex
  · rw [step, turnTo_of_lt hindex]
    exact ⟨_, tells_announce rfl rfl (Or.inl rfl)⟩
  · rw [step, turnTo_of_le hindex]
    exact ⟨none, nb.tells_refuse _ _⟩

lemma tells_retitle (nb : Notebook) (index : Nat) (title : Text) :
    let outcome := nb.step (.retitle index title)
    ∃ told, nb.Tells outcome.notebook false outcome.answer.isRefusal outcome.notices told := by
  rcases Nat.lt_or_ge index nb.pages.length with hindex | hindex
  · rw [step, retitle_of_lt hindex]
    refine ⟨none, tells_nothing (Or.inl rfl) (Or.inr (id_activePage_eq ?_))⟩
    exact congrArg (·[nb.active]?) (nb.ids_modifyAt (by simp) index)
  · rw [step, retitle_of_le hindex]
    exact ⟨none, nb.tells_refuse _ _⟩

lemma tells_remove (nb : Notebook) (index : Nat) :
    let outcome := nb.step (.remove index)
    ∃ told, nb.Tells outcome.notebook false outcome.answer.isRefusal outcome.notices told := by
  rcases Nat.lt_or_ge index nb.pages.length with hindex | hindex
  · by_cases hone : nb.pages.length = 1
    · rw [step, remove_of_last hindex hone]
      exact ⟨none, nb.tells_refuse _ _⟩
    · rw [step, remove_of_lt hindex hone]
      by_cases hactive : index = nb.active
      · simp only [Reply.outcome, if_pos hactive]
        exact ⟨_, tells_announce rfl rfl (Or.inl rfl)⟩
      · simp only [Reply.outcome, if_neg hactive]
        have hsame := congrArg Page.id (activePage_erase hindex hone hactive)
        exact ⟨none, tells_nothing (Or.inl rfl) (Or.inr hsame)⟩
  · rw [step, remove_of_le hindex]
    exact ⟨none, nb.tells_refuse _ _⟩

end

/-- All subscribers are told the same by a step, and it is right. -/
theorem tells_step (nb : Notebook) (s : NotebookStep) :
    ∃ told, nb.Tells (nb.step s).notebook s.renews (nb.step s).answer.isRefusal
      (nb.step s).notices told := by
  cases s with
  | turnTo index => exact nb.tells_turnTo index
  | renew pages =>
    by_cases hfirst : nb.active = 0
    · simp only [step, if_pos hfirst]
      exact ⟨none, tells_nothing (Or.inr hfirst) (Or.inl rfl)⟩
    · simp only [step, if_neg hfirst]
      exact ⟨_, tells_announce rfl rfl (Or.inr hfirst)⟩
  | add title content =>
    refine ⟨none, tells_nothing (Or.inl rfl) (Or.inr (id_activePage_eq ?_))⟩
    have hlt : nb.active < nb.ids.length := by simpa [ids] using nb.active_lt
    change ((nb.pages ++ nb.freshPages [(title, content)]).map Page.id)[nb.active]? = _
    rw [List.map_append]
    exact List.getElem?_append_left hlt
  | retitle index title => exact nb.tells_retitle index title
  | remove index => exact nb.tells_remove index
  | retitleActive title =>
    refine ⟨none, tells_nothing (Or.inl rfl) (Or.inr (id_activePage_eq ?_))⟩
    exact congrArg (·[nb.active]?) (nb.ids_modifyAt (by simp) nb.active)
  | active s =>
    refine ⟨none, tells_nothing (Or.inl rfl) (Or.inr (id_activePage_eq ?_))⟩
    exact congrArg (·[nb.active]?) (nb.ids_stepActive s)
  | configure limit pause =>
    have hids : (nb.configure limit pause).ids = nb.ids := by simp [ids, configure]
    refine ⟨none, tells_nothing (Or.inl rfl) (Or.inr (id_activePage_eq ?_))⟩
    exact congrArg (·[nb.active]?) hids
  | setQuiet | subscribe => exact ⟨none, tells_nothing (Or.inl rfl) (Or.inr rfl)⟩

lemma Numbered.run {nb : Notebook} (hn : nb.Numbered) (steps : List NotebookStep) :
    (nb.run steps).Numbered := by
  induction steps generalizing nb with
  | nil => exact hn
  | cons s rest ih => exact ih (hn.of_numbersOn (nb.numbersOn_step s))

end Notebook

namespace Session

/-- A step that is passed on tells what it tells in the notebook. -/
lemma notices_of_passedOn (s : Session) {step : SessionStep} {st : NotebookStep}
    (hst : step.passedOn? = some st) :
    (s.step step).notices = (s.notebook.step st).notices ∧
      (s.step step).answer.isRefusal = (s.notebook.step st).answer.isRefusal := by
  cases step with
  | configure | renew | notebook =>
    cases hst
    exact ⟨rfl, rfl⟩
  | turnTo index =>
    cases hst
    simp only [Session.step, Notebook.step, Notebook.Reply.outcome]
    cases (s.notebook.turnTo index).result <;> exact ⟨rfl, rfl⟩
  | _ => cases hst

lemma notices_of_not_passedOn (s : Session) {step : SessionStep} (hst : step.passedOn? = none) :
    (s.step step).notices = [] := by
  cases step with
  | configure | renew | notebook | turnTo => cases hst
  | _ => rfl

theorem tells_step (s : Session) (step : SessionStep) :
    ∃ told, s.notebook.Tells (s.step step).session.notebook step.renews
      (s.step step).answer.isRefusal (s.step step).notices told := by
  cases hst : step.passedOn? with
  | some st =>
    obtain ⟨hnotices, hrefusal⟩ := s.notices_of_passedOn hst
    have hrenews : step.renews = st.renews := by simp [SessionStep.renews, hst]
    rw [s.notebook_of_passedOn hst, hnotices, hrefusal, hrenews]
    exact s.notebook.tells_step st
  | none =>
    have hrenews : step.renews = false := by simp [SessionStep.renews, hst]
    rw [s.notices_of_not_passedOn hst, hrenews]
    refine ⟨none, Notebook.tells_nothing (Or.inl rfl) (Or.inr ?_)⟩
    rcases s.notebook_of_not_passedOn hst with h | ⟨st, _, h⟩
    · rw [h]
    · rw [h]
      apply Notebook.id_activePage_eq
      exact congrArg (·[s.notebook.active]?) (s.notebook.ids_stepActive st)

/-- After every run of a notebook or of a session, all subscribers are told the same by each
further step, in the order in which they subscribed: nothing, or the place, the title and the text
of the page that is active behind the step. They are told nothing while the notebook is quiet, and
nothing by a step that is refused. If it is not quiet, a step that renews all pages tells them of
the first page just if the active page was not in the first place, and every other step that tells
nothing leaves active the page that was active before, by its number, which no other page has. -/
theorem notices_tell_activePage :
    (∀ limit pause (before : List NotebookStep) step,
      let nb := (Notebook.new limit pause).run before
      let outcome := nb.step step
      outcome.notebook.ids.Nodup ∧ ∃ told, nb.Tells outcome.notebook step.renews
        outcome.answer.isRefusal outcome.notices told) ∧
    ∀ w settings (before : List SessionStep) step,
      let s := (new w settings).run before
      let outcome := s.step step
      outcome.session.notebook.ids.Nodup ∧ ∃ told, s.notebook.Tells outcome.session.notebook
        step.renews outcome.answer.isRefusal outcome.notices told := by
  constructor
  · intro limit pause before step nb outcome
    have hn : nb.Numbered := (Notebook.numbered_new limit pause).run before
    exact ⟨(hn.of_numbersOn (nb.numbersOn_step step)).nodup, nb.tells_step step⟩
  · intro w settings before step s outcome
    have hn : s.notebook.Numbered :=
      (numbered_run (Notebook.numbered_new settings.undoLimit settings.pause) before).1
    exact ⟨(hn.of_numbersOn (s.numbersOn_step step)).nodup, s.tells_step step⟩

-- Two subscribers hear of the page that takes the place of the active one when that is removed,
-- and nothing when the page in front of it is, although the active page moves up.
example :
    let nb := (Notebook.new 20 300).run [.add ['b'] ['x'], .subscribe, .subscribe, .turnTo 1]
    (nb.step (.remove 1)).notices =
      [⟨0, ⟨0, Notebook.firstTitle, []⟩⟩, ⟨1, ⟨0, Notebook.firstTitle, []⟩⟩] ∧
    (nb.step (.remove 0)).notices = [] ∧
    (nb.step (.remove 0)).notebook.summary = ⟨0, ['b'], ['x']⟩ := by decide

end Session
end EditingEngine
