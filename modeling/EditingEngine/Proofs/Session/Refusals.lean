import EditingEngine.Proofs.Session.PageNotices

/-!
# Requests that are refused

A request for a page that is not there is refused, and so is the removal of the last page. Nothing
else is. A refused step leads to the notebook or session from before it, with the burst on the
active page and the remembered keys, and nobody is told of it. A removal that is not refused takes
one page out of its place and leaves the active page active, or if it was this page, the one in
front of it or else the new first page.
-/
namespace EditingEngine

namespace Notebook

/-- What is left when a page is removed from its place. -/
structure Without (nb next : Notebook) (index : Nat) (page : Page) : Prop where
  pages : ∃ front back, front.length = index ∧ nb.pages = front ++ page :: back ∧
    next.pages = front ++ back
  other_active : index ≠ nb.active → next.activePage = nb.activePage
  pred_active : index = nb.active → 0 < index → nb.pages[index - 1]? = some next.activePage
  first_active : index = nb.active → index = 0 → next.pages.head? = some next.activePage

/-- A request is refused for certain reasons and no others, and then leaves everything as it is. -/
structure Reply.RefusedFor {α : Type} (reply : Reply α) (nb : Notebook)
    (reason : NotebookError → Prop) : Prop where
  error_iff : ∀ e, reply.result = .error e ↔ reason e
  unchanged : ∀ e, reply.result = .error e → reply = nb.refuse e

section

variable {nb : Notebook} {index : Nat} {e : NotebookError}

section

variable {α : Type} {reply : Reply α}

lemma refusedFor_refuse (nb : Notebook) (e : NotebookError) :
    (nb.refuse e : Reply α).RefusedFor nb (· = e) where
  error_iff := fun other => by simp [refuse, eq_comm]
  unchanged := by
    rintro other ⟨⟩
    rfl

lemma refusedFor_of_ok {a : α} (hok : reply.result = .ok a) (nb : Notebook) :
    reply.RefusedFor nb fun _ => False where
  error_iff := fun e => by simp [hok]
  unchanged := by
    intro e h
    rw [hok] at h
    cases h

variable {reason : NotebookError → Prop} {answer : α → NotebookAnswer}

lemma Reply.RefusedFor.imp (h : reply.RefusedFor nb reason) {other : NotebookError → Prop}
    (hiff : ∀ e, reason e ↔ other e) : reply.RefusedFor nb other :=
  ⟨fun e => (h.error_iff e).trans (hiff e), h.unchanged⟩

/-- No page, snapshot or place that a request is answered with reads as a refusal. -/
lemma Reply.failed_outcome_iff (hanswer : ∀ a, answer a ≠ .failed e) :
    (reply.outcome answer).answer = .failed e ↔ reply.result = .error e := by
  unfold outcome
  cases reply.result with
  | error other => simp
  | ok a => simpa using hanswer a

lemma Reply.RefusedFor.failed_iff (h : reply.RefusedFor nb reason)
    (hanswer : ∀ a, answer a ≠ .failed e) :
    (reply.outcome answer).answer = .failed e ↔ reason e :=
  (failed_outcome_iff hanswer).trans (h.error_iff e)

lemma Reply.RefusedFor.outcome_of_failed (h : reply.RefusedFor nb reason)
    (hanswer : ∀ a, answer a ≠ .failed e) (hfailed : (reply.outcome answer).answer = .failed e) :
    reply.outcome answer = ⟨nb, [], .failed e⟩ := by
  rw [h.unchanged e ((failed_outcome_iff hanswer).mp hfailed)]
  rfl

end

/-- There is no page at the place, and this is the error. -/
def OutOfRange (nb : Notebook) (index : Nat) (e : NotebookError) : Prop :=
  nb.pages.length ≤ index ∧ e = .outOfRange index nb.pages.length

lemma outOfRange_iff (h : nb.pages.length ≤ index) :
    nb.OutOfRange index e ↔ e = .outOfRange index nb.pages.length := and_iff_right h

lemma not_outOfRange (h : index < nb.pages.length) : ¬ nb.OutOfRange index e :=
  fun hout => Nat.not_lt_of_le hout.1 h

lemma refusedFor_outOfRange {α : Type} {reply : Reply α}
    (hle : nb.pages.length ≤ index → reply = nb.refuse (.outOfRange index nb.pages.length))
    (hlt : index < nb.pages.length → ∃ a, reply.result = .ok a) :
    reply.RefusedFor nb (nb.OutOfRange index) := by
  rcases Nat.lt_or_ge index nb.pages.length with hindex | hindex
  · obtain ⟨a, hok⟩ := hlt hindex
    exact (refusedFor_of_ok hok nb).imp fun e => iff_of_false id (not_outOfRange hindex)
  · rw [hle hindex]
    exact (nb.refusedFor_refuse _).imp fun e => (outOfRange_iff hindex).symm

lemma turnTo_refusedFor (nb : Notebook) (index : Nat) :
    (nb.turnTo index).RefusedFor nb (nb.OutOfRange index) :=
  refusedFor_outOfRange turnTo_of_le fun h => ⟨_, congrArg Reply.result (turnTo_of_lt h)⟩

lemma retitle_refusedFor (nb : Notebook) (index : Nat) (title : Text) :
    (nb.retitle index title).RefusedFor nb (nb.OutOfRange index) :=
  refusedFor_outOfRange (fun h => retitle_of_le h title)
    fun h => ⟨_, congrArg Reply.result (retitle_of_lt h title)⟩

lemma remove_refusedFor (nb : Notebook) (index : Nat) :
    (nb.remove index).RefusedFor nb fun e => nb.OutOfRange index e ∨
      (index < nb.pages.length ∧ nb.pages.length = 1 ∧ e = .lastPage) := by
  rcases Nat.lt_or_ge index nb.pages.length with hindex | hindex
  · by_cases hone : nb.pages.length = 1
    · rw [remove_of_last hindex hone]
      refine (nb.refusedFor_refuse _).imp fun e => ?_
      rw [or_iff_right (not_outOfRange hindex), and_iff_right hindex, and_iff_right hone]
    · rw [remove_of_lt hindex hone]
      refine (refusedFor_of_ok rfl nb).imp fun e => iff_of_false id ?_
      rintro (hout | ⟨-, hlast, -⟩)
      · exact not_outOfRange hindex hout
      · exact hone hlast
  · rw [remove_of_le hindex]
    refine (nb.refusedFor_refuse _).imp fun e => ?_
    rw [outOfRange_iff hindex, or_iff_left fun h => Nat.not_lt_of_le hindex h.1]

/-- Of the steps of a notebook only three can be refused, and these leave no trace. -/
theorem step_of_failed {s : NotebookStep} (h : (nb.step s).answer = .failed e) :
    nb.step s = ⟨nb, [], .failed e⟩ := by
  cases s with
  | turnTo index => exact (nb.turnTo_refusedFor index).outcome_of_failed (by simp) h
  | retitle index title => exact (nb.retitle_refusedFor index title).outcome_of_failed (by simp) h
  | remove index => exact (nb.remove_refusedFor index).outcome_of_failed (by simp) h
  | _ => cases h

lemma exists_of_isRefusal {answer : NotebookAnswer} (h : answer.isRefusal = true) :
    ∃ e, answer = .failed e := by
  cases answer with
  | failed e => exact ⟨e, rfl⟩
  | _ => cases h

lemma activeWithout_active (h : index = nb.active) : nb.activeWithout index = index - 1 := by
  have hnot : ¬ index < nb.active := by omega
  rw [activeWithout, if_neg hnot, if_pos h]

lemma without_erase (h : index < nb.pages.length) (hmore : nb.pages.length ≠ 1) :
    nb.Without (nb.erase index h hmore) index nb.pages[index] := by
  set next := nb.erase index h hmore
  have hpages : next.pages = nb.pages.eraseIdx index := rfl
  have hactive : index = nb.active → next.active = index - 1 := activeWithout_active
  refine ⟨⟨nb.pages.take index, nb.pages.drop (index + 1), ?_, ?_, ?_⟩, ?_, ?_, ?_⟩
  · exact List.length_take_of_le (Nat.le_of_lt h)
  · rw [List.getElem_cons_drop, List.take_append_drop]
  · rw [hpages, List.eraseIdx_eq_take_drop_succ]
  · exact activePage_erase h hmore
  · intro hindex hpos
    -- The page in front stands before the one taken out, so it has the same index afterwards.
    rw [← next.getElem?_active, hpages, hactive hindex, List.getElem?_eraseIdx,
      if_pos (Nat.sub_lt hpos Nat.one_pos)]
  · intro hindex hfirst
    rw [List.head?_eq_getElem?, ← next.getElem?_active, hactive hindex, hfirst]

end

end Notebook

namespace Session

section

variable {s : Session} {index : Nat} {e : NotebookError}

lemma failed_turnTo_iff : (s.step (.turnTo index)).answer = .failed e ↔
    (s.notebook.turnTo index).result = .error e := by
  simp only [step]
  cases (s.notebook.turnTo index).result <;> simp

/-- The keys are forgotten only once there is a page to turn to. -/
lemma session_turnTo_of_error (h : (s.notebook.turnTo index).result = .error e) :
    (s.step (.turnTo index)).session = s ∧ (s.step (.turnTo index)).notices = [] := by
  have hreply := (s.notebook.turnTo_refusedFor index).unchanged e h
  simp only [step, hreply]
  exact ⟨rfl, rfl⟩

end

theorem step_of_isRefusal {s : Session} {step : SessionStep}
    (h : (s.step step).answer.isRefusal = true) :
    (s.step step).session = s ∧ (s.step step).notices = [] := by
  cases step with
  | turnTo index =>
    cases hresult : (s.notebook.turnTo index).result with
    | error e => exact session_turnTo_of_error hresult
    | ok shown => simp [Session.step, hresult, SessionAnswer.isRefusal] at h
  | notebook step =>
    obtain ⟨e, he⟩ := Notebook.exists_of_isRefusal h
    have hstep := Notebook.step_of_failed he
    simp [Session.step, hstep]
  | _ => cases h

/-- A notebook refuses a request to turn to a page or to give it another title exactly if there is
no page at the place, and the removal of a page if there is none at the place or it is the last one
left. So does a session. Whatever step of a notebook or a session is refused, it leads to the same
notebook or session, with all pages and their histories, the settings and the remembered keys, and
no subscriber is told of it. Every other removal gives back the page at the place and keeps the
others in order. If the active page was another one it stays active, and in its place the page in
front of it becomes active, or the new first page. Pages are told apart by number. -/
theorem refusals_change_nothing :
    (∀ (nb : Notebook) (index : Nat) (title : Text) (e : NotebookError),
      let count := nb.pages.length
      ((nb.step (.turnTo index)).answer = .failed e ↔
        count ≤ index ∧ e = .outOfRange index count) ∧
      ((nb.step (.retitle index title)).answer = .failed e ↔
        count ≤ index ∧ e = .outOfRange index count) ∧
      ((nb.step (.remove index)).answer = .failed e ↔
        (count ≤ index ∧ e = .outOfRange index count) ∨
          (index < count ∧ count = 1 ∧ e = .lastPage))) ∧
    (∀ (s : Session) (index : Nat) (e : NotebookError),
      let count := s.notebook.pages.length
      (s.step (.turnTo index)).answer = .failed e ↔
        count ≤ index ∧ e = .outOfRange index count) ∧
    (∀ (nb : Notebook) step e, (nb.step step).answer = .failed e →
      (nb.step step).notebook = nb ∧ (nb.step step).notices = []) ∧
    (∀ (s : Session) step, (s.step step).answer.isRefusal = true →
      (s.step step).session = s ∧ (s.step step).notices = []) ∧
    (∀ (nb : Notebook) index, index < nb.pages.length → nb.pages.length ≠ 1 →
      let outcome := nb.step (.remove index)
      ∃ page, outcome.answer = .removed page ∧ nb.Without outcome.notebook index page) ∧
    (∀ limit pause (before : List NotebookStep),
      ((Notebook.new limit pause).run before).ids.Nodup) ∧
    ∀ w settings (before : List SessionStep), ((new w settings).run before).notebook.ids.Nodup := by
  refine ⟨?_, ?_, ?_, ?_, ?_, ?_, ?_⟩
  · intro nb index title e count
    exact ⟨(nb.turnTo_refusedFor index).failed_iff (by simp),
      (nb.retitle_refusedFor index title).failed_iff (by simp),
      (nb.remove_refusedFor index).failed_iff (by simp)⟩
  · intro s index e count
    exact failed_turnTo_iff.trans ((s.notebook.turnTo_refusedFor index).error_iff e)
  · intro nb step e hfailed
    rw [Notebook.step_of_failed hfailed]
    exact ⟨rfl, rfl⟩
  · exact fun s step hrefused => step_of_isRefusal hrefused
  · intro nb index hindex hmore outcome
    have houtcome : outcome = (nb.remove index).outcome .removed := rfl
    rw [houtcome, Notebook.remove_of_lt hindex hmore]
    exact ⟨_, rfl, Notebook.without_erase hindex hmore⟩
  · exact fun limit pause before => ((Notebook.numbered_new limit pause).run before).nodup
  · intro w settings before
    exact (numbered_run (Notebook.numbered_new settings.undoLimit settings.pause) before).1.nodup

/-- In the middle of a burst, with a subscriber, a page behind the last one is asked for in three
ways. When the active first page is removed the next one comes into its place, and then this is the
last page. -/
theorem refusals_change_nothing_typing :
    let w : Char → Option Nat := fun _ => some 1
    let s := (new w .standard).run
      [.notebook (.add ['b'] ['x']), .notebook .subscribe, .pressKey '{' 0]
    let nb := s.notebook
    let next := (nb.step (.remove 0)).notebook
    s.deadline? = some 300 ∧ s.keys = ⟨some '{', none⟩ ∧
    (s.step (.turnTo 2)).answer = .failed (.outOfRange 2 2) ∧
    (s.step (.turnTo 2)).session = s ∧ (s.step (.turnTo 2)).notices = [] ∧
    (nb.step (.retitle 2 ['c'])).answer = .failed (.outOfRange 2 2) ∧
    (nb.step (.retitle 2 ['c'])).notebook = nb ∧ (nb.step (.retitle 2 ['c'])).notices = [] ∧
    0 < nb.pages.length ∧ nb.pages.length ≠ 1 ∧
    (∃ page, (nb.step (.remove 0)).answer = .removed page ∧ nb.Without next 0 page) ∧
    next.summary = ⟨0, ['b'], ['x']⟩ ∧
    (next.step (.remove 0)).answer = .failed .lastPage ∧
    (next.step (.remove 0)).notebook = next ∧ (next.step (.remove 0)).notices = [] := by
  intro w s nb next
  obtain ⟨hfailed, hturn, hnotebook, hsession, hremove, -⟩ := refusals_change_nothing
  have hrefused : (s.step (.turnTo 2)).answer = .failed (.outOfRange 2 2) :=
    (hturn s 2 _).mpr (by decide)
  have hretitle : (nb.step (.retitle 2 ['c'])).answer = .failed (.outOfRange 2 2) :=
    ((hfailed nb 2 ['c'] _).2.1).mpr (by decide)
  have hlast : (next.step (.remove 0)).answer = .failed .lastPage :=
    ((hfailed next 0 [] _).2.2).mpr (by decide)
  have hsame := hsession s (.turnTo 2) (by rw [hrefused]; rfl)
  have hpages : 0 < nb.pages.length ∧ nb.pages.length ≠ 1 := by decide
  exact ⟨by decide, by decide, hrefused, hsame.1, hsame.2, hretitle,
    (hnotebook nb _ _ hretitle).1, (hnotebook nb _ _ hretitle).2, hpages.1, hpages.2,
    hremove nb 0 hpages.1 hpages.2, by decide, hlast,
    (hnotebook next _ _ hlast).1, (hnotebook next _ _ hlast).2⟩

end Session
end EditingEngine
