import EditingEngine.Proofs.History.Timeline
import EditingEngine.Proofs.Notebook.PageOrigins
import EditingEngine.Proofs.Session.Steps
import Mathlib.Data.List.Induction

/-!
# Bursts of the active page

Only the active page can be in the middle of a burst: turning to another page ends the
burst, a page that takes the place of a removed active page had none, and new pages have
none. So the deadline of a session is the only one there is. A burst that goes on was begun
by an edit of the page that is active now, and this page has been active ever since, so
what a poll puts on its undo stack is a snapshot of its own from just before that edit.
-/
namespace EditingEngine

namespace History

/-- A burst that goes on after a step went on before it, or the step has begun it with another
text. -/
lemma burst_step {h : History} {st : HistoryStep} {b : Burst} (hb : (h.step st).burst = some b) :
    (∃ deadline, h.burst = some ⟨b.before, deadline⟩) ∨
      h.current = b.before ∧ (h.step st).current.content ≠ h.current.content := by
  cases st with
  | edit next => simp [step, burst_edit] at hb
  | undo => simp [step, burst_undo] at hb
  | redo => simp [step, burst_redo] at hb
  | endBurst => simp [step] at hb
  | restart content => cases hb
  | tick now =>
    simp only [step, tick] at hb
    split at hb
    · simp at hb
    · exact Or.inl ⟨_, hb⟩
  | burstEdit next now =>
    cases hburst : h.burst with
    | some b' =>
      simp only [step, burstEdit, hburst] at hb
      cases hb
      exact Or.inl ⟨_, rfl⟩
    | none =>
      by_cases hsame : next.content = h.current.content
      · simp only [step, burstEdit, hburst, if_pos hsame] at hb
        exact absurd (hburst.symm.trans hb) (by simp)
      · simp only [step, burstEdit, hburst, if_neg hsame] at hb ⊢
        cases hb
        exact Or.inr ⟨rfl, hsame⟩
  | moveCaret | withLimit | withPause => exact Or.inl ⟨_, hb⟩

/-- The end of a burst that counts leaves the snapshot from before it on top of the undo stack. -/
lemma Consistent.head?_endBurst {h : History} (hc : h.Consistent) (hcounts : h.burstCounts = true) :
    ∃ b, h.burst = some b ∧ h.endBurst.undoStack.head? = some b.before := by
  have hchanged : h.isChanged = true := hc.burstCounts_eq ▸ hcounts
  cases hb : h.burst with
  | none => simp [isChanged_of_quiet hb] at hchanged
  | some b =>
    have hbase : h.base = b.before := by simp [base, hb]
    have hpush := push_of_differs (h := { h with burst := none, redoStack := [] }) hc.undo_differs
    refine ⟨b, rfl, ?_⟩
    rw [endBurst_of_changed hchanged, hpush, List.take_cons hc.limit_pos, hbase]
    rfl

end History

namespace Notebook

/-- Only the active page can be in the middle of a burst. -/
def QuietElsewhere (nb : Notebook) : Prop :=
  ∀ i page, nb.pages[i]? = some page → i ≠ nb.active → page.history.burst = none

section

variable {nb : Notebook}

lemma quietElsewhere_new (limit pause : Nat) : (new limit pause).QuietElsewhere := by
  intro i page hpage _
  obtain rfl := List.mem_singleton.mp (List.mem_of_getElem? hpage)
  rfl

variable (hq : nb.QuietElsewhere)
include hq

theorem QuietElsewhere.step (s : NotebookStep) : (nb.step s).notebook.QuietElsewhere := by
  intro j page hpage hj
  rcases isNew_or_origin hpage with hnew | ⟨i, old, horigin⟩
  · exact hnew.burst
  · by_cases hi : i = nb.active
    · exact (horigin.active hi).resolve_left hj
    · rw [horigin.page_eq, burst_pageAfter_inactive hi]
      exact hq i old horigin.place hi

/-- Turning to a page ends the only burst there can be. -/
lemma QuietElsewhere.turnTo {index : Nat} (hindex : index < nb.pages.length) :
    ∀ page ∈ (nb.step (.turnTo index)).notebook.pages, page.history.burst = none := by
  intro page hpage
  obtain ⟨j, hj⟩ := List.mem_iff_getElem?.mp hpage
  obtain ⟨old, horigin⟩ := origin_turnTo hj
  rw [horigin.page_eq]
  by_cases hi : j = nb.active
  · simp [pageAfter, hi, hindex]
  · rw [burst_pageAfter_inactive hi]
    exact hq j old horigin.place hi

/-- A burst that goes on after a step is one of the page that was active before it, too. -/
lemma QuietElsewhere.burst_step {s : NotebookStep} {b : Burst}
    (hb : (nb.step s).notebook.activePage.history.burst = some b) :
    (nb.step s).notebook.activePage.id = nb.activePage.id ∧
      ((∃ deadline, nb.activePage.history.burst = some ⟨b.before, deadline⟩) ∨
        nb.activePage.history.current = b.before ∧
          (nb.step s).notebook.activePage.content ≠ nb.activePage.content) := by
  rcases isNew_or_origin (getElem?_active (nb.step s).notebook) with hnew | ⟨i, old, horigin⟩
  · simp [hnew.burst] at hb
  · have hi : i = nb.active := by
      by_contra hi
      rw [horigin.page_eq, burst_pageAfter_inactive hi, hq i old horigin.place hi] at hb
      cases hb
    have hold : old = nb.activePage := by
      have hplace := horigin.place
      rw [hi, getElem?_active] at hplace
      exact (Option.some.inj hplace).symm
    have hpage := horigin.page_eq
    rw [hi, hold] at hpage
    rw [hpage] at hb ⊢
    refine ⟨id_pageAfter nb _ _ s, ?_⟩
    cases s with
    | active st =>
      simp only [pageAfter, if_pos] at hb ⊢
      exact History.burst_step hb
    | turnTo index =>
      simp only [pageAfter] at hb
      split at hb
      · simp at hb
      · exact Or.inl ⟨_, hb⟩
    | retitle index title =>
      simp only [pageAfter] at hb
      split at hb <;> exact Or.inl ⟨_, hb⟩
    | retitleActive title =>
      simp only [pageAfter, if_pos] at hb
      exact Or.inl ⟨_, hb⟩
    | renew | add | remove | configure | setQuiet | subscribe => exact Or.inl ⟨_, hb⟩

end

/-- All histories of a notebook stay consistent. -/
lemma Keeps.consistent_step {nb : Notebook} (hk : nb.Keeps History.Consistent)
    (s : NotebookStep) : (nb.step s).notebook.Keeps History.Consistent := by
  apply hk.step
  · exact fun _ hc => hc.endBurst
  · intro limit pause _
    exact hk.configure (fun _ hc => (hc.withLimit limit).step (.withPause pause)) fun content =>
      History.consistent_start content limit pause
  · exact fun hst _ hc => hc.step hst

theorem QuietElsewhere.run {nb : Notebook} (hq : nb.QuietElsewhere) (steps : List NotebookStep) :
    (nb.run steps).QuietElsewhere := by
  induction steps generalizing nb with
  | nil => exact hq
  | cons s rest ih => exact ih (hq.step s)

end Notebook

namespace Session

/-- What every run keeps: bursts are on the active page only, and all histories are consistent. -/
structure KeepsBursts (s : Session) : Prop where
  quiet : s.notebook.QuietElsewhere
  consistent : s.notebook.Keeps History.Consistent

lemma keepsBursts_new (w : Char → Option Nat) (settings : Settings) :
    (new w settings).KeepsBursts :=
  ⟨Notebook.quietElsewhere_new _ _,
    Notebook.keeps_new fun content => History.consistent_start content _ _⟩

lemma KeepsBursts.step {s : Session} (hs : s.KeepsBursts) (step : SessionStep) :
    (s.step step).session.KeepsBursts := by
  obtain ⟨hq, hk⟩ := hs
  rcases s.notebook_step step with h | ⟨st, h⟩
  · exact ⟨by rwa [h], by rwa [h]⟩
  · exact ⟨by rw [h]; exact hq.step st, by rw [h]; exact hk.consistent_step st⟩

lemma KeepsBursts.run {s : Session} (hs : s.KeepsBursts) (steps : List SessionStep) :
    (s.run steps).KeepsBursts := by
  induction steps generalizing s with
  | nil => exact hs
  | cons step rest ih => exact ih (hs.step step)

lemma KeepsBursts.deadline?_iff {s : Session} (hs : s.KeepsBursts) (time : Nat) :
    s.deadline? = some time ↔
      ∃ page ∈ s.notebook.pages, page.history.deadline? = some time := by
  constructor
  · intro h
    exact ⟨s.notebook.activePage, s.notebook.activePage_mem, h⟩
  · rintro ⟨page, hpage, htime⟩
    obtain ⟨i, hi⟩ := List.mem_iff_getElem?.mp hpage
    by_cases hactive : i = s.notebook.active
    · rw [hactive, Notebook.getElem?_active] at hi
      cases hi
      exact htime
    · simp [History.deadline?, hs.quiet i page hi hactive] at htime

/-- A burst that goes on after a step of a session, seen from before the step. -/
lemma KeepsBursts.burst_step {s : Session} (hs : s.KeepsBursts) {step : SessionStep} {b : Burst}
    (hb : (s.step step).session.history.burst = some b) :
    (s.step step).session.notebook.activePage.id = s.notebook.activePage.id ∧
      ((∃ deadline, s.history.burst = some ⟨b.before, deadline⟩) ∨
        s.history.current = b.before ∧ (s.step step).session.text ≠ s.text) := by
  unfold text history at *
  rcases s.notebook_step step with h | ⟨st, h⟩
  · rw [h] at hb ⊢
    exact ⟨rfl, Or.inl ⟨_, hb⟩⟩
  · rw [h] at hb ⊢
    exact hs.quiet.burst_step hb

/-- The induction is on the run from its end, back to the step that has begun the burst. -/
lemma KeepsBursts.burst_run {s : Session} (hs : s.KeepsBursts) (hquiet : s.history.burst = none)
    {steps : List SessionStep} {b : Burst} (hb : (s.run steps).history.burst = some b) :
    ∃ k < steps.length, (s.run (steps.take k)).history.current = b.before ∧
      (s.run (steps.take (k + 1))).text ≠ (s.run (steps.take k)).text ∧
      ∀ i, k ≤ i → i ≤ steps.length → (s.run (steps.take i)).notebook.activePage.id =
        (s.run steps).notebook.activePage.id := by
  induction steps using List.reverseRecOn generalizing b with
  | nil => simp [hquiet] at hb
  | append_singleton steps step ih =>
    have hearlier : ∀ i ≤ steps.length, (steps ++ [step]).take i = steps.take i :=
      fun i hi => List.take_append_of_le_length hi
    have hall : (steps ++ [step]).take (steps.length + 1) = steps ++ [step] :=
      List.take_of_length_le (by simp)
    have hlast : s.run (steps ++ [step]) = ((s.run steps).step step).session := run_append s _ _
    rw [hlast] at hb
    obtain ⟨hid, hgoing | ⟨hbefore, htext⟩⟩ := (hs.run steps).burst_step hb
    · obtain ⟨deadline, hgoing⟩ := hgoing
      obtain ⟨k, hk, hbefore, htext, hactive⟩ := ih hgoing
      refine ⟨k, by simp; omega, ?_, ?_, ?_⟩
      · rwa [hearlier k hk.le]
      · rwa [hearlier k hk.le, hearlier (k + 1) hk]
      · intro i hki hi
        rw [List.length_append, List.length_singleton] at hi
        rcases Nat.le_succ_iff.mp hi with hi | rfl
        · rw [hearlier i hi, hactive i hki hi, hlast, hid]
        · rw [hall]
    · refine ⟨steps.length, by simp, ?_, ?_, ?_⟩
      · rwa [hearlier _ le_rfl, List.take_length]
      · rwa [hearlier _ le_rfl, List.take_length, hall, hlast]
      · intro i hki hi
        rw [List.length_append, List.length_singleton] at hi
        rcases Nat.le_succ_iff.mp hi with hi | rfl
        · rw [Nat.le_antisymm hi hki, hearlier _ le_rfl, List.take_length, hlast, hid]
        · rw [hall]

/-- A poll that answers yes puts the snapshot from before the burst on top of the undo stack. -/
lemma KeepsBursts.tick {s : Session} (hs : s.KeepsBursts) {time : Nat}
    (hyes : (s.step (.tick time)).answer = .flag true) :
    ∃ b, s.history.burst = some b ∧
      (s.step (.tick time)).session.history.undoStack.head? = some b.before := by
  have hboth : (s.history.isDue time && s.history.burstCounts) = true := by
    simpa [Session.step] using hyes
  rw [Bool.and_eq_true] at hboth
  obtain ⟨b, hb, hhead⟩ := hs.consistent.activePage.head?_endBurst hboth.2
  refine ⟨b, hb, ?_⟩
  have hended : (s.step (.tick time)).session.history = s.history.endBurst := by
    simp only [Session.step, history_stepHistory, History.step, History.tick, if_pos hboth.1]
  rw [hended]
  exact hhead

/-- After every run of a session, and after every run of a notebook on its own, only the active
page can be in the middle of a burst. So the deadline of the session is the only one that any page
has, and once another page has been turned to, no page has one. If there is none, a poll that
answers yes after some more steps has put a snapshot on the undo stack from just before one of
these steps, which has changed the text of the page that is active now and has been active from
this step on. -/
theorem burst_only_on_activePage (w : Char → Option Nat) (settings : Settings)
    (steps : List SessionStep) :
    let s := (new w settings).run steps
    s.notebook.QuietElsewhere ∧
    (∀ limit pause alone, ((Notebook.new limit pause).run alone).QuietElsewhere) ∧
    (∀ time, s.deadline? = some time ↔
      ∃ page ∈ s.notebook.pages, page.history.deadline? = some time) ∧
    (∀ turn index, turn.passedOn? = some (.turnTo index) → index < s.notebook.pages.length →
      ∀ page ∈ (s.step turn).session.notebook.pages, page.history.burst = none) ∧
    (s.history.burst = none → ∀ more time,
      ((s.run more).step (.tick time)).answer = .flag true → ∃ k < more.length,
        ((s.run more).step (.tick time)).session.history.undoStack.head? =
          some (s.run (more.take k)).history.current ∧
        (s.run (more.take (k + 1))).text ≠ (s.run (more.take k)).text ∧
        ∀ i, k ≤ i → i ≤ more.length → (s.run (more.take i)).notebook.activePage.id =
          (s.run more).notebook.activePage.id) := by
  intro s
  have hs : s.KeepsBursts := (keepsBursts_new w settings).run steps
  refine ⟨hs.quiet, ?_, hs.deadline?_iff, ?_, ?_⟩
  · intro limit pause alone
    exact (Notebook.quietElsewhere_new limit pause).run alone
  · intro turn index hturn hindex
    rw [s.notebook_of_passedOn hturn]
    exact hs.quiet.turnTo hindex
  · intro hquiet more time hyes
    obtain ⟨b, hb, hhead⟩ := (hs.run more).tick hyes
    obtain ⟨k, hk, hbefore, htext, hactive⟩ := hs.burst_run hquiet hb
    exact ⟨k, hk, by rw [hhead, hbefore], htext, hactive⟩

/-- A burst goes on on the first of two pages until the second one is turned to. There it begins
anew, goes on while the first page is removed, and is polled in the end. -/
theorem burst_only_on_activePage_turned :
    let w : Char → Option Nat := fun _ => some 1
    let steps : List SessionStep := [.notebook (.add ['b'] []), .pressKey 'x' 0]
    let s := (new w .standard).run steps
    let t := (s.step (.turnTo 1)).session
    let more : List SessionStep := [.paste ['p'], .pressKey 'y' 400, .notebook (.remove 0),
      .pressKey 'z' 500]
    let v := t.run more
    (∃ page ∈ s.notebook.pages, page.history.deadline? = some 300) ∧
    (SessionStep.turnTo 1).passedOn? = some (.turnTo 1) ∧ 1 < s.notebook.pages.length ∧
    (∀ page ∈ t.notebook.pages, page.history.burst = none) ∧ t.history.burst = none ∧
    v.deadline? = some 800 ∧ (v.step (.tick 800)).answer = .flag true ∧
    ∃ k < more.length,
      (v.step (.tick 800)).session.history.undoStack.head? =
        some (t.run (more.take k)).history.current ∧
      (t.run (more.take (k + 1))).text ≠ (t.run (more.take k)).text ∧
      ∀ i, k ≤ i → i ≤ more.length →
        (t.run (more.take i)).notebook.activePage.id = v.notebook.activePage.id := by
  intro w steps s t more v
  obtain ⟨_, _, hdeadline, hturned, _⟩ := burst_only_on_activePage w .standard steps
  obtain ⟨_, _, _, _, hpolled⟩ := burst_only_on_activePage w .standard (steps ++ [.turnTo 1])
  have htwo : 1 < s.notebook.pages.length := by decide
  have hquiet : t.history.burst = none := by decide
  have hyes : (v.step (.tick 800)).answer = .flag true := by decide
  exact ⟨(hdeadline 300).mp (by decide), rfl, htwo, hturned (.turnTo 1) 1 rfl htwo, hquiet,
    by decide, hyes, hpolled hquiet more 800 hyes⟩

end Session
end EditingEngine
