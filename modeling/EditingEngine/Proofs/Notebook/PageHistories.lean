import EditingEngine.NotebookStep
import Mathlib.Tactic.Lemma

/-!
# What the histories of all pages have in common

A property of histories is kept by a notebook if every page has it and every page that
can still be added would have it. Only the active page takes steps in its history; it
also ends its burst when another page is turned to. All other steps move pages about,
take some away, add new ones or change the limit and pause of all of them. So a property
is kept by every step of a notebook once it survives these few changes.
-/
namespace EditingEngine.Notebook

structure Keeps (P : History → Prop) (nb : Notebook) : Prop where
  pages : ∀ page ∈ nb.pages, P page.history
  fresh : ∀ content, P (.start content nb.limit nb.pause)

lemma activePage_mem (nb : Notebook) : nb.activePage ∈ nb.pages := List.get_mem _ _

/-- A page of a notebook in which one page was changed is an old page or the changed one. -/
lemma mem_modify {pages : List Page} {f : Page → Page} {index : Nat} {page : Page}
    (h : page ∈ pages.modify index f) :
    page ∈ pages ∨ ∃ old, pages[index]? = some old ∧ page = f old := by
  obtain ⟨j, hj⟩ := List.mem_iff_getElem?.mp h
  rw [List.getElem?_modify] at hj
  obtain ⟨old, hold, rfl⟩ := Option.map_eq_some_iff.mp hj
  by_cases hij : index = j
  · subst hij
    exact Or.inr ⟨old, hold, by simp⟩
  · exact Or.inl (by simpa [hij] using List.mem_of_getElem? hold)

section

variable {P : History → Prop} {nb : Notebook}

lemma keeps_new {limit pause : Nat} (h : ∀ content, P (.start content limit pause)) :
    (new limit pause).Keeps P := by
  refine ⟨?_, h⟩
  intro page hpage
  obtain rfl := List.mem_singleton.mp hpage
  exact h []

variable (hk : nb.Keeps P)
include hk

lemma Keeps.activePage : P nb.activePage.history := hk.pages _ nb.activePage_mem

lemma Keeps.stepActive {s : HistoryStep}
    (hs : P nb.activePage.history → P (nb.activePage.history.step s)) :
    (nb.stepActive s).Keeps P := by
  refine ⟨?_, hk.fresh⟩
  intro page hpage
  rcases mem_modify hpage with hold | ⟨old, hold, rfl⟩
  · exact hk.pages page hold
  · have hactive : nb.activePage = old := by
      have hget : nb.pages[nb.active]? = some nb.activePage := by
        simp [Notebook.activePage, List.getElem?_eq_getElem nb.active_lt]
      exact Option.some.inj (hget.symm.trans hold)
    subst hactive
    exact hs hk.activePage

lemma Keeps.freshPages (pages : List (Text × Text)) :
    ∀ page ∈ nb.freshPages pages, P page.history := by
  intro page hpage
  obtain ⟨i, hi, rfl⟩ := List.mem_mapIdx.mp hpage
  exact hk.fresh _

lemma Keeps.turnTo (hend : ∀ h, P h → P h.endBurst) (index : Nat) :
    (nb.turnTo index).notebook.Keeps P := by
  unfold Notebook.turnTo
  split
  · exact hk
  · exact ⟨(hk.stepActive (hend _)).pages, hk.fresh⟩

lemma Keeps.renew (pages : List (Text × Text)) : (nb.renew pages).Keeps P :=
  ⟨hk.freshPages _, hk.fresh⟩

lemma Keeps.add (title content : Text) : (nb.add title content).Keeps P := by
  refine ⟨?_, hk.fresh⟩
  intro page hpage
  rcases List.mem_append.mp hpage with hold | hnew
  · exact hk.pages page hold
  · exact hk.freshPages _ page hnew

/-- Another title leaves the history of a page alone. -/
lemma Keeps.modifyAt {f : Page → Page} (hf : ∀ page, (f page).history = page.history)
    (index : Nat) : (nb.modifyAt index f).Keeps P := by
  refine ⟨?_, hk.fresh⟩
  intro page hpage
  rcases mem_modify hpage with hold | ⟨old, hold, rfl⟩
  · exact hk.pages page hold
  · rw [hf]
    exact hk.pages old (List.mem_of_getElem? hold)

lemma Keeps.retitle (index : Nat) (title : Text) :
    (nb.retitle index title).notebook.Keeps P := by
  unfold Notebook.retitle
  split
  · exact hk
  · exact hk.modifyAt (by simp) index

lemma Keeps.remove (index : Nat) : (nb.remove index).notebook.Keeps P := by
  unfold Notebook.remove
  split
  · exact hk
  · split
    · exact hk
    · exact ⟨fun p hp => hk.pages p (List.mem_of_mem_eraseIdx hp), hk.fresh⟩

/-- New settings may lead from one property to another. -/
lemma Keeps.configure {Q : History → Prop} {limit pause : Nat}
    (hold : ∀ h, P h → Q ((h.withLimit limit).withPause pause))
    (hfresh : ∀ content, Q (.start content limit pause)) :
    (nb.configure limit pause).Keeps Q := by
  refine ⟨?_, hfresh⟩
  intro page hpage
  obtain ⟨old, hmem, rfl⟩ := List.mem_map.mp hpage
  exact hold _ (hk.pages old hmem)

theorem Keeps.step {s : NotebookStep} (hend : ∀ h, P h → P h.endBurst)
    (hconfigure : ∀ limit pause, s = .configure limit pause →
      (nb.configure limit pause).Keeps P)
    (hactive : ∀ st, s = .active st →
      P nb.activePage.history → P (nb.activePage.history.step st)) :
    (nb.step s).notebook.Keeps P := by
  cases s with
  | turnTo index => exact hk.turnTo hend index
  | renew pages => exact hk.renew pages
  | add title content => exact hk.add title content
  | retitle index title => exact hk.retitle index title
  | retitleActive title => exact hk.modifyAt (by simp) nb.active
  | remove index => exact hk.remove index
  | configure limit pause => exact hconfigure limit pause rfl
  | setQuiet quiet => exact ⟨hk.pages, hk.fresh⟩
  | subscribe => exact ⟨hk.pages, hk.fresh⟩
  | active st => exact hk.stepActive (hactive st rfl)

end

end EditingEngine.Notebook
