import EditingEngine.Proofs.History.Bursts
import EditingEngine.Proofs.Notebook.PageHistories
import Mathlib.Data.List.Nodup

/-!
# Where the pages of a notebook come from

A page that a step leads to is a new one, with a number that no page had before, or an old
one that the step has done something to: to one page in its place, to the active page, or
to all pages alike. Its place may have changed, but the active page stays active as long
as it is there, unless another page was turned to and its burst was ended. All that a
proof about single pages has to know of a step is in this list. Numbers are never given
twice, so a page is told apart by its number for as long as it is there.
-/
namespace EditingEngine.Notebook

/-- What a step does to the page at a place, if the page is still there after it. -/
def pageAfter (nb : Notebook) (i : Nat) (page : Page) : NotebookStep → Page
  | .turnTo index =>
    if i = nb.active ∧ index < nb.pages.length then { page with history := page.history.endBurst }
    else page
  | .retitle index title => if i = index then { page with title := title } else page
  | .retitleActive title => if i = nb.active then { page with title := title } else page
  | .configure limit pause =>
    { page with history := (page.history.withLimit limit).withPause pause }
  | .active s => if i = nb.active then { page with history := page.history.step s } else page
  | .renew _ | .add _ _ | .remove _ | .setQuiet _ | .subscribe => page

@[simp] theorem id_pageAfter (nb : Notebook) (i : Nat) (page : Page) (s : NotebookStep) :
    (nb.pageAfter i page s).id = page.id := by
  cases s <;> simp only [pageAfter] <;> split <;> rfl

lemma getElem?_active (nb : Notebook) : nb.pages[nb.active]? = some nb.activePage := by
  simp [activePage, List.getElem?_eq_getElem nb.active_lt]

lemma activePage_eq {nb : Notebook} {page : Page} (h : nb.pages[nb.active]? = some page) :
    nb.activePage = page :=
  Option.some.inj (nb.getElem?_active.symm.trans h)

lemma getElem?_modify_eq_some {pages : List Page} {f : Page → Page} {index j : Nat} {page : Page}
    (h : (pages.modify index f)[j]? = some page) :
    ∃ old, pages[j]? = some old ∧ page = if j = index then f old else old := by
  rw [List.getElem?_modify] at h
  obtain ⟨old, hold, rfl⟩ := Option.map_eq_some_iff.mp h
  exact ⟨old, hold, by simp only [eq_comm]⟩

/-- The page at a place after a step, next to the old page that it was before. -/
structure Origin (nb : Notebook) (s : NotebookStep) (j : Nat) (page : Page) (i : Nat)
    (old : Page) : Prop where
  place : nb.pages[i]? = some old
  page_eq : page = nb.pageAfter i old s
  active : i = nb.active → j = (nb.step s).notebook.active ∨ page.history.burst = none

/-- A page that was not there before a step. -/
structure IsNew (nb : Notebook) (s : NotebookStep) (page : Page) : Prop where
  nextId_le : nb.nextId ≤ page.id
  lt_nextId : page.id < (nb.step s).notebook.nextId
  history : ∃ content, page.history = .start content nb.limit nb.pause

section

variable {nb : Notebook} {j : Nat} {page : Page}

/-- The pages that a step adds have the next numbers. -/
lemma isNew_of_fresh {s : NotebookStep} {pages : List (Text × Text)}
    (h : (nb.freshPages pages)[j]? = some page)
    (hnext : (nb.step s).notebook.nextId = nb.nextId + pages.length) : nb.IsNew s page := by
  rw [freshPages, List.getElem?_mapIdx] at h
  obtain ⟨p, hp, rfl⟩ := Option.map_eq_some_iff.mp h
  have hj : j < pages.length := (List.getElem?_eq_some_iff.mp hp).1
  refine ⟨Nat.le_add_right _ _, ?_, _, rfl⟩
  rw [hnext]
  exact Nat.add_lt_add_left hj _

lemma origin_turnTo {index : Nat}
    (h : (nb.step (.turnTo index)).notebook.pages[j]? = some page) :
    ∃ old, nb.Origin (.turnTo index) j page j old := by
  rcases Nat.lt_or_ge index nb.pages.length with hindex | hindex
  · have hpages : (nb.step (.turnTo index)).notebook.pages =
        nb.pages.modify nb.active fun p => { p with history := p.history.endBurst } := by
      rw [step, turnTo_of_lt hindex]
      rfl
    rw [hpages] at h
    obtain ⟨old, hold, rfl⟩ := getElem?_modify_eq_some h
    refine ⟨old, hold, by simp [pageAfter, hindex], ?_⟩
    intro hj
    exact Or.inr (by simp [hj])
  · have hsame : (nb.step (.turnTo index)).notebook = nb := by
      rw [step, turnTo_of_le hindex]
      rfl
    rw [hsame] at h
    refine ⟨page, h, by simp [pageAfter, Nat.not_lt.mpr hindex], ?_⟩
    intro hj
    exact Or.inl (by rw [hsame, hj])

lemma origin_add {title content : Text}
    (h : (nb.step (.add title content)).notebook.pages[j]? = some page) :
    nb.IsNew (.add title content) page ∨ nb.Origin (.add title content) j page j page := by
  change (nb.pages ++ nb.freshPages [(title, content)])[j]? = some page at h
  rw [List.getElem?_append] at h
  split at h
  · exact Or.inr ⟨h, rfl, fun hj => Or.inl hj⟩
  · exact Or.inl (isNew_of_fresh h rfl)

lemma origin_retitle {index : Nat} {title : Text}
    (h : (nb.step (.retitle index title)).notebook.pages[j]? = some page) :
    ∃ old, nb.Origin (.retitle index title) j page j old := by
  rcases Nat.lt_or_ge index nb.pages.length with hindex | hindex
  · have hnext : (nb.step (.retitle index title)).notebook =
        nb.modifyAt index fun p => { p with title := title } := by
      rw [step, retitle_of_lt hindex, Reply.outcome]
    rw [hnext] at h
    obtain ⟨old, hold, rfl⟩ := getElem?_modify_eq_some h
    exact ⟨old, hold, rfl, fun hj => Or.inl (by rw [hnext, hj]; rfl)⟩
  · have hsame : (nb.step (.retitle index title)).notebook = nb := by
      rw [step, retitle_of_le hindex]
      rfl
    rw [hsame] at h
    have hj : j ≠ index := by
      rintro rfl
      exact Nat.not_lt.mpr hindex (List.getElem?_eq_some_iff.mp h).1
    exact ⟨page, h, by simp [pageAfter, hj], fun hj => Or.inl (by rw [hsame, hj])⟩

/-- A removal takes a page out of its place, or is refused. -/
lemma notebook_remove (nb : Notebook) (index : Nat) :
    (nb.step (.remove index)).notebook = nb ∨
      ∃ h hmore, (nb.step (.remove index)).notebook = nb.erase index h hmore := by
  rcases Nat.lt_or_ge index nb.pages.length with hindex | hindex
  · by_cases hone : nb.pages.length = 1
    · refine Or.inl ?_
      rw [step, remove_of_last hindex hone]
      rfl
    · refine Or.inr ⟨hindex, hone, ?_⟩
      rw [step, remove_of_lt hindex hone, Reply.outcome]
  · refine Or.inl ?_
    rw [step, remove_of_le hindex]
    rfl

/-- The pages behind a removed one move up by one place, and so does the active page. -/
lemma origin_remove {index : Nat}
    (h : (nb.step (.remove index)).notebook.pages[j]? = some page) :
    ∃ i, nb.Origin (.remove index) j page i page := by
  rcases nb.notebook_remove index with hsame | ⟨hindex, hmore, hnext⟩
  · rw [hsame] at h
    exact ⟨j, h, rfl, fun hj => Or.inl (by rw [hsame, hj])⟩
  · have hactive : (nb.step (.remove index)).notebook.active = nb.activeWithout index := by
      rw [hnext]
      rfl
    rw [hnext] at h
    change (nb.pages.eraseIdx index)[j]? = some page at h
    rw [List.getElem?_eraseIdx] at h
    split at h
    · next hlt =>
      refine ⟨j, h, rfl, fun hj => Or.inl ?_⟩
      have hbehind : ¬ index < nb.active := by omega
      have hne : index ≠ nb.active := by omega
      rw [hactive, activeWithout, if_neg hbehind, if_neg hne, hj]
    · next hge =>
      refine ⟨j + 1, h, rfl, fun hj => Or.inl ?_⟩
      have hbefore : index < nb.active := by omega
      rw [hactive, activeWithout, if_pos hbefore, ← hj, Nat.add_sub_cancel]

end

/-- Every page after a step is new or has an origin. -/
theorem isNew_or_origin {nb : Notebook} {s : NotebookStep} {j : Nat} {page : Page}
    (h : (nb.step s).notebook.pages[j]? = some page) :
    nb.IsNew s page ∨ ∃ i old, nb.Origin s j page i old := by
  cases s with
  | turnTo index => exact Or.inr ⟨j, origin_turnTo h⟩
  | renew pages => exact Or.inl (isNew_of_fresh h rfl)
  | add title content => exact (origin_add h).imp_right fun ho => ⟨j, page, ho⟩
  | retitle index title => exact Or.inr ⟨j, origin_retitle h⟩
  | remove index =>
    obtain ⟨i, ho⟩ := origin_remove h
    exact Or.inr ⟨i, page, ho⟩
  | retitleActive title =>
    obtain ⟨old, hold, rfl⟩ := getElem?_modify_eq_some h
    exact Or.inr ⟨j, old, hold, rfl, Or.inl⟩
  | active s =>
    obtain ⟨old, hold, rfl⟩ := getElem?_modify_eq_some h
    exact Or.inr ⟨j, old, hold, rfl, Or.inl⟩
  | configure limit pause =>
    obtain ⟨old, hold, rfl⟩ := Option.map_eq_some_iff.mp (List.getElem?_map ▸ h)
    exact Or.inr ⟨j, old, hold, rfl, Or.inl⟩
  | setQuiet quiet => exact Or.inr ⟨j, page, h, rfl, Or.inl⟩
  | subscribe => exact Or.inr ⟨j, page, h, rfl, Or.inl⟩

lemma burst_pageAfter_inactive {nb : Notebook} {i : Nat} (hi : i ≠ nb.active) (page : Page)
    (s : NotebookStep) : (nb.pageAfter i page s).history.burst = page.history.burst := by
  cases s with
  | retitle index title =>
    simp only [pageAfter]
    split <;> rfl
  | turnTo | retitleActive | active => simp [pageAfter, hi]
  | renew | add | remove | configure | setQuiet | subscribe => rfl

lemma IsNew.burst {nb : Notebook} {s : NotebookStep} {page : Page} (hnew : nb.IsNew s page) :
    page.history.burst = none := by
  obtain ⟨content, hhistory⟩ := hnew.history
  rw [hhistory]
  rfl

/-- The numbers of the pages, in the order of the pages. -/
def ids (nb : Notebook) : List Nat := nb.pages.map Page.id

/-- Each page has a number of its own, and the next new page will have another one. -/
structure Numbered (nb : Notebook) : Prop where
  nodup : nb.ids.Nodup
  lt_nextId : ∀ id ∈ nb.ids, id < nb.nextId

lemma numbered_new (limit pause : Nat) : (new limit pause).Numbered := by
  constructor <;> simp [ids, new]

lemma ids_modifyAt (nb : Notebook) {f : Page → Page} (hf : ∀ page, (f page).id = page.id)
    (index : Nat) : (nb.modifyAt index f).ids = nb.ids := by
  change (nb.pages.modify index f).map Page.id = nb.pages.map Page.id
  apply List.ext_getElem?
  intro i
  rw [List.getElem?_map, List.getElem?_map, List.getElem?_modify]
  cases nb.pages[i]? with
  | none => rfl
  | some page =>
    by_cases h : index = i
    · simp [h, hf]
    · simp [h]

lemma ids_stepActive (nb : Notebook) (s : HistoryStep) : (nb.stepActive s).ids = nb.ids :=
  nb.ids_modifyAt (by simp) nb.active

lemma ids_freshPages (nb : Notebook) (pages : List (Text × Text)) :
    (nb.freshPages pages).map Page.id = List.range' nb.nextId pages.length := by
  apply List.ext_getElem?
  intro i
  rw [freshPages, List.getElem?_map, List.getElem?_mapIdx]
  by_cases hi : i < pages.length
  · simp [hi]
  · simp [hi]

/-- In a later notebook some numbers are gone, and the ones that are new are the next ones. -/
def NumbersOn (nb next : Notebook) : Prop :=
  ∃ count, next.nextId = nb.nextId + count ∧
    next.ids.Sublist (nb.ids ++ List.range' nb.nextId count)

section

variable {nb next : Notebook}

lemma numbersOn_of_sublist (hnext : next.nextId = nb.nextId) (hids : next.ids.Sublist nb.ids) :
    nb.NumbersOn next :=
  ⟨0, hnext, by simpa using hids⟩

lemma numbersOn_of_eq (hnext : next.nextId = nb.nextId) (hids : next.ids = nb.ids) :
    nb.NumbersOn next :=
  numbersOn_of_sublist hnext (hids ▸ List.Sublist.refl _)

lemma Numbered.of_numbersOn (hn : nb.Numbered) (hnext : nb.NumbersOn next) : next.Numbered := by
  obtain ⟨count, hcount, hids⟩ := hnext
  have hdisjoint : nb.ids.Disjoint (List.range' nb.nextId count) := by
    intro id hold hnew
    have hlt := hn.lt_nextId id hold
    have hle := (List.mem_range'_1.mp hnew).1
    omega
  refine ⟨hids.nodup (hn.nodup.append List.nodup_range' hdisjoint), ?_⟩
  intro id hid
  rcases List.mem_append.mp (hids.subset hid) with hold | hnew
  · have hlt := hn.lt_nextId id hold
    omega
  · have hlt := (List.mem_range'_1.mp hnew).2
    omega

end

theorem numbersOn_step (nb : Notebook) (s : NotebookStep) :
    nb.NumbersOn (nb.step s).notebook := by
  have hsame : nb.NumbersOn nb := numbersOn_of_eq rfl rfl
  cases s with
  | turnTo index =>
    simp only [step, Reply.outcome, turnTo]
    split
    · exact hsame
    · exact numbersOn_of_eq rfl (nb.ids_stepActive .endBurst)
  | renew pages =>
    refine ⟨(atLeastOne pages).length, rfl, ?_⟩
    rw [← ids_freshPages]
    exact List.sublist_append_right _ _
  | add title content =>
    refine ⟨1, rfl, ?_⟩
    change (List.map Page.id (nb.pages ++ nb.freshPages [(title, content)])).Sublist _
    rw [List.map_append, ids_freshPages]
    exact List.Sublist.refl _
  | retitle index title =>
    simp only [step, Reply.outcome, retitle]
    split
    · exact hsame
    · exact numbersOn_of_eq rfl (nb.ids_modifyAt (by simp) index)
  | remove index =>
    rcases nb.notebook_remove index with hrefused | ⟨hindex, hmore, hnext⟩
    · rw [hrefused]
      exact hsame
    · rw [hnext]
      exact numbersOn_of_sublist rfl ((List.eraseIdx_sublist _ _).map _)
  | retitleActive title => exact numbersOn_of_eq rfl (nb.ids_modifyAt (by simp) nb.active)
  | configure limit pause => exact numbersOn_of_eq rfl (by simp [step, ids, configure])
  | setQuiet quiet => exact hsame
  | subscribe => exact hsame
  | active s => exact numbersOn_of_eq rfl (nb.ids_stepActive s)

end EditingEngine.Notebook
