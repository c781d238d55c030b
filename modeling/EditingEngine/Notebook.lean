import EditingEngine.History.Step

/-!
# Notebooks

A notebook is a list of titled pages, each with its own history, one of which is
active. It is never without a page. Pages are told apart by a number that they keep
while their places change. Subscribers are told when another page becomes active,
in the order in which they subscribed, unless the notebook is quiet. A request for a
page may be refused, and what it leads to is a notebook in either case. Turning away
from a page ends its burst, so that only the active page can be in the middle of one.
-/
namespace EditingEngine

structure Page where
  /-- The number of the page, which no other page of the notebook has. -/
  id : Nat
  title : Text
  history : History
  deriving DecidableEq, Repr

/-- The text of a page. -/
def Page.content (p : Page) : Text := p.history.current.content

/-- The active page as subscribers are told of it. -/
structure PageSummary where
  index : Nat
  title : Text
  content : Text
  deriving DecidableEq, Repr

/-- What one subscriber is told. -/
structure Notice where
  subscriber : Nat
  page : PageSummary
  deriving DecidableEq, Repr

/-- Why a request for a page cannot be met. -/
inductive NotebookError where
  | outOfRange (index count : Nat)
  | lastPage
  deriving DecidableEq, Repr

def NotebookError.message : NotebookError → String
  | outOfRange index count => s!"page index {index} out of range (page count {count})"
  | lastPage => "cannot remove the last page"

structure Notebook where
  pages : List Page
  /-- The place of the active page. -/
  active : Nat
  active_lt : active < pages.length
  /-- Whether the subscribers are told nothing. -/
  quiet : Bool
  /-- The number of subscribers. They are numbered from zero. -/
  subscribers : Nat
  /-- The number of undo entries that a new page keeps. -/
  limit : Nat
  /-- The time for which a burst on a new page waits. -/
  pause : Nat
  /-- The number of the next new page. -/
  nextId : Nat
  deriving DecidableEq, Repr

namespace Notebook

/-- The title of a page that is there because there must be one. -/
def firstTitle : Text := "Page 1".toList

/-- A notebook with one empty page. -/
def new (limit pause : Nat) : Notebook where
  pages := [⟨0, firstTitle, .start [] limit pause⟩]
  active := 0
  active_lt := by simp
  quiet := false
  subscribers := 0
  limit := limit
  pause := pause
  nextId := 1

/-- The active page. -/
def activePage (nb : Notebook) : Page := nb.pages.get ⟨nb.active, nb.active_lt⟩

/-- Change the page at a place, if there is one. -/
def modifyAt (nb : Notebook) (index : Nat) (f : Page → Page) : Notebook :=
  { nb with
    pages := nb.pages.modify index f
    active_lt := by simpa using nb.active_lt }

/-- Change the active page in its place. -/
def modifyActive (nb : Notebook) (f : Page → Page) : Notebook := nb.modifyAt nb.active f

/-- Take a step in the history of the active page. -/
def stepActive (nb : Notebook) (s : HistoryStep) : Notebook :=
  nb.modifyActive fun p => { p with history := p.history.step s }

def summary (nb : Notebook) : PageSummary :=
  ⟨nb.active, nb.activePage.title, nb.activePage.content⟩

/-- What is told when another page has become active. -/
def announce (nb : Notebook) : List Notice :=
  if nb.quiet then [] else (List.range nb.subscribers).map (⟨·, nb.summary⟩)

/-- What a request leads to, be it met or refused. -/
structure Reply (α : Type) where
  notebook : Notebook
  notices : List Notice
  result : Except NotebookError α

/-- A request that is refused as things stand. -/
def refuse {α : Type} (nb : Notebook) (e : NotebookError) : Reply α := ⟨nb, [], .error e⟩

/-- End the burst on the active page, and make the page at a place active. -/
def activate (nb : Notebook) (index : Nat) (h : index < nb.pages.length) : Notebook :=
  { nb.stepActive .endBurst with
    active := index
    active_lt := by simpa [stepActive, modifyActive, modifyAt] using h }

/-- Turn to the page at a place. -/
def turnTo (nb : Notebook) (index : Nat) : Reply Snapshot :=
  if h : nb.pages.length ≤ index then nb.refuse (.outOfRange index nb.pages.length)
  else
    let next := nb.activate index (Nat.lt_of_not_le h)
    ⟨next, next.announce, .ok next.activePage.history.current⟩

/-- New pages with the given titles and texts, numbered from the next number on. -/
def freshPages (nb : Notebook) (pages : List (Text × Text)) : List Page :=
  pages.mapIdx fun i p => ⟨nb.nextId + i, p.1, .start p.2 nb.limit nb.pause⟩

@[simp] theorem length_freshPages (nb : Notebook) (pages : List (Text × Text)) :
    (nb.freshPages pages).length = pages.length := by
  simp [freshPages]

/-- The pages asked for, or one empty page if none are. -/
def atLeastOne (pages : List (Text × Text)) : List (Text × Text) :=
  if pages = [] then [(firstTitle, [])] else pages

theorem length_atLeastOne_pos (pages : List (Text × Text)) : 0 < (atLeastOne pages).length := by
  unfold atLeastOne
  split
  · simp
  · next h => exact List.length_pos_iff.2 h

/-- Put other pages in the place of all pages, and make the first one active. -/
def renew (nb : Notebook) (pages : List (Text × Text)) : Notebook :=
  { nb with
    pages := nb.freshPages (atLeastOne pages)
    active := 0
    active_lt := by simpa using length_atLeastOne_pos pages
    nextId := nb.nextId + (atLeastOne pages).length }

/-- Add a page behind the others. -/
def add (nb : Notebook) (title content : Text) : Notebook :=
  { nb with
    pages := nb.pages ++ nb.freshPages [(title, content)]
    active_lt := by have := nb.active_lt; simp; omega
    nextId := nb.nextId + 1 }

/-- Give the page at a place another title. -/
def retitle (nb : Notebook) (index : Nat) (title : Text) : Reply Unit :=
  if nb.pages.length ≤ index then nb.refuse (.outOfRange index nb.pages.length)
  else ⟨nb.modifyAt index fun p => { p with title := title }, [], .ok ()⟩

/-- The place of the active page once the page at a place is removed. If the active page itself is
removed, the page in front of it becomes active, or else the new first page. -/
def activeWithout (nb : Notebook) (index : Nat) : Nat :=
  if index < nb.active then nb.active - 1
  else if index = nb.active then index - 1
  else nb.active

/-- Take the page at a place out, which is not the last one. -/
def erase (nb : Notebook) (index : Nat) (h : index < nb.pages.length)
    (hmore : nb.pages.length ≠ 1) : Notebook :=
  { nb with
    pages := nb.pages.eraseIdx index
    active := nb.activeWithout index
    active_lt := by
      have := nb.active_lt
      rw [List.length_eraseIdx_of_lt h]
      unfold activeWithout
      split
      · omega
      · split <;> omega }

/-- Remove the page at a place, unless it is the last one left. -/
def remove (nb : Notebook) (index : Nat) : Reply Page :=
  if h : nb.pages.length ≤ index then nb.refuse (.outOfRange index nb.pages.length)
  else if hone : nb.pages.length = 1 then nb.refuse .lastPage
  else
    have hlt := Nat.lt_of_not_le h
    let next := nb.erase index hlt hone
    ⟨next, if index = nb.active then next.announce else [], .ok nb.pages[index]⟩

/-- Change the limit and the pause of all pages, those to come included. -/
def configure (nb : Notebook) (limit pause : Nat) : Notebook :=
  { nb with
    pages := nb.pages.map fun p =>
      { p with history := (p.history.withLimit limit).withPause pause }
    active_lt := by simpa using nb.active_lt
    limit := limit
    pause := pause }

def setQuiet (nb : Notebook) (quiet : Bool) : Notebook := { nb with quiet := quiet }

/-- Add a subscriber behind the others. -/
def subscribe (nb : Notebook) : Notebook := { nb with subscribers := nb.subscribers + 1 }

theorem turnTo_of_le {nb : Notebook} {index : Nat} (h : nb.pages.length ≤ index) :
    nb.turnTo index = nb.refuse (.outOfRange index nb.pages.length) := dif_pos h

theorem turnTo_of_lt {nb : Notebook} {index : Nat} (h : index < nb.pages.length) :
    let next := nb.activate index h
    nb.turnTo index = ⟨next, next.announce, .ok next.activePage.history.current⟩ :=
  dif_neg (Nat.not_le_of_lt h)

theorem retitle_of_le {nb : Notebook} {index : Nat} (h : nb.pages.length ≤ index) (title : Text) :
    nb.retitle index title = nb.refuse (.outOfRange index nb.pages.length) := if_pos h

theorem retitle_of_lt {nb : Notebook} {index : Nat} (h : index < nb.pages.length) (title : Text) :
    nb.retitle index title = ⟨nb.modifyAt index fun p => { p with title := title }, [], .ok ()⟩ :=
  if_neg (Nat.not_le_of_lt h)

theorem remove_of_le {nb : Notebook} {index : Nat} (h : nb.pages.length ≤ index) :
    nb.remove index = nb.refuse (.outOfRange index nb.pages.length) := dif_pos h

theorem remove_of_last {nb : Notebook} {index : Nat} (h : index < nb.pages.length)
    (hone : nb.pages.length = 1) : nb.remove index = nb.refuse .lastPage := by
  rw [remove, dif_neg (Nat.not_le_of_lt h), dif_pos hone]

theorem remove_of_lt {nb : Notebook} {index : Nat} (h : index < nb.pages.length)
    (hmore : nb.pages.length ≠ 1) :
    let next := nb.erase index h hmore
    nb.remove index =
      ⟨next, if index = nb.active then next.announce else [], .ok nb.pages[index]⟩ := by
  rw [remove, dif_neg (Nat.not_le_of_lt h), dif_neg hmore]

@[simp] theorem activePage_new (limit pause : Nat) :
    (new limit pause).activePage = ⟨0, firstTitle, .start [] limit pause⟩ := rfl

@[simp] theorem activePage_modifyActive (nb : Notebook) (f : Page → Page) :
    (nb.modifyActive f).activePage = f nb.activePage := by
  simp [activePage, modifyActive, modifyAt]

@[simp] theorem activePage_stepActive (nb : Notebook) (s : HistoryStep) :
    (nb.stepActive s).activePage.history = nb.activePage.history.step s := by
  simp [stepActive]

end Notebook
end EditingEngine
