import EditingEngine.Proofs.History.Bursts

/-!
# The snapshots that a history stores

A history stores the current snapshot, the entries of both stacks and the snapshot from
before a burst. A step moves stored snapshots about and forgets some of them. What it
stores anew is the snapshot of an edit, the current text with another caret, or a text
that is loaded. So a property of all stored snapshots is kept by every step that brings
no snapshot without it.
-/
namespace EditingEngine

/-- The snapshot that a step wants to be stored, if it comes with one. -/
def HistoryStep.brings? (h : History) : HistoryStep → Option Snapshot
  | .edit next | .burstEdit next _ => some next
  | .moveCaret caret => some ⟨h.current.content, caret⟩
  | .restart content => some (.atOrigin content)
  | _ => none

namespace History

/-- All stored snapshots have a property. -/
structure Stores (p : Snapshot → Prop) (h : History) : Prop where
  current : p h.current
  undoStack : ∀ s ∈ h.undoStack, p s
  redoStack : ∀ s ∈ h.redoStack, p s
  base : p h.base

section

variable {p : Snapshot → Prop}

lemma stores_start {content : Text} (hp : p (.atOrigin content)) (limit pause : Nat) :
    (start content limit pause).Stores p :=
  ⟨hp, by simp [start], by simp [start], hp⟩

lemma stores_of_quiet {h : History} (hquiet : h.burst = none) (hcurrent : p h.current)
    (hundo : ∀ s ∈ h.undoStack, p s) (hredo : ∀ s ∈ h.redoStack, p s) : h.Stores p :=
  ⟨hcurrent, hundo, hredo, by rwa [base_of_quiet hquiet]⟩

lemma stores_push {h : History} {s : Snapshot} (hquiet : h.burst = none) (hs : p s)
    (hcurrent : p h.current) (hundo : ∀ t ∈ h.undoStack, p t) (hredo : ∀ t ∈ h.redoStack, p t) :
    (h.push s).Stores p := by
  apply stores_of_quiet
  · rwa [burst_push]
  · rwa [current_push]
  · intro t ht
    rcases List.mem_cons.mp (mem_of_mem_undoStack_push ht) with rfl | ht
    · exact hs
    · exact hundo t ht
  · rwa [redoStack_push]

variable {h : History} (hh : h.Stores p)
include hh

lemma Stores.imp {q : Snapshot → Prop} (hpq : ∀ x, p x → q x) : h.Stores q :=
  ⟨hpq _ hh.current, fun x hx => hpq x (hh.undoStack x hx), fun x hx => hpq x (hh.redoStack x hx),
    hpq _ hh.base⟩

lemma Stores.endBurst : h.endBurst.Stores p := by
  cases hchanged : h.isChanged with
  | false =>
    rw [endBurst_of_same hchanged]
    exact stores_of_quiet rfl hh.current hh.undoStack hh.redoStack
  | true =>
    rw [endBurst_of_changed hchanged]
    exact stores_push rfl hh.base hh.current hh.undoStack (by simp)

lemma Stores.moveCaret {caret : Caret} (hp : p ⟨h.current.content, caret⟩) :
    (h.moveCaret caret).Stores p := by
  refine ⟨hp, hh.undoStack, hh.redoStack, ?_⟩
  cases hb : h.burst with
  | none => simpa [History.base, History.moveCaret, hb] using hp
  | some b => simpa [History.base, History.moveCaret, hb] using hh.base

lemma Stores.edit {next : Snapshot} (hp : p next) : (h.edit next).Stores p := by
  by_cases hsame : next.content = h.current.content
  · rw [edit_of_same hsame]
    apply hh.endBurst.moveCaret
    rwa [current_endBurst, ← hsame]
  · rw [edit_of_differs hsame]
    exact stores_push (burst_endBurst h) hh.current hp hh.endBurst.undoStack (by simp)

lemma Stores.burstEdit {next : Snapshot} (hp : p next) (now : Nat) :
    (h.burstEdit next now).Stores p := by
  have hbase := hh.base
  cases hb : h.burst with
  | some b =>
    simp only [History.base, hb] at hbase
    simp only [History.burstEdit, hb]
    exact ⟨hp, hh.undoStack, hh.redoStack, hbase⟩
  | none =>
    simp only [History.burstEdit, hb]
    split
    · next hsame =>
      apply hh.moveCaret
      rwa [← hsame]
    · exact ⟨hp, hh.undoStack, hh.redoStack, hh.current⟩

lemma Stores.undo : h.undo.Stores p := by
  have hend := hh.endBurst
  cases hstack : h.endBurst.undoStack with
  | nil =>
    rw [undo_of_nil hstack]
    exact hend
  | cons s rest =>
    have hundo := hend.undoStack
    rw [hstack, List.forall_mem_cons] at hundo
    rw [undo_of_cons hstack]
    apply stores_of_quiet
    · exact burst_endBurst h
    · exact hundo.1
    · exact hundo.2
    · exact List.forall_mem_cons.mpr ⟨hh.current, hend.redoStack⟩

lemma Stores.redo : h.redo.Stores p := by
  have hend := hh.endBurst
  cases hstack : h.endBurst.redoStack with
  | nil =>
    rw [redo_of_nil hstack]
    exact hend
  | cons s rest =>
    have hredo := hend.redoStack
    rw [hstack, List.forall_mem_cons] at hredo
    rw [redo_of_cons hstack]
    exact stores_push (burst_endBurst h) hh.current hredo.1 hend.undoStack hredo.2

lemma Stores.withLimit (limit : Nat) : (h.withLimit limit).Stores p :=
  ⟨hh.current, fun s hs => hh.undoStack s (List.mem_of_mem_take hs), hh.redoStack, hh.base⟩

lemma Stores.withPause (pause : Nat) : (h.withPause pause).Stores p :=
  ⟨hh.current, hh.undoStack, hh.redoStack, hh.base⟩

theorem Stores.step {s : HistoryStep} (hs : ∀ x, s.brings? h = some x → p x) :
    (h.step s).Stores p := by
  cases s with
  | edit next => exact hh.edit (hs _ rfl)
  | burstEdit next now => exact hh.burstEdit (hs _ rfl) now
  | tick now =>
    simp only [History.step, History.tick]
    split
    · exact hh.endBurst
    · exact hh
  | endBurst => exact hh.endBurst
  | undo => exact hh.undo
  | redo => exact hh.redo
  | moveCaret caret => exact hh.moveCaret (hs _ rfl)
  | restart content => exact stores_start (hs _ rfl) h.limit h.pause
  | withLimit limit => exact hh.withLimit limit
  | withPause pause => exact hh.withPause pause

end

end History
end EditingEngine
