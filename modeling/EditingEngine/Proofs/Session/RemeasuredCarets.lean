import EditingEngine.Proofs.Session.Carets
import EditingEngine.Proofs.Text.CaretColumns

/-!
# Carets under changed settings

New settings may measure columns in another way. A session takes them over and leaves the
carets that it has stored as they are, and undoing, redoing and turning to a page bring such
carets back. Their offsets and lines stay right, as the metrics have no part in them. Their
columns are those that were right when the carets were measured. So a stored caret agrees with
the settings now in force if and only if the metrics that it was measured by put it into the
same column as those now in force.
-/
namespace EditingEngine

/-- Two metrics put the caret of a snapshot into the same column. -/
def Snapshot.MeasuredAlike (w : Char → Option Nat) (x : Snapshot) (m n : Metrics) : Prop :=
  let front := x.content.inFront x.caret.offset
  advanceColumn 1 (m.width w front) = advanceColumn 1 (n.width w front)

section

variable {w : Char → Option Nat} {m : Metrics} {x : Snapshot}

/-- The line of a caret that fits is the same by all metrics. -/
lemma Snapshot.Fits.line_eq (hx : x.Fits w m) (n : Metrics) :
    x.caret.line = (Caret.ofOffset w n x.content x.caret.offset).line := by
  have hline := congrArg Caret.line hx.caret_eq
  rwa [Caret.ofOffset_eq] at hline ⊢

/-- A caret that fits by some metrics agrees with others if both put it into the same column. -/
lemma Snapshot.Fits.eq_ofOffset_iff (hx : x.Fits w m) (n : Metrics) :
    x.caret = .ofOffset w n x.content x.caret.offset ↔ x.MeasuredAlike w m n := by
  have hcaret := hx.caret_eq
  rw [Caret.ofOffset_eq] at hcaret ⊢
  constructor
  · intro hother
    exact congrArg Caret.column (hcaret.symm.trans hother)
  · intro halike
    rwa [← halike]

end

namespace Session

/-- Whether the line and column of the caret are those that its offset has by the settings now in
force. -/
def caretAgrees (s : Session) : Bool :=
  s.caret == .ofOffset s.charWidth s.settings.metrics s.text s.caret.offset

/-- After every run that leaves carets to the session, whatever settings it was given on the way,
each snapshot that a page stores has a caret within its text, on the line that its offset has
there, and in the column that the offset had by metrics in force at the start or since. The caret
agrees with the settings now in force if and only if the metrics now in force put it into the same
column as those. -/
theorem stored_carets_keep_columns (w : Char → Option Nat) (settings : Settings)
    (steps : List SessionStep) (hsteps : ∀ step ∈ steps, step.isBare = true) :
    let s := (new w settings).run steps
    let now := s.settings.metrics
    ∀ page ∈ s.notebook.pages, page.history.Stores fun x =>
      x.caret.offset ≤ x.content.length ∧
      x.caret.line = (Caret.ofOffset w now x.content x.caret.offset).line ∧
      ∃ m ∈ settings.metrics :: steps.filterMap SessionStep.metrics?,
        x.caret = .ofOffset w m x.content x.caret.offset ∧
        (x.caret = .ofOffset w now x.content x.caret.offset ↔ x.MeasuredAlike w m now) := by
  intro s now page hpage
  have hmeasured : s.CaretsMeasured w
      (· ∈ settings.metrics :: steps.filterMap SessionStep.metrics?) :=
    (caretsMeasured_new List.mem_cons_self).run hsteps fun m hm => List.mem_cons_of_mem _ hm
  refine (hmeasured.keeps.pages page hpage).imp ?_
  rintro x ⟨m, hm, hx⟩
  exact ⟨hx.offset_le, hx.line_eq now, m, hm, hx.caret_eq, hx.eq_ofOffset_iff now⟩

/-- A wide character and a tab come in while tabs cover four cells and wide characters one. Then
tabs cover two cells, and at last wide characters two as well. The undo entry with the tab keeps
its column through both changes. -/
theorem stored_carets_keep_columns_reconfigured :
    let w : Char → Option Nat := fun c => if c = '你' then some 2 else some 1
    let settings : Settings := Settings.standard
    let narrow : Settings := { settings with tabWidth := 2 }
    let steps : List SessionStep := [.paste ['你'], .paste ['\t'], .pressKey 'x' 0,
      .configure narrow, .undo, .pressKey 'y' 900, .tick 1200, .pressKey 'z' 1300,
      .configure { narrow with widthRule := .byScript }]
    let s := (new w settings).run steps
    let now : Metrics := ⟨2, .byScript⟩
    (∀ step ∈ steps, step.isBare = true) ∧
    s.notebook.activePage ∈ s.notebook.pages ∧
    s.caret = ⟨1, 6, 4⟩ ∧ Caret.ofOffset w now s.text 4 = ⟨1, 7, 4⟩ ∧
    s.history.undoStack = [⟨['你', '\t'], ⟨1, 6, 2⟩⟩, ⟨['你'], ⟨1, 2, 1⟩⟩, .atOrigin []] ∧
    s.history.Stores fun x =>
      x.caret.offset ≤ x.content.length ∧
      x.caret.line = (Caret.ofOffset w now x.content x.caret.offset).line ∧
      ∃ m ∈ [⟨4, .even⟩, ⟨2, .even⟩, now],
        x.caret = .ofOffset w m x.content x.caret.offset ∧
        (x.caret = .ofOffset w now x.content x.caret.offset ↔ x.MeasuredAlike w m now) := by
  intro w settings narrow steps s now
  have hsteps : ∀ step ∈ steps, step.isBare = true := by decide
  have hmem : s.notebook.activePage ∈ s.notebook.pages := Notebook.activePage_mem _
  have hcaret : s.caret = ⟨1, 6, 4⟩ := by decide +kernel
  have hright : Caret.ofOffset w now s.text 4 = ⟨1, 7, 4⟩ := by decide +kernel
  have hundo : s.history.undoStack =
      [⟨['你', '\t'], ⟨1, 6, 2⟩⟩, ⟨['你'], ⟨1, 2, 1⟩⟩, .atOrigin []] := by decide +kernel
  exact ⟨hsteps, hmem, hcaret, hright, hundo,
    stored_carets_keep_columns w settings steps hsteps _ hmem⟩

/-- Two tabs of four cells stand in front of the caret. Once tabs cover two cells, neither this
caret agrees nor those that undoing, redoing and turning to the page bring back. -/
theorem caret_disagrees_with_new_settings :
    let w : Char → Option Nat := fun _ => some 1
    let s := (new w .standard).run [.paste ['\t'], .paste ['\t', 'X'], .moveTo 2]
    let configured := s.run [.configure { Settings.standard with tabWidth := 2 }]
    let turned := configured.run [.notebook (.add ['b'] ['x']), .turnTo 1, .turnTo 0]
    s.caretAgrees = true ∧ s.caret = ⟨1, 9, 2⟩ ∧
    configured.caret = ⟨1, 9, 2⟩ ∧
    Caret.ofOffset w configured.settings.metrics configured.text 2 = ⟨1, 5, 2⟩ ∧
    configured.caretAgrees = false ∧ (configured.run [.undo]).caretAgrees = false ∧
    (configured.run [.undo, .redo]).caretAgrees = false ∧ turned.caretAgrees = false := by
  decide +kernel

end Session
end EditingEngine
