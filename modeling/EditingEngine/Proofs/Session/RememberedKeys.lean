import EditingEngine.Proofs.History.UndoEntries
import EditingEngine.Proofs.Session.Steps

/-!
# Keys that are remembered

A line break looks at the text, the caret and the two keys pressed last. The remembered
keys belong to the session and not to a page: a key is added by every step that presses
or notes one, and all are forgotten when a text is pasted, replaced or loaded, when an
edit is undone or redone, when the session turns to another page and when all pages are
renewed. So after such a change of the page, a line break reads no key but those pressed
since. The notebook itself knows of no keys: when it removes the active page, the keys
pressed on that page are still remembered on the one that takes its place.
-/
namespace EditingEngine

/-- The keys remembered after a step that is not refused. -/
def SessionStep.keysAfter (keys : RecentKeys) : SessionStep → RecentKeys
  | .pressKey c _ | .noteKey c => keys.push c
  | .pressTab => keys.push '\t'
  | .pressEnter => keys.push '\n'
  | .replace _ _ | .paste _ | .load _ | .undo | .redo | .turnTo _ | .renew _ => .none
  | .moveTo _ | .moveToPosition _ _ | .hostEdit _ _ _ | .reindent | .tick _ | .configure _
  | .notebook _ => keys

namespace Session

/-- The steps with which a session makes another page active: it turns to one that is there, or it
renews all pages. -/
def changesPage (s : Session) : SessionStep → Bool
  | .turnTo index => index < s.notebook.pages.length
  | .renew _ => true
  | _ => false

variable {s : Session} {step : SessionStep}

/-- Line feeds and tabs are remembered as the keys that they stand for. -/
lemma keys_pressKey (s : Session) (c : Char) (now : Nat) :
    (s.pressKey c now).keys = s.keys.push c := by
  unfold pressKey
  split
  · next hc => rw [hc]; rfl
  · split
    · next hc => rw [hc]; rfl
    · rfl

lemma keys_reindent (s : Session) : s.reindent.keys = s.keys := by
  obtain ⟨st, -, h⟩ := s.reindent_cases
  rw [h]
  rfl

/-- Only a turn to a page that is not there leaves other keys, for it is refused. -/
lemma keys_step (hstep : ∀ index, step = .turnTo index → index < s.notebook.pages.length) :
    (s.step step).session.keys = step.keysAfter s.keys := by
  cases step with
  | pressKey c now => exact s.keys_pressKey c now
  | reindent => exact s.keys_reindent
  | turnTo index =>
    have hnext := hstep index rfl
    simp only [Session.step, Notebook.turnTo_of_lt hnext]
    rfl
  | _ => rfl

lemma keys_run {since : List SessionStep} (hsince : ∀ index, .turnTo index ∉ since) :
    (s.run since).keys = since.foldl SessionStep.keysAfter s.keys := by
  induction since generalizing s with
  | nil => rfl
  | cons step rest ih =>
    have hstep : (s.step step).session.keys = step.keysAfter s.keys := by
      apply keys_step
      rintro index rfl
      exact absurd List.mem_cons_self (hsince index)
    rw [run_cons, ih fun index hmem => hsince index (List.mem_cons_of_mem step hmem), hstep]
    rfl

lemma keys_of_changesPage (hstep : s.changesPage step = true) :
    (s.step step).session.keys = .none := by
  have hkeys : (s.step step).session.keys = step.keysAfter s.keys := by
    apply keys_step
    rintro index rfl
    exact of_decide_eq_true hstep
  rw [hkeys]
  cases step with
  | turnTo | renew => rfl
  | _ => cases hstep

/-- What a line break leads to. -/
lemma current_pressEnter (s : Session) :
    let b := insertLineBreak s.settings.language s.keys s.text s.caret.offset
    s.pressEnter.history.current = s.measured b.text b.caret := by
  intro b
  calc s.pressEnter.history.current
    _ = ((s.noteKey '\n').history.edit (s.measured b.text b.caret)).current :=
        congrArg History.current (history_stepHistory _ _)
    _ = s.measured b.text b.caret := History.current_edit _ _

/-- Let a session turn to a page that is there, or renew all pages, and let any steps follow but
further turns. The text and caret that a line break then leads to are those that the text and
caret before it, the language and the keys pressed since the change of the page lead to. The
keys from before the change have no part in them. -/
theorem line_break_reads_keys_since_page (s : Session) (change : SessionStep)
    (since : List SessionStep) (hchange : s.changesPage change = true)
    (hsince : ∀ index, .turnTo index ∉ since) :
    let t := (s.step change).session.run since
    let keys := since.foldl SessionStep.keysAfter .none
    let b := insertLineBreak t.settings.language keys t.text t.caret.offset
    (t.step .pressEnter).session.text = b.text ∧
    (t.step .pressEnter).session.caret =
      .ofOffset t.charWidth t.settings.metrics b.text b.caret := by
  intro t keys b
  have hkeys : t.keys = keys := by
    rw [keys_run hsince, keys_of_changesPage hchange]
  have hcurrent : t.pressEnter.history.current = t.measured b.text b.caret := by
    rw [current_pressEnter, hkeys]
  have hnext : (t.step .pressEnter).session = t.pressEnter := rfl
  rw [hnext, text, caret, hcurrent]
  simp only [measured, and_self]

/-- A closing bracket was typed last on the page that is left. The open bracket on the page that is
turned to would be counted if the closing one were still remembered. -/
theorem line_break_reads_keys_since_page_turned :
    let w : Char → Option Nat := fun _ => some 1
    let s := (new w .standard).run [.notebook (.add ['b'] ['f', '(', 'a']), .pressKey ')' 0]
    let since : List SessionStep := [.moveTo 3, .tick 400, .noteKey 'a']
    let t := (s.step (.turnTo 1)).session.run since
    s.keys = ⟨some ')', none⟩ ∧ s.changesPage (.turnTo 1) = true ∧
    (∀ index, .turnTo index ∉ since) ∧
    (insertLineBreak .javaScript ⟨some 'a', some ')'⟩ ['f', '(', 'a'] 3).text =
      ['f', '(', 'a', '\n', '\t'] ∧
    (t.step .pressEnter).session.text = ['f', '(', 'a', '\n'] ∧
    (t.step .pressEnter).session.caret = ⟨2, 1, 4⟩ := by
  intro w s since t
  have hkeys : s.keys = ⟨some ')', none⟩ := by decide
  have hchange : s.changesPage (.turnTo 1) = true := by decide
  have hsince : ∀ index, .turnTo index ∉ since := by simp [since]
  have hleaked : (insertLineBreak .javaScript ⟨some 'a', some ')'⟩ ['f', '(', 'a'] 3).text =
      ['f', '(', 'a', '\n', '\t'] := by decide
  obtain ⟨htext, hcaret⟩ := line_break_reads_keys_since_page s (.turnTo 1) since hchange hsince
  refine ⟨hkeys, hchange, hsince, hleaked, ?_, ?_⟩
  · rw [htext]
    decide
  · rw [hcaret]
    decide

/-- When the notebook removes the active page, the keys pressed on that page still change the next
line break on the page that takes its place. -/
theorem line_break_reads_keys_of_removed_page :
    let w : Char → Option Nat := fun _ => some 1
    let s := (new w .standard).run [.notebook (.add ['b'] ['f', '(', 'a'])]
    let t := s.run [.pressKey ')' 0, .notebook (.remove 0), .moveTo 3]
    let u := s.run [.pressKey 'x' 0, .notebook (.remove 0), .moveTo 3]
    t.settings = u.settings ∧ t.notebook = u.notebook ∧
    (t.step .pressEnter).session.text = ['f', '(', 'a', '\n', '\t'] ∧
    (u.step .pressEnter).session.text = ['f', '(', 'a', '\n'] := by
  decide

end Session
end EditingEngine
