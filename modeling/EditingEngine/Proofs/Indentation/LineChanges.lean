import EditingEngine.Indentation.LineBreak
import EditingEngine.Proofs.Indentation.NormalForm
import EditingEngine.Proofs.Lexical.CodeBrackets
import EditingEngine.Proofs.Text.LineOffsets

/-!
# What a pass takes from a line

A pass that re-indents a text reads each line trimmed, without a closing bracket that it has
counted already, and blank lines not at all. A line break reads the lines above as they are.
Where blanks and closing brackets have no other meaning in the language, both find the same:
the pass enters every line in the state that the raw lines above leave behind, and moves its
level by the brackets that the raw line has on balance.
-/
namespace EditingEngine

namespace Pass

/-- What a closing bracket at the start of a line does to the level that the line stands at. -/
def changeInFront (p : Pass) (lang : Language) (line : Text) : Int :=
  if p.dedents lang line.trim then -1 else 0

/-- What the brackets that are then left to read do to the level behind the line. -/
def changeBehind (p : Pass) (lang : Language) (line : Text) : Int :=
  if line.trim = [] then 0 else (lang.readLine p.state (p.unread lang line.trim)).depthChange

lemma levelOf_trim_eq (p : Pass) (lang : Language) (line : Text) :
    p.levelOf lang line.trim = (p.level + p.changeInFront lang line).toNat := by
  unfold levelOf changeInFront
  split <;> omega

/-- The level moves by both changes and is stopped at zero after each of them. -/
lemma level_next (p : Pass) (lang : Language) (line : Text) : (p.next lang line).level =
    ((p.level + p.changeInFront lang line).toNat + p.changeBehind lang line).toNat := by
  rw [← levelOf_trim_eq]
  by_cases hblank : line.trim = []
  · simp [next, changeBehind, levelOf, dedents, hblank]
  · simp [next, changeBehind, hblank]

section

variable {lang : Language} (hlang : lang.IgnoresBlanks) (hclosers : lang.HasPlainClosers)
include hlang hclosers

/-- A line that is trimmed and has lost its first closing bracket says the same as the raw one. -/
theorem change_eq_depthChange (p : Pass) (hquote : p.state.HasQuoteOf lang) (line : Text) :
    p.changeInFront lang line + p.changeBehind lang line =
        (lang.readLine p.state line).depthChange ∧
      (p.next lang line).state = (lang.readLine p.state line).exitState := by
  have htrim := Language.readLine_trim hlang hquote line
  rw [htrim.depthChange_eq, htrim.exitState_eq]
  by_cases hblank : line.trim = []
  · simp [changeInFront, changeBehind, next, dedents, hblank, Language.readLine, LineReading.empty]
  · cases hdedents : p.dedents lang line.trim with
    | false => simp [changeInFront, changeBehind, next, unread, hblank, hdedents]
    | true =>
      obtain ⟨hplain, hhead⟩ := Bool.and_eq_true_iff.mp hdedents
      rw [LineState.isPlain_iff] at hplain
      obtain ⟨c, rest, hcontent⟩ := List.exists_cons_of_ne_nil hblank
      have hcloser : lang.isCloser c = true := by simpa [hcontent] using hhead
      obtain ⟨hexit, hdepth⟩ := Language.readLine_closer hclosers hcloser rest
      have hunread : p.unread lang line.trim = rest := by
        rw [unread, hdedents, if_pos rfl, hcontent, List.tail_cons]
      simp only [changeInFront, changeBehind, next, hblank, hdedents, hunread, hplain, if_true,
        if_false]
      rw [hcontent, hexit, hdepth]
      exact ⟨by omega, rfl⟩

theorem state_after (p : Pass) (hquote : p.state.HasQuoteOf lang) (lines : List Text) :
    (p.after lang lines).state = lang.stateAfter p.state lines := by
  induction lines generalizing p with
  | nil => rfl
  | cons line rest ih =>
    have hstate := (change_eq_depthChange hlang hclosers p hquote line).2
    have hrest := ih (p.next lang line) (by
      rw [hstate]
      exact Language.hasQuoteOf_readLine hquote line)
    rw [hstate] at hrest
    exact hrest

end

end Pass

/-- The pass in front of the next line is the one behind this line. -/
lemma passAt_succ (lang : Language) {text : Text} {i : Nat} {line : Text}
    (hline : text.lines[i]? = some line) :
    passAt lang text (i + 1) = (passAt lang text i).next lang line := by
  rw [passAt, List.take_add_one, hline, Pass.after, List.foldl_append]
  rfl

/-- In JavaScript, and wherever blanks and closing brackets have no other meaning, re-indenting
enters each line in the state that the raw lines above it leave behind, and its two changes of the
level on the line add up to the brackets that the raw line has on balance. So a line break may as
well be made in the state in which re-indenting enters the line. -/
theorem pass_reads_raw_lines {lang : Language}
    (hlang : lang = .javaScript ∨ lang.IgnoresBlanks ∧ lang.HasPlainClosers) (text : Text)
    (i : Nat) :
    let p := passAt lang text i
    p.state = lang.stateAfter .plain (text.linesAbove i) ∧
    (∀ line, text.lines[i]? = some line →
      (passAt lang text (i + 1)).level =
        ((p.level + p.changeInFront lang line).toNat + p.changeBehind lang line).toNat ∧
      p.changeInFront lang line + p.changeBehind lang line =
        (lang.readLine p.state line).depthChange) ∧
    ∀ keys offset, (text.place offset).line = i →
      let b := breakLine lang p.state keys (text.inFront offset) (text.behind offset)
      insertLineBreak lang keys text offset =
        ⟨text.take (text.startOfLine i) ++ b.text ++
          text.drop (text.startOfLine i + text.lineSize i), text.startOfLine i + b.caret⟩ := by
  obtain ⟨hblanks, hclosers⟩ : lang.IgnoresBlanks ∧ lang.HasPlainClosers := by
    rcases hlang with rfl | hlang
    · exact ⟨Language.javaScript_ignoresBlanks, Language.javaScript_hasPlainClosers⟩
    · exact hlang
  intro p
  have hstate : p.state = lang.stateAfter .plain (text.linesAbove i) := by
    rw [Text.linesAbove_eq_take]
    exact Pass.state_after hblanks hclosers .start Language.hasQuoteOf_plain (text.lines.take i)
  refine ⟨hstate, ?_, ?_⟩
  · intro line hline
    rw [passAt_succ lang hline]
    have hquote : p.state.HasQuoteOf lang := by
      rw [hstate]
      exact Language.hasQuoteOf_stateAfter Language.hasQuoteOf_plain _
    exact ⟨p.level_next lang line, (Pass.change_eq_depthChange hblanks hclosers p hquote line).1⟩
  · rintro keys offset rfl b
    have hb : b = breakLine lang (lang.stateAfter .plain (text.linesAbove (text.place offset).line))
        keys (text.inFront offset) (text.behind offset) := by rw [← hstate]
    rw [hb]
    rfl

/-- A string with an escape in front of the blank that ends a line goes on over a blank line, and
the line behind it begins with a closing bracket and opens a comment. -/
theorem pass_reads_raw_lines_string :
    let text : Text := "f(`\\ \n \t\n ) ` [\n ] /* (\n) */ (".toList
    let line : Text := " ] /* (".toList
    let p := passAt .javaScript text 3
    text.lines[3]? = some line ∧
    p.state = Language.javaScript.stateAfter .plain (text.linesAbove 3) ∧
    (passAt .javaScript text 4).state =
      Language.javaScript.stateAfter .plain (text.linesAbove 4) ∧
    (passAt .javaScript text 4).state = ⟨none, true⟩ ∧
    p.changeInFront .javaScript line = -1 ∧ p.changeBehind .javaScript line = 0 ∧
    (Language.javaScript.readLine p.state line).depthChange = -1 := by
  intro text line p
  have hline : text.lines[3]? = some line := by decide
  obtain ⟨hstate, hchanges, -⟩ := pass_reads_raw_lines (Or.inl rfl) text 3
  have hnext := (pass_reads_raw_lines (Or.inl rfl) text 4).1
  have hfront : p.changeInFront .javaScript line = -1 := by decide
  have hbehind : p.changeBehind .javaScript line = 0 := by decide
  have hchange := (hchanges line hline).2
  refine ⟨hline, hstate, hnext, by decide, hfront, hbehind, ?_⟩
  rw [← hchange]
  change p.changeInFront .javaScript line + p.changeBehind .javaScript line = -1
  rw [hfront, hbehind]
  rfl

end EditingEngine
