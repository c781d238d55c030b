import EditingEngine.Proofs.Indentation.LineChanges
import Mathlib.Data.Finset.Lattice.Fold
import Mathlib.Algebra.Order.Ring.Int

/-!
# The depth of a line

A pass that re-indents a text stops its level at zero, twice in each line: once when a
closing bracket at the start takes the line out, and once behind the line. The brackets
of the code alone give a walk over the integers that has the same steps and does not
stop. A walk that is stopped at zero stands as far above zero as the free walk stands
above its lowest point so far, and that is the number of tabs of a line.
-/
namespace EditingEngine

/-- A walk over the naturals that stops at zero. -/
def stoppedWalk (start : Nat) (steps : List Int) : Nat :=
  steps.foldl (fun n d => ((n : Int) + d).toNat) start

/-- Where the free walk from zero stands after some of the steps. -/
def depthAfter (steps : List Int) (k : Nat) : Int := (steps.take k).sum

/-- The lowest point of the free walk up to then. -/
def lowestDepth (steps : List Int) (k : Nat) : Int :=
  (Finset.range (k + 1)).inf' Finset.nonempty_range_add_one (depthAfter steps)

@[simp] theorem depthAfter_zero (steps : List Int) : depthAfter steps 0 = 0 := rfl

lemma stoppedWalk_append (start : Nat) (front back : List Int) :
    stoppedWalk start (front ++ back) = stoppedWalk (stoppedWalk start front) back :=
  List.foldl_append

lemma depthAfter_succ (steps : List Int) {k : Nat} {d : Int} (hd : steps[k]? = some d) :
    depthAfter steps (k + 1) = depthAfter steps k + d := by
  simp [depthAfter, List.take_add_one, hd]

lemma lowestDepth_succ (steps : List Int) (k : Nat) :
    lowestDepth steps (k + 1) = min (depthAfter steps (k + 1)) (lowestDepth steps k) := by
  unfold lowestDepth
  rw [Finset.inf'_congr _ Finset.range_add_one fun _ _ => rfl, Finset.inf'_insert]

/-- A walk that never falls below its start has it as its lowest point. -/
lemma lowestDepth_eq_zero {steps : List Int} {k : Nat}
    (hsteps : ∀ j ≤ k, 0 ≤ depthAfter steps j) : lowestDepth steps k = 0 := by
  apply le_antisymm
  · exact Finset.inf'_le _ (Finset.mem_range.mpr k.succ_pos)
  · refine Finset.le_inf' _ _ fun j hj => hsteps j ?_
    exact Nat.lt_succ_iff.mp (Finset.mem_range.mp hj)

/-- The stopped walk measures the free one from its lowest point. -/
theorem stoppedWalk_eq_sub_lowest (steps : List Int) (k : Nat) (hk : k ≤ steps.length) :
    (stoppedWalk 0 (steps.take k) : Int) = depthAfter steps k - lowestDepth steps k := by
  induction k with
  | zero => simp [stoppedWalk, lowestDepth]
  | succ k ih =>
    obtain ⟨d, hd⟩ : ∃ d, steps[k]? = some d := ⟨_, List.getElem?_eq_getElem hk⟩
    have hstep : stoppedWalk 0 (steps.take (k + 1)) = (stoppedWalk 0 (steps.take k) + d).toNat := by
      rw [List.take_add_one, hd, stoppedWalk_append]
      rfl
    rw [hstep, lowestDepth_succ, depthAfter_succ steps hd, ih (by omega)]
    omega

namespace Language

/-- How the depth moves over some lines, in two steps for each: a closing bracket in front comes
off before the line is written, and the rest of its brackets count behind it. -/
def halfSteps (lang : Language) (s : LineState) : List Text → List Int
  | [] => []
  | line :: rest =>
    let out := (lang.startsClosing s line).toInt
    [-out, lang.balance s line + out] ++ lang.halfSteps (lang.readLine s line).exitState rest

/-- The opening brackets in the code of some lines less the closing ones. -/
def balanceOf (lang : Language) (s : LineState) : List Text → Int
  | [] => 0
  | line :: rest => lang.balance s line + lang.balanceOf (lang.readLine s line).exitState rest

variable {lang : Language}

lemma take_halfSteps (s : LineState) (lines : List Text) (i : Nat) :
    (lang.halfSteps s lines).take (2 * i) = lang.halfSteps s (lines.take i) := by
  induction lines generalizing s i with
  | nil => simp [halfSteps]
  | cons line rest ih =>
    cases i with
    | zero => rfl
    | succ i => simp [halfSteps, Nat.mul_succ, ih]

/-- The first step of a line. -/
lemma getElem?_halfSteps (s : LineState) {lines : List Text} {i : Nat} {line : Text}
    (hline : lines[i]? = some line) : (lang.halfSteps s lines)[2 * i]? =
      some (-(lang.startsClosing (lang.stateAfter s (lines.take i)) line).toInt) := by
  induction lines generalizing s i with
  | nil => simp at hline
  | cons first rest ih =>
    cases i with
    | zero =>
      obtain rfl : first = line := by simpa using hline
      rfl
    | succ i => exact ih _ (by simpa using hline)

/-- Both steps of a line together are its balance. -/
lemma sum_halfSteps (s : LineState) (lines : List Text) :
    (lang.halfSteps s lines).sum = lang.balanceOf s lines := by
  induction lines generalizing s with
  | nil => rfl
  | cons line rest ih =>
    simp [halfSteps, ih, balanceOf]
    omega

end Language

namespace Pass

variable {lang : Language}

/-- A pass takes a line out exactly when it begins with a closing bracket of the code. -/
lemma dedents_trim (p : Pass) (lang : Language) (line : Text) :
    p.dedents lang line.trim = lang.startsClosing p.state line := by
  rw [dedents, Language.startsClosing, Text.head?_trim]

lemma changeInFront_eq (p : Pass) (lang : Language) (line : Text) :
    p.changeInFront lang line = -(lang.startsClosing p.state line).toInt := by
  rw [changeInFront, dedents_trim]
  cases lang.startsClosing p.state line <;> rfl

lemma levelOf_trim (p : Pass) (lang : Language) (line : Text) :
    p.levelOf lang line.trim = stoppedWalk p.level [-(lang.startsClosing p.state line).toInt] := by
  rw [levelOf_trim_eq, changeInFront_eq]
  rfl

variable (hlang : lang.IgnoresBlanks) (hclosers : lang.HasPlainClosers)
include hlang hclosers

/-- Behind a line the level has moved by both steps and the state is the one that the raw line
leaves, blank or not. -/
theorem next_eq (p : Pass) (hquote : p.state.HasQuoteOf lang) (line : Text) :
    p.next lang line =
      ⟨stoppedWalk (p.levelOf lang line.trim)
        [lang.balance p.state line + (lang.startsClosing p.state line).toInt],
        (lang.readLine p.state line).exitState⟩ := by
  obtain ⟨hchange, hstate⟩ := change_eq_depthChange hlang hclosers p hquote line
  rw [changeInFront_eq, Language.depthChange_readLine hclosers] at hchange
  have hbehind : p.changeBehind lang line =
      lang.balance p.state line + (lang.startsClosing p.state line).toInt := by omega
  have hlevel := p.level_next lang line
  rw [← levelOf_trim_eq, hbehind] at hlevel
  calc
    p.next lang line
    _ = ⟨(p.next lang line).level, (p.next lang line).state⟩ := rfl
    _ = _ := by
      rw [hlevel, hstate]
      rfl

/-- What a pass knows behind some lines can be read off the raw lines. -/
theorem after_eq (p : Pass) (hquote : p.state.HasQuoteOf lang) (lines : List Text) :
    p.after lang lines =
      ⟨stoppedWalk p.level (lang.halfSteps p.state lines), lang.stateAfter p.state lines⟩ := by
  induction lines generalizing p with
  | nil => rfl
  | cons line rest ih =>
    have hnext := next_eq hlang hclosers p hquote line
    have hrest := ih (p.next lang line) (by
      rw [hnext]
      exact Language.hasQuoteOf_readLine hquote line)
    rw [levelOf_trim] at hnext
    change (p.next lang line).after lang rest = _
    rw [hrest, hnext]
    rfl

end Pass

/-- The pass in front of a line, read off the raw lines before it. -/
theorem passAt_eq {lang : Language} (hlang : lang.IgnoresBlanks) (hclosers : lang.HasPlainClosers)
    (text : Text) (i : Nat) : passAt lang text i =
      ⟨stoppedWalk 0 ((lang.halfSteps .plain text.lines).take (2 * i)),
        lang.stateAfter .plain (text.lines.take i)⟩ := by
  rw [Language.take_halfSteps]
  exact Pass.after_eq hlang hclosers .start Language.hasQuoteOf_plain (text.lines.take i)

/-- In JavaScript, and wherever blanks and closing brackets have no other meaning, a line that is
not blank and not entered inside a block comment gets as many tabs as the walk over the brackets of
the code stands above its lowest point. If it never falls below zero these are the brackets that are
open in front of the line, without the one that a closing bracket at its start closes. -/
theorem tabs_reindent_eq_depth {lang : Language}
    (hlang : lang = .javaScript ∨ lang.IgnoresBlanks ∧ lang.HasPlainClosers) (text : Text) {i : Nat}
    {line : Text} (hline : text.lines[i]? = some line) (hvisible : line.trim ≠ [])
    (hcode : (lang.stateAfter .plain (text.lines.take i)).inComment = false) :
    let steps := lang.halfSteps .plain text.lines
    ∃ n : Nat, (reindent lang text).lines[i]? = some (tabs n ++ line.trim) ∧
      n = depthAfter steps (2 * i + 1) - lowestDepth steps (2 * i + 1) ∧
      ((∀ j ≤ 2 * i + 1, 0 ≤ depthAfter steps j) →
        n = lang.balanceOf .plain (text.lines.take i) -
          (lang.startsClosing (lang.stateAfter .plain (text.lines.take i)) line).toInt) := by
  obtain ⟨hblanks, hclosers⟩ : lang.IgnoresBlanks ∧ lang.HasPlainClosers := by
    rcases hlang with rfl | hlang
    · exact ⟨Language.javaScript_ignoresBlanks, Language.javaScript_hasPlainClosers⟩
    · exact hlang
  intro steps
  have hfirst : steps[2 * i]? =
      some (-(lang.startsClosing (lang.stateAfter .plain (text.lines.take i)) line).toInt) :=
    Language.getElem?_halfSteps _ hline
  have hpass := passAt_eq hblanks hclosers text i
  have hlevel : (passAt lang text i).levelOf lang line.trim =
      stoppedWalk 0 (steps.take (2 * i + 1)) := by
    rw [Pass.levelOf_trim, hpass, List.take_add_one, hfirst, stoppedWalk_append]
    rfl
  have hlength : 2 * i + 1 ≤ steps.length := (List.getElem?_eq_some_iff.mp hfirst).1
  have hdepth := stoppedWalk_eq_sub_lowest steps (2 * i + 1) hlength
  refine ⟨stoppedWalk 0 (steps.take (2 * i + 1)), ?_, hdepth, ?_⟩
  · have hraw : (passAt lang text i).state.inComment = false := by
      rw [hpass]
      exact hcode
    rw [getElem?_lines_reindent, hline, ← hlevel]
    simp [Pass.layout, hvisible, hraw, LineLayout.render]
  · intro hnonneg
    have hopen : depthAfter steps (2 * i) = lang.balanceOf .plain (text.lines.take i) := by
      rw [depthAfter, Language.take_halfSteps, Language.sum_halfSteps]
    rw [hdepth, lowestDepth_eq_zero hnonneg, depthAfter_succ steps hfirst, hopen]
    omega

/-- A bracket too many in front, others in a string, in comments and behind the end of one: the
walk falls below zero on the first line and stands at one in front of the last. -/
theorem tabs_reindent_eq_depth_unbalanced :
    let text : Text := "](\n  ']' [ // (\n\t/* ( \n] */ x(\n\t\t\t )".toList
    let line : Text := "\t\t\t )".toList
    let steps := Language.javaScript.halfSteps .plain text.lines
    text.lines[4]? = some line ∧ line.trim ≠ [] ∧
      (Language.javaScript.stateAfter .plain (text.lines.take 4)).inComment = false ∧
      depthAfter steps 9 = 1 ∧ lowestDepth steps 9 = -1 ∧
      (reindent .javaScript text).lines[4]? = some (tabs 2 ++ line.trim) := by
  intro text line steps
  have hline : text.lines[4]? = some line := by decide
  have hvisible : line.trim ≠ [] := by decide
  have hcode : (Language.javaScript.stateAfter .plain (text.lines.take 4)).inComment = false := by
    decide
  have hdepth : depthAfter steps 9 = 1 := by decide
  have hlowest : lowestDepth steps 9 = -1 := by decide +kernel
  refine ⟨hline, hvisible, hcode, hdepth, hlowest, ?_⟩
  obtain ⟨n, hwritten, hn, -⟩ := tabs_reindent_eq_depth
    (.inr ⟨Language.javaScript_ignoresBlanks, Language.javaScript_hasPlainClosers⟩) text hline
    hvisible hcode
  obtain rfl : n = 2 := by
    change (n : Int) = depthAfter steps 9 - lowestDepth steps 9 at hn
    omega
  exact hwritten

end EditingEngine
