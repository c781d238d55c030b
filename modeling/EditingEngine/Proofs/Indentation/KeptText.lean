import EditingEngine.Proofs.Indentation.LineBreaks
import EditingEngine.Proofs.Text.PlacedOffsets

/-!
# A line break keeps the text

A line break puts a line feed and tabs at an offset, in place of the gaps behind it. Apart from
these gaps, and from the tab in front of a closing bracket that moves out to the margin, all of the
text is still there, and the caret is behind the new tabs on the line below.
-/
namespace EditingEngine

/-- What stays on a line of the text that was in front of a break: all of it, unless that is one tab
and the closing bracket that was typed last. -/
inductive StaysAs (lang : Language) (keys : RecentKeys) (before : Text) : Text → Prop where
  | atMargin (c : Char) (hlast : keys.last = some c) (hcloser : lang.isCloser c = true)
    (hbefore : before = ['\t', c]) : StaysAs lang keys before [c]
  | inPlace (h : ¬ ∃ c, keys.last = some c ∧ lang.isCloser c = true ∧ before = ['\t', c]) :
    StaysAs lang keys before before

lemma staysAs_keptBefore (lang : Language) (keys : RecentKeys) (before : Text) :
    StaysAs lang keys before (keptBefore lang keys before) := by
  unfold keptBefore
  split
  · next closer hkey =>
    obtain ⟨hlast, hcloser⟩ := Option.filter_eq_some_iff.mp hkey
    split
    · next hlone => exact .atMargin closer hlast hcloser hlone
    · next hlone =>
      refine .inPlace ?_
      rintro ⟨c, hc, -, hbefore⟩
      obtain rfl : closer = c := Option.some.inj (hlast.symm.trans hc)
      exact hlone hbefore
  · next hkey =>
    refine .inPlace ?_
    rintro ⟨c, hc, hcloser, -⟩
    have hsome : keys.last.filter lang.isCloser = some c :=
      Option.filter_eq_some_iff.mpr ⟨hc, hcloser⟩
    rw [hkey] at hsome
    cases hsome

/-- What stays has no characters of its own. -/
lemma StaysAs.subset {lang : Language} {keys : RecentKeys} {before kept : Text}
    (h : StaysAs lang keys before kept) : kept ⊆ before := by
  cases h with
  | atMargin c _ _ hbefore => simp [hbefore]
  | inPlace => exact List.Subset.refl _

/-- The opening brackets in the code of a line that is entered in a state. -/
def Language.openersIn (lang : Language) (s : LineState) (line : Text) : Nat :=
  ((lang.readLine s line).codeOf line).countP lang.isOpener

lemma openDepth_le (lang : Language) (keys : RecentKeys) (s : LineState) (before : Text) :
    openDepth lang keys (lang.readLine s before) before ≤
      leadingTabs before + lang.openersIn s before := by
  have hopeners : (lang.readLine s before).bracketsBefore .opening before.length =
      lang.openersIn s before := by
    rw [Language.bracketsBefore_length]
    exact Language.countP_opening_brackets _ _ before
  rw [openDepth, hopeners, leadingTabs]
  split <;> omega

/-- No more tabs are put in front of the new line than the line has, and one for each opening
bracket. -/
lemma indent_breakLine_le (lang : Language) (keys : RecentKeys) (s : LineState)
    (before after : Text) : (breakLine lang s keys before after).indent ≤
      leadingTabs before + lang.openersIn s before := by
  have hdepth := openDepth_le lang keys s before
  simp only [breakLine]
  split <;> omega

/-- A line break puts a line feed and tabs into the line of an offset. All else in the text stays,
but for the gaps behind the offset and the tab of a lone closing bracket that was typed last. There
are at most as many new tabs as the line has, with one for each opening bracket of the code in front
of the offset, and the caret goes behind them: one line down, in a text of one more line. -/
theorem line_break_keeps_text (lang : Language) (keys : RecentKeys) (text : Text) (offset : Nat) :
    let o := min offset text.length
    let first := text.startOfLine (text.place offset).line
    let last := first + text.lineSize (text.place offset).line
    let before := (text.take o).drop first
    let after := (text.take last).drop o
    let broken := insertLineBreak lang keys text offset
    text.IsLineAround o first last ∧
    (∃ kept n, StaysAs lang keys before kept ∧
      n ≤ leadingTabs before + lang.openersIn (lang.entryState text offset) before ∧
      broken.text = text.take first ++ (kept ++ '\n' :: tabs n) ++
        (after.dropWhile isGap ++ text.drop last) ∧
      broken.caret = (text.take first ++ (kept ++ '\n' :: tabs n)).length) ∧
    (broken.text.place broken.caret).line = (text.place offset).line + 1 ∧
    broken.text.numLines = text.numLines + 1 := by
  intro o first last before after broken
  have hbefore : text.inFront offset = before := text.inFront_eq offset
  have hafter : text.behind offset = after := text.behind_eq offset
  have hk := text.place_line_lt offset
  obtain ⟨hfront, hbehind⟩ := text.line_feed_notMem_place offset
  rw [hbefore] at hfront
  rw [hafter] at hbehind
  have hstays := staysAs_keptBefore lang keys before
  have hkept : '\n' ∉ keptBefore lang keys before := fun hmem => hfront (hstays.subset hmem)
  have hmoved : '\n' ∉ after.dropWhile isGap := fun hmem =>
    hbehind ((List.dropWhile_suffix isGap).subset hmem)
  have hindent := indent_breakLine_le lang keys (lang.entryState text offset) before after
  generalize hn : (breakLine lang (lang.entryState text offset) keys before after).indent = n
    at hindent
  have hbreak : breakLine lang (lang.entryState text offset) keys (text.inFront offset)
      (text.behind offset) = ⟨keptBefore lang keys before, n, after.dropWhile isGap⟩ := by
    rw [hbefore, hafter, ← hn]
    rfl
  have hbroken : broken = ⟨_, _⟩ := insertLineBreak_eq hbreak
  have hlines := lines_brokenText hk n hkept hmoved
  refine ⟨text.isLineAround_place offset, ?_, ?_, ?_⟩
  · exact ⟨_, n, hstays, hindent, congrArg BrokenText.text hbroken,
      congrArg BrokenText.caret hbroken⟩
  · have hfirst : (text.take first).count '\n' = (text.place offset).line :=
      congrArg Text.Place.line (Text.place_startOfLine_add hk (Nat.zero_le _))
    have htabs : (tabs n).count '\n' = 0 := List.count_eq_zero.mpr (by simp [tabs])
    rw [hbroken]
    change (List.take _ _).count '\n' = _
    rw [List.take_left, List.count_append, List.count_append, List.count_cons_self, hfirst,
      List.count_eq_zero.mpr hkept, htabs]
  · rw [← Text.length_lines, hbroken, hlines]
    simp
    omega

-- The bracket that was typed last moves out to the margin, and the caret is still behind it.
example : insertLineBreak .javaScript ⟨some ')', none⟩ "(\n\t) \t;".toList 4 =
    ⟨"(\n)\n;".toList, 4⟩ := by decide

end EditingEngine
