import EditingEngine.Indentation.LineBreak
import EditingEngine.Proofs.Indentation.Depth
import EditingEngine.Proofs.Text.LineOffsets

/-!
# Line breaks in a re-indented text

A line break knows the depth from the tabs in front of one line, a pass from all the lines
before it. In a text that re-indenting does not change both depths are the same, unless
the line was kept as it is or was itself taken out by a closing bracket. Behind an opening
bracket a line break then counts the brackets in front of it as a pass does, so the new
line already stands where re-indenting would put it. In the two other cases it need not,
nor where the break moves a closing bracket down behind blanks that are no spaces or tabs.
-/
namespace EditingEngine

/-- The number of tabs in front of a line. -/
def leadingTabs (line : Text) : Nat := (line.takeWhile (· == '\t')).length

lemma leadingTabs_tabs_append (n : Nat) {content : Text} (h : content.head? ≠ some '\t') :
    leadingTabs (tabs n ++ content) = n := by
  have hcontent : content.takeWhile (· == '\t') = [] := by
    cases content with
    | nil => rfl
    | cons c rest =>
      have hc : c ≠ '\t' := by simpa using h
      simp [hc]
  rw [leadingTabs, List.takeWhile_append_of_pos (by simp [tabs]), hcontent]
  simp

/-- Only the part up to a character that is no tab matters. -/
lemma leadingTabs_append {front : Text} {c : Char} (hmem : c ∈ front) (hc : c ≠ '\t')
    (back : Text) : leadingTabs (front ++ back) = leadingTabs front := by
  have hlt : (front.takeWhile (· == '\t')).length ≠ front.length := by
    intro hlength
    have hall := List.takeWhile_eq_self_iff.mp
      ((List.takeWhile_prefix _).eq_of_length hlength) c hmem
    simp [hc] at hall
  rw [leadingTabs, List.takeWhile_append, if_neg hlt, leadingTabs]

/-- The state in which the line of an offset is entered. -/
def Language.entryState (lang : Language) (text : Text) (offset : Nat) : LineState :=
  lang.stateAfter .plain (text.linesAbove (text.place offset).line)

/-- Whether there is an opening bracket of the code in front of an offset, but for gaps. -/
def isBehindOpener (lang : Language) (text : Text) (offset : Nat) : Bool :=
  endsWithOpener lang (lang.readLine (lang.entryState text offset) (text.inFront offset))
    (text.inFront offset)

/-- The broken text with a letter at the caret if the new line would be blank. -/
def BrokenText.withLetter (b : BrokenText) : Text :=
  let rest : Text := (b.text.drop b.caret).takeWhile (· != '\n')
  if rest.trim = [] then b.text.take b.caret ++ 'x' :: b.text.drop b.caret else b.text

/-- A break at an offset puts as many tabs in front of the new line as it has when the broken text
is re-indented. -/
def BreaksAsReindented (lang : Language) (keys : RecentKeys) (text : Text) (offset : Nat) : Prop :=
  let broken := insertLineBreak lang keys text offset
  let line := (text.place offset).line + 1
  ∃ n, (broken.text.lines[line]?).map leadingTabs = some n ∧
    ((reindent lang broken.withLetter).lines[line]?).map leadingTabs = some n

lemma isBlank_of_isGap {c : Char} (h : isGap c = true) : Text.isBlank c = true := by
  simp only [isGap, Bool.or_eq_true, beq_iff_eq] at h
  rcases h with rfl | rfl <;> decide

/-- The gaps that a break drops are blanks. -/
lemma trimStart_dropWhile_isGap (text : Text) :
    Text.trimStart (text.dropWhile isGap) = text.trimStart := by
  have htext : text.takeWhile isGap ++ text.dropWhile isGap = text :=
    List.takeWhile_append_dropWhile
  have hgaps : ∀ c ∈ text.takeWhile isGap, Text.isBlank c = true := fun c hc =>
    isBlank_of_isGap (List.mem_takeWhile_imp hc)
  calc
    Text.trimStart (text.dropWhile isGap)
    _ = Text.trimStart (text.takeWhile isGap ++ text.dropWhile isGap) :=
      (List.dropWhile_append_of_pos hgaps).symm
    _ = text.trimStart := by rw [htext]

/-- A closing bracket behind blanks starts the text that moves down if a break drops these. -/
lemma head?_dropWhile_isGap {lang : Language} (hlang : lang.IgnoresBlanks) {text : Text}
    (hgaps : text.trimStart.head?.any lang.isCloser = true →
      text.trimStart = text.dropWhile isGap) :
    (text.dropWhile isGap).head?.any lang.isCloser = text.trimStart.head?.any lang.isCloser := by
  cases hcloses : text.trimStart.head?.any lang.isCloser with
  | true => rw [← hgaps hcloses, hcloses]
  | false =>
    rw [← trimStart_dropWhile_isGap] at hcloses
    cases hmoved : text.dropWhile isGap with
    | nil => rfl
    | cons c rest =>
      refine Bool.eq_false_iff.mpr fun hc => ?_
      have hcloser : lang.isCloser c = true := by simpa using hc
      have hblank : Text.isBlank c = false := Bool.eq_false_iff.mpr fun hblank => by
        simp [Language.isCloser_blank hlang hblank] at hcloser
      simp [hmoved, Text.trimStart, hblank, hcloser] at hcloses

section Behind

variable {lang : Language} {s : LineState} {before : Text}

lemma exists_of_endsWithOpener {r : LineReading} (h : endsWithOpener lang r before = true) :
    ∃ front c gaps, before = front ++ c :: gaps ∧ lang.isOpener c = true ∧
      (∀ d ∈ gaps, isGap d = true) ∧ r.kindAt? front.length = some .code := by
  obtain ⟨gaps, hbefore, hgaps⟩ := Text.dropTrailing_prefix isGap before
  simp only [endsWithOpener, Bool.and_eq_true, beq_iff_eq] at h
  obtain ⟨hopener, hcode⟩ := h
  rcases List.eq_nil_or_concat (Text.dropTrailing isGap before) with hnil | ⟨front, c, hkept⟩
  · simp [hnil] at hopener
  · rw [hkept] at hbefore hopener hcode
    refine ⟨front, c, gaps, ?_, ?_, hgaps, ?_⟩
    · simpa using hbefore
    · simpa using hopener
    · simpa using hcode

variable (hopens : endsWithOpener lang (lang.readLine s before) before = true)
include hopens

/-- Both algorithms see the same brackets in front of the break. -/
lemma openDepth_behind_opener (hclosers : lang.HasPlainClosers) (keys : RecentKeys) :
    openDepth lang keys (lang.readLine s before) before =
      leadingTabs before + lang.balance s before := by
  rw [openDepth, hopens, Bool.or_true, if_pos rfl, ← Language.depthChange_readLine hclosers,
    Language.depthChange_eq_bracketsBefore, leadingTabs]
  omega

variable (hlang : lang.IgnoresBlanks)
include hlang

lemma exitState_behind_opener : (lang.readLine s before).exitState = .plain := by
  obtain ⟨front, c, gaps, hbefore, -, hgaps, hcode⟩ := exists_of_endsWithOpener hopens
  rw [hbefore] at hcode ⊢
  exact Language.exitState_of_code hlang (fun d hd => isBlank_of_isGap (hgaps d hd)) hcode

lemma exists_opener : ∃ c ∈ before, Text.isBlank c = false := by
  obtain ⟨front, c, gaps, hbefore, hc, -, -⟩ := exists_of_endsWithOpener hopens
  refine ⟨c, by simp [hbefore], Bool.eq_false_iff.mpr fun hblank => ?_⟩
  simp [Language.isOpener_blank hlang hblank] at hc

/-- The line is not the lone closing bracket that a break moves out to the margin. -/
lemma keptBefore_behind_opener (hclosers : lang.HasPlainClosers) (keys : RecentKeys) :
    keptBefore lang keys before = before := by
  unfold keptBefore
  split
  · next closer hkey =>
    have hcloser : lang.isCloser closer = true := (Option.filter_eq_some_iff.mp hkey).2
    obtain ⟨front, c, gaps, hbefore, hc, hgaps, -⟩ := exists_of_endsWithOpener hopens
    have hlone : before ≠ ['\t', closer] := by
      intro heq
      rw [hbefore] at heq
      cases front with
      | nil =>
        obtain ⟨rfl, -⟩ : c = '\t' ∧ gaps = [closer] := by simpa using heq
        simp [Language.isOpener_blank hlang (by decide : Text.isBlank '\t' = true)] at hc
      | cons d front =>
        obtain ⟨-, -, rfl, -⟩ : d = '\t' ∧ front = [] ∧ c = closer ∧ gaps = [] := by
          simpa [List.append_eq_singleton_iff] using heq
        simp [Language.not_isOpener_of_isCloser hclosers hcloser] at hc
    rw [if_neg hlone]
  · rfl

variable (hclosers : lang.HasPlainClosers)
include hclosers

/-- A pass that enters the line as deep as its tabs say leaves it as deep as the break counts. -/
lemma next_behind_opener {p : Pass} (hquote : p.state.HasQuoteOf lang) (hp : p.state = s)
    (hlevel : leadingTabs before = p.level) (hstart : lang.startsClosing s before = false) :
    p.next lang before = ⟨(leadingTabs before + lang.balance s before : Int).toNat, .plain⟩ := by
  subst hp
  rw [Pass.next_eq hlang hclosers p hquote, Pass.levelOf_trim, hstart,
    exitState_behind_opener hopens hlang, hlevel]
  simp [stoppedWalk]

/-- A break puts the text that moves down where a pass behind the first part would put it. -/
lemma breakLine_behind_opener (keys : RecentKeys) {after : Text}
    (hgaps : after.trimStart.head?.any lang.isCloser = true →
      after.trimStart = after.dropWhile isGap) :
    let q : Pass := ⟨(leadingTabs before + lang.balance s before : Int).toNat, .plain⟩
    breakLine lang s keys before after =
      ⟨before, q.levelOf lang (Text.trim (after.dropWhile isGap)), after.dropWhile isGap⟩ := by
  intro q
  have hexit := exitState_behind_opener hopens hlang
  have hkept := keptBefore_behind_opener hopens hlang hclosers keys
  have hdepth := openDepth_behind_opener hopens hclosers keys
  have hmoved := head?_dropWhile_isGap hlang hgaps
  have hlevel : q.levelOf lang (Text.trim (after.dropWhile isGap)) =
      if (after.dropWhile isGap).head?.any lang.isCloser then q.level - 1 else q.level := by
    rw [Pass.levelOf, Pass.dedents, Text.head?_trim, trimStart_dropWhile_isGap, hmoved]
    rfl
  rw [hlevel]
  simp only [breakLine, hexit, hkept, hdepth]
  have hplain : LineState.plain.isPlain = true := rfl
  rw [hplain, Bool.true_and]
  congr 1
  split
  · exact Int.pred_toNat _
  · rfl

end Behind

/-- A line that a pass lays out anew has as many tabs as its level says. -/
lemma leadingTabs_render_layout {lang : Language} {p : Pass} {line : Text}
    (hcode : p.state.inComment = false) (hvisible : line.trim ≠ []) :
    leadingTabs (p.layout lang line).render = p.levelOf lang line.trim := by
  have hhead : line.trim.head? ≠ some '\t' := by
    intro htab
    rw [Text.head?_trim] at htab
    exact absurd (Text.isBlank_of_head?_trimStart htab) (by decide)
  simp [Pass.layout, hvisible, hcode, LineLayout.render, leadingTabs_tabs_append _ hhead]

section BrokenLine

variable {text : Text} {k : Nat} (hk : k < text.numLines) (n : Nat) {before content : Text}
  (hbefore : '\n' ∉ before) (hcontent : '\n' ∉ content)
include hk hbefore hcontent

/-- Two lines stand in the place of a line that is broken. -/
lemma lines_brokenText :
    Text.lines (text.take (text.startOfLine k) ++ (before ++ '\n' :: tabs n) ++
        (content ++ text.drop (text.startOfLine k + text.lineSize k))) =
      (text.lines.take k ++ [before]) ++ (tabs n ++ content) :: text.lines.drop (k + 1) := by
  have hnew : '\n' ∉ tabs n ++ content := by simp [tabs, hcontent]
  have hbroken : text.take (text.startOfLine k) ++ (before ++ '\n' :: tabs n) ++
        (content ++ text.drop (text.startOfLine k + text.lineSize k)) =
      text.take (text.startOfLine k) ++ (before ++ '\n' :: (tabs n ++ content)) ++
        text.drop (text.startOfLine k + text.lineSize k) := by simp
  rw [hbroken, Text.lines_replace_line _ _ hk, Text.lines_append_line_feed,
    Text.lines_eq_singleton hbefore, Text.lines_eq_singleton hnew]
  simp

/-- Where a line is broken, the new line is laid out by the pass behind what stays in front. -/
lemma lines_broken_line (lang : Language) :
    let broken : Text := text.take (text.startOfLine k) ++ (before ++ '\n' :: tabs n) ++
      (content ++ text.drop (text.startOfLine k + text.lineSize k))
    broken.lines[k + 1]? = some (tabs n ++ content) ∧ (reindent lang broken).lines[k + 1]? =
      some (((passAt lang text k).next lang before).layout lang (tabs n ++ content)).render := by
  intro broken
  have hlines : broken.lines = _ := lines_brokenText hk n hbefore hcontent
  have hlength : (text.lines.take k ++ [before]).length = k + 1 := by
    have := text.length_lines
    simp
    omega
  have htake : broken.lines.take (k + 1) = text.lines.take k ++ [before] := by
    rw [hlines, List.take_left' hlength]
  have hline : broken.lines[k + 1]? = some (tabs n ++ content) := by
    rw [hlines, List.getElem?_append_right hlength.le, hlength, Nat.sub_self]
    rfl
  have hpass : passAt lang broken (k + 1) = (passAt lang text k).next lang before := by
    rw [passAt, htake, Pass.after, List.foldl_append]
    rfl
  refine ⟨hline, ?_⟩
  rw [getElem?_lines_reindent, hline, hpass]
  rfl

end BrokenLine

/-- A broken text is cut at its caret into what stays and what moved down with the rest. -/
lemma insertLineBreak_eq {lang : Language} {keys : RecentKeys} {text before moved : Text}
    {offset n : Nat} (hbreak : breakLine lang (lang.entryState text offset) keys
      (text.inFront offset) (text.behind offset) = ⟨before, n, moved⟩) :
    let k := (text.place offset).line
    let front : Text := text.take (text.startOfLine k) ++ (before ++ '\n' :: tabs n)
    insertLineBreak lang keys text offset =
      ⟨front ++ (moved ++ text.drop (text.startOfLine k + text.lineSize k)), front.length⟩ := by
  intro k front
  have hstart : min (text.startOfLine k) text.length = text.startOfLine k :=
    Nat.min_eq_left (text.startOfLine_le_length k)
  have hbroken : insertLineBreak lang keys text offset =
      ⟨text.take (text.startOfLine k) ++ LineBreak.text ⟨before, n, moved⟩ ++
          text.drop (text.startOfLine k + text.lineSize k),
        text.startOfLine k + LineBreak.caret ⟨before, n, moved⟩⟩ := by
    rw [← hbreak]
    rfl
  rw [hbroken]
  simp [front, LineBreak.text, LineBreak.caret, hstart]
  omega

/-- The letter stands in front of the text that moved down. -/
lemma withLetter_eq {front moved below : Text} (hmoved : '\n' ∉ moved)
    (hbelow : below.takeWhile (· != '\n') = []) :
    (BrokenText.mk (front ++ (moved ++ below)) front.length).withLetter =
      front ++ ((if moved.trim = [] then 'x' :: moved else moved) ++ below) := by
  have hrest : (moved ++ below).takeWhile (· != '\n') = moved := by
    rw [List.takeWhile_append_of_pos, hbelow, List.append_nil]
    intro c hc
    simpa using fun heq : c = '\n' => hmoved (heq ▸ hc)
  simp only [BrokenText.withLetter, List.drop_left, List.take_left, hrest]
  split
  · simp
  · rfl

/-- The letter is laid out like the text that moved down, or like an empty line. -/
lemma levelOf_withLetter {lang : Language} (hletter : lang.isCloser 'x' = false) (q : Pass)
    (moved : Text) :
    let content : Text := if moved.trim = [] then 'x' :: moved else moved
    content.trim ≠ [] ∧ q.levelOf lang content.trim = q.levelOf lang moved.trim := by
  intro content
  have hx : Text.isBlank 'x' = false := by decide
  by_cases hblank : moved.trim = []
  · have hcontent : content = 'x' :: moved := if_pos hblank
    have hhead : content.trim.head? = some 'x' := by
      rw [Text.head?_trim, hcontent]
      simp [Text.trimStart, hx]
    refine ⟨fun hnil => by simp [hnil] at hhead, ?_⟩
    simp [Pass.levelOf, Pass.dedents, hhead, hblank, hletter]
  · have hcontent : content = moved := if_neg hblank
    rw [hcontent]
    exact ⟨hblank, rfl⟩

/-- If a break lays the text that moves down out as the pass behind the first part would, it agrees
with re-indenting the broken text. -/
lemma breaksAsReindented_of_breakLine {lang : Language} {keys : RecentKeys} {text moved : Text}
    {offset : Nat} (hletter : lang.isCloser 'x' = false)
    (hmoved : (text.behind offset).dropWhile isGap = moved) :
    let q := (passAt lang text (text.place offset).line).next lang (text.inFront offset)
    q.state.inComment = false →
    breakLine lang (lang.entryState text offset) keys (text.inFront offset) (text.behind offset) =
      ⟨text.inFront offset, q.levelOf lang moved.trim, moved⟩ →
    BreaksAsReindented lang keys text offset := by
  intro q hcode hbreak
  have hk := text.place_line_lt offset
  obtain ⟨hfront, hbehind⟩ := text.line_feed_notMem_place offset
  have hfeed : '\n' ∉ moved := by
    rw [← hmoved]
    exact fun hmem => hbehind ((List.dropWhile_suffix isGap).subset hmem)
  have htab : moved.head? ≠ some '\t' := by
    intro htab
    have hgap := List.head?_dropWhile_not isGap (text.behind offset)
    rw [hmoved, htab] at hgap
    exact absurd hgap (by decide)
  obtain ⟨hvisible, hlevel⟩ := levelOf_withLetter hletter q moved
  refine ⟨q.levelOf lang moved.trim, ?_, ?_⟩
  · rw [insertLineBreak_eq hbreak, (lines_broken_line hk _ hfront hfeed lang).1, Option.map_some,
      leadingTabs_tabs_append _ htab]
  · have hcontent : '\n' ∉ if moved.trim = [] then 'x' :: moved else moved := by
      split
      · simp [hfeed]
      · exact hfeed
    rw [insertLineBreak_eq hbreak, withLetter_eq hfeed (Text.takeWhile_drop_line hk),
      (lines_broken_line hk _ hfront hcontent lang).2, Option.map_some,
      leadingTabs_render_layout hcode (by simpa using hvisible), trim_tabs_append, hlevel]

section Settled

variable {lang : Language} (hlang : lang.IgnoresBlanks) (hclosers : lang.HasPlainClosers)
include hlang hclosers

lemma state_passAt_place (text : Text) (offset : Nat) :
    (passAt lang text (text.place offset).line).state = lang.entryState text offset := by
  rw [passAt_eq hlang hclosers, Language.entryState, Text.linesAbove_eq_take]

/-- In a text that re-indenting keeps, a line has the tabs of its depth, unless a closing bracket
takes it out or it is kept as it is whatever its depth. -/
lemma leadingTabs_inFront {text : Text} {offset : Nat} (hsettled : reindent lang text = text)
    (hopener : isBehindOpener lang text offset = true)
    (hstart : lang.startsClosing (lang.entryState text offset) (text.inFront offset) = false)
    (hcode : (lang.entryState text offset).inComment = false) :
    leadingTabs (text.inFront offset) =
      (passAt lang text (text.place offset).line).level := by
  obtain ⟨c, hmem, hc⟩ := exists_opener hopener hlang
  have htab : c ≠ '\t' := by
    rintro rfl
    exact absurd hc (by decide)
  have hstate := state_passAt_place hlang hclosers text offset
  have hvisible : Text.trim (text.inFront offset ++ text.behind offset) ≠ [] :=
    Text.trim_ne_nil (List.mem_append_left _ hmem) hc
  have hwritten := getElem?_lines_reindent lang text (text.place offset).line
  rw [hsettled, Text.getElem?_place, Option.map_some, Option.some.injEq] at hwritten
  calc
    leadingTabs (text.inFront offset)
    _ = leadingTabs (text.inFront offset ++ text.behind offset) :=
      (leadingTabs_append hmem htab _).symm
    _ = (passAt lang text _).levelOf lang (Text.trim (text.inFront offset ++ _)) := by
      rw [← leadingTabs_render_layout (by rw [hstate, hcode]) hvisible, ← hwritten]
    _ = (passAt lang text _).level := by
      rw [Pass.levelOf_trim, hstate, Language.startsClosing_append hmem hc, hstart]
      simp [stoppedWalk]

end Settled

/-- In a re-indented JavaScript text a break behind an opening bracket puts the new line where
re-indenting puts it, if the line does not begin with a closing bracket of the code, has the tabs
of its depth if it was entered inside a block comment, and has nothing but gaps in front of a
closing bracket that comes first behind the break. -/
theorem breaksAsReindented_behind_opener (keys : RecentKeys) {text : Text} {offset : Nat}
    (hsettled : reindent .javaScript text = text)
    (hopener : isBehindOpener .javaScript text offset = true)
    (hstart : Language.javaScript.startsClosing (Language.javaScript.entryState text offset)
      (text.inFront offset) = false)
    (hcomment : (Language.javaScript.entryState text offset).inComment = true →
      leadingTabs (text.inFront offset) =
        (passAt .javaScript text (text.place offset).line).level)
    (hgaps : (text.behind offset).trimStart.head?.any Language.javaScript.isCloser = true →
      (text.behind offset).trimStart = (text.behind offset).dropWhile isGap) :
    BreaksAsReindented .javaScript keys text offset := by
  have hlang := Language.javaScript_ignoresBlanks
  have hclosers := Language.javaScript_hasPlainClosers
  have hk := text.place_line_lt offset
  have hstate := state_passAt_place hlang hclosers text offset
  have hlevel : leadingTabs (text.inFront offset) =
      (passAt .javaScript text (text.place offset).line).level := by
    cases hcode : (Language.javaScript.entryState text offset).inComment with
    | true => exact hcomment hcode
    | false => exact leadingTabs_inFront hlang hclosers hsettled hopener hstart hcode
  have hquote : (passAt .javaScript text (text.place offset).line).state.HasQuoteOf
      .javaScript := by
    rw [hstate]
    exact Language.hasQuoteOf_stateAfter Language.hasQuoteOf_plain _
  have hnext := next_behind_opener hopener hlang hclosers hquote hstate hlevel hstart
  have hbreak := breakLine_behind_opener hopener hlang hclosers keys hgaps
  rw [← hnext] at hbreak
  exact breaksAsReindented_of_breakLine (by decide) rfl (by rw [hnext]; rfl) hbreak

/-- Behind two brackets on a line that ends a block comment and has the tab of its depth, with gaps
in front of the closing bracket that moves down. -/
theorem breaksAsReindented_behind_opener_in_comment :
    let text : Text := "f(\n\t/* (\n\t*/ g([ \t ])\n)".toList
    reindent .javaScript text = text ∧ isBehindOpener .javaScript text 16 = true ∧
      Language.javaScript.startsClosing (Language.javaScript.entryState text 16)
        (text.inFront 16) = false ∧
      (Language.javaScript.entryState text 16).inComment = true ∧
      leadingTabs (text.inFront 16) = (passAt .javaScript text (text.place 16).line).level ∧
      (text.behind 16).trimStart.head?.any Language.javaScript.isCloser = true ∧
      (text.behind 16).trimStart = (text.behind 16).dropWhile isGap ∧
      BreaksAsReindented .javaScript ⟨some '[', some '('⟩ text 16 := by
  intro text
  have hsettled : reindent .javaScript text = text := by decide
  have hopener : isBehindOpener .javaScript text 16 = true := by decide
  have hstart : Language.javaScript.startsClosing (Language.javaScript.entryState text 16)
      (text.inFront 16) = false := by decide
  have hlevel : leadingTabs (text.inFront 16) =
      (passAt .javaScript text (text.place 16).line).level := by decide
  have hgaps : (text.behind 16).trimStart = (text.behind 16).dropWhile isGap := by decide
  exact ⟨hsettled, hopener, hstart, by decide, hlevel, by decide, hgaps,
    breaksAsReindented_behind_opener ⟨some '[', some '('⟩ hsettled hopener hstart
      (fun _ => hlevel) (fun _ => hgaps)⟩

/-- None of the conditions on the line can be left out. Here it is entered inside a block comment
with fewer tabs than its depth, then it begins with a closing bracket, and then a no-break space
stands in front of the closing bracket that moves down. -/
theorem not_breaksAsReindented_behind_opener :
    (reindent .javaScript "(/*\n*/(".toList = "(/*\n*/(".toList ∧
      isBehindOpener .javaScript "(/*\n*/(".toList 7 = true ∧
      ¬ BreaksAsReindented .javaScript ⟨some '(', none⟩ "(/*\n*/(".toList 7) ∧
    (reindent .javaScript "(\n)(".toList = "(\n)(".toList ∧
      isBehindOpener .javaScript "(\n)(".toList 4 = true ∧
      ¬ BreaksAsReindented .javaScript ⟨some '(', none⟩ "(\n)(".toList 4) ∧
    reindent .javaScript "(\u00a0)".toList = "(\u00a0)".toList ∧
      isBehindOpener .javaScript "(\u00a0)".toList 1 = true ∧
      ¬ BreaksAsReindented .javaScript ⟨some '(', none⟩ "(\u00a0)".toList 1 := by
  refine ⟨⟨by decide, by decide, ?_⟩, ⟨by decide, by decide, ?_⟩, by decide, by decide, ?_⟩
  · rintro ⟨n, hbroken, hreindented⟩
    have hone : some 1 = some n := hbroken
    have htwo : some 2 = some n := hreindented
    simp [← hone] at htwo
  · rintro ⟨n, hbroken, hreindented⟩
    have hzero : some 0 = some n := hbroken
    have hone : some 1 = some n := hreindented
    simp [← hzero] at hone
  · rintro ⟨n, hbroken, hreindented⟩
    have hone : some 1 = some n := hbroken
    have hzero : some 0 = some n := hreindented
    simp [← hone] at hzero

end EditingEngine
