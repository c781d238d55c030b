import EditingEngine.Proofs.Lexical.Blanks

/-!
# The brackets of the code

What a reading says of the depth is a count of the characters that it read as code: the
opening brackets less the closing ones. The brackets that it notes with their indices give
the same count. A closing bracket at the start of a line that is entered in plain code can
be taken off beforehand where closing brackets are nothing else in the language.
-/
namespace EditingEngine

namespace LineReading

/-- The characters of a line that were read as code. -/
def codeOf (r : LineReading) (line : Text) : Text :=
  ((line.zip r.kinds).filter (·.2 == .code)).map (·.1)

@[simp] theorem codeOf_empty (s : LineState) : (empty s).codeOf [] = [] := rfl

@[simp] theorem codeOf_cons (index : Nat) (r : CharReading) (rest : LineReading) (c : Char)
    (line : Text) : (cons index r rest).codeOf (c :: line) =
      if r.kind = .code then c :: rest.codeOf line else rest.codeOf line := by
  by_cases h : r.kind = .code <;> simp [codeOf, cons, h]

end LineReading

namespace Language

open CommentMarkers (not_prefix_cons_of_head?_ne)

/-- A language whose closing brackets are nothing else in the code: no opening bracket, no quote
and not the start of a marker. -/
structure HasPlainClosers (lang : Language) : Prop where
  not_opener : ∀ p ∈ lang.indentPairs, lang.isOpener p.closer = false
  not_quote : ∀ p ∈ lang.indentPairs, lang.isQuote p.closer = false
  not_line : ∀ p ∈ lang.indentPairs, ∀ marker, lang.comments.line? = some marker →
    marker.head? ≠ some p.closer
  not_block : ∀ p ∈ lang.indentPairs, ∀ first last,
    lang.comments.block? = some (first, last) → first.head? ≠ some p.closer

theorem javaScript_hasPlainClosers : javaScript.HasPlainClosers where
  not_opener := by decide
  not_quote := by decide
  not_line := by
    rintro p hp _ ⟨⟩
    revert p
    decide
  not_block := by
    rintro p hp _ _ ⟨⟩
    revert p
    decide

/-- The opening brackets in the code of a line less the closing ones. -/
def balance (lang : Language) (s : LineState) (line : Text) : Int :=
  let code := (lang.readLine s line).codeOf line
  code.countP lang.isOpener - code.countP lang.isCloser

/-- Whether a line begins, but for blanks, with a closing bracket of the code. -/
def startsClosing (lang : Language) (s : LineState) (line : Text) : Bool :=
  s.isPlain && line.trimStart.head?.any lang.isCloser

variable {lang : Language}

lemma exists_of_isCloser {c : Char} (hc : lang.isCloser c = true) :
    ∃ p ∈ lang.indentPairs, p.closer = c := by
  obtain ⟨p, hp, heq⟩ := List.any_eq_true.mp hc
  exact ⟨p, hp, beq_iff_eq.mp heq⟩

/-- Only the part up to a character that is no blank matters. -/
lemma startsClosing_append {s : LineState} {before : Text} {c : Char} (hmem : c ∈ before)
    (hc : Text.isBlank c = false) (after : Text) :
    lang.startsClosing s (before ++ after) = lang.startsClosing s before := by
  have hvisible : before.trimStart ≠ [] := by
    intro hnil
    have hblank := List.dropWhile_eq_nil_iff.mp hnil c hmem
    simp [hc] at hblank
  obtain ⟨d, rest, hd⟩ := List.exists_cons_of_ne_nil hvisible
  have happend : Text.trimStart (before ++ after) = before.trimStart ++ after := by
    unfold Text.trimStart at hd ⊢
    simp [List.dropWhile_append, hd]
  rw [startsClosing, startsClosing, happend, hd]
  rfl

/-- Nothing is open at the end of a line that has only blanks behind a character of the code. -/
lemma exitState_of_code (hlang : lang.IgnoresBlanks) {blanks : Text}
    (hblanks : ∀ d ∈ blanks, Text.isBlank d = true) {cursor : Cursor} {i : Nat} {front : Text}
    {c : Char} (hkind : (lang.readFrom cursor i (front ++ c :: blanks)).kindAt? front.length =
      some .code) : (lang.readFrom cursor i (front ++ c :: blanks)).exitState = .plain := by
  induction front generalizing cursor i with
  | nil =>
    have hcode : (lang.readChar cursor c blanks).kind = .code := by
      simpa [LineReading.kindAt?, LineReading.cons] using hkind
    have hnext := readChar_code hcode
    have hquote : (Cursor.mk .plain .free).state.HasQuoteOf lang := hasQuoteOf_plain
    have hrest := readFrom_blanks hlang hblanks hquote (i + 1)
    rw [List.nil_append, readFrom_cons, hnext]
    exact hrest.exitState_eq
  | cons d front ih =>
    apply ih
    simpa [LineReading.kindAt?, LineReading.cons] using hkind

/-- Both readings of the depth: the balance that was added up, and the noted brackets. -/
lemma depthChange_eq_brackets (cursor : Cursor) (i : Nat) (line : Text) :
    let r := lang.readFrom cursor i line
    r.depthChange = r.brackets.countP (·.2 == .opening) - r.brackets.countP (·.2 == .closing) := by
  induction line generalizing cursor i with
  | nil => rfl
  | cons c rest ih =>
    have hrest := ih (lang.readChar cursor c rest).next (i + 1)
    simp only [readFrom_cons, LineReading.cons, hrest]
    rcases (lang.readChar cursor c rest).bracket with _ | ⟨_ | _⟩
    · simp
    · simp [Side.depthChange]
      omega
    · simp [Side.depthChange]
      omega

lemma index_lt_of_mem_brackets {cursor : Cursor} {i : Nat} {line : Text} {b : Nat × Side}
    (hb : b ∈ (lang.readFrom cursor i line).brackets) : b.1 < i + line.length := by
  induction line generalizing cursor i with
  | nil => cases hb
  | cons c rest ih =>
    rw [List.length_cons]
    rcases List.mem_append.mp hb with hhead | hrest
    · obtain ⟨side, _, rfl⟩ : ∃ side, _ = some side ∧ (i, side) = b := by
        simpa using hhead
      change i < _
      omega
    · have := ih hrest
      omega

/-- Behind a line all its brackets are counted. -/
lemma bracketsBefore_of_length_le (s : LineState) (side : Side) {line : Text} {i : Nat}
    (hi : line.length ≤ i) : (lang.readLine s line).bracketsBefore side i =
      (lang.readLine s line).brackets.countP (·.2 == side) := by
  apply List.countP_congr
  intro b hb
  have hlt : b.1 < line.length := by simpa using index_lt_of_mem_brackets hb
  simp [hlt.trans_le hi]

lemma bracketsBefore_length (s : LineState) (line : Text) (side : Side) :
    (lang.readLine s line).bracketsBefore side line.length =
      (lang.readLine s line).brackets.countP (·.2 == side) :=
  bracketsBefore_of_length_le s side (Nat.le_refl _)

theorem depthChange_eq_bracketsBefore (s : LineState) (line : Text) :
    let r := lang.readLine s line
    r.depthChange =
      r.bracketsBefore .opening line.length - r.bracketsBefore .closing line.length := by
  intro r
  rw [bracketsBefore_length, bracketsBefore_length]
  exact depthChange_eq_brackets _ _ _

/-- The noted opening brackets are the opening brackets in the code. -/
lemma countP_opening_brackets (cursor : Cursor) (i : Nat) (line : Text) :
    (lang.readFrom cursor i line).brackets.countP (·.2 == .opening) =
      ((lang.readFrom cursor i line).codeOf line).countP lang.isOpener := by
  induction line generalizing cursor i with
  | nil => rfl
  | cons c rest ih =>
    have hrest := ih (lang.readChar cursor c rest).next (i + 1)
    simp only [readFrom_cons, LineReading.codeOf_cons]
    simp only [LineReading.cons, bracket_readChar, List.countP_append, hrest]
    by_cases hkind : (lang.readChar cursor c rest).kind = .code
    · simp only [hkind, if_true, List.countP_cons, side?]
      cases hopener : lang.isOpener c with
      | true => simp [Nat.add_comm]
      | false => cases lang.isCloser c <;> simp
    · simp [hkind]

section

variable (hclosers : lang.HasPlainClosers)
include hclosers

lemma not_isOpener_of_isCloser {c : Char} (hc : lang.isCloser c = true) :
    lang.isOpener c = false := by
  obtain ⟨p, hp, rfl⟩ := exists_of_isCloser hc
  exact hclosers.not_opener p hp

lemma depthChange_eq_countP (cursor : Cursor) (i : Nat) (line : Text) :
    let r := lang.readFrom cursor i line
    r.depthChange =
      (r.codeOf line).countP lang.isOpener - (r.codeOf line).countP lang.isCloser := by
  induction line generalizing cursor i with
  | nil => rfl
  | cons c rest ih =>
    have hrest := ih (lang.readChar cursor c rest).next (i + 1)
    simp only [readFrom_cons, LineReading.codeOf_cons]
    simp only [LineReading.cons, bracket_readChar, hrest]
    by_cases hkind : (lang.readChar cursor c rest).kind = .code
    · simp only [hkind, if_true, List.countP_cons, side?]
      cases hopener : lang.isOpener c with
      | true =>
        have hcloser : lang.isCloser c = false := by
          refine Bool.eq_false_iff.mpr fun hc => ?_
          simp [not_isOpener_of_isCloser hclosers hc] at hopener
        simp [hcloser, Side.depthChange]
        omega
      | false =>
        cases hcloser : lang.isCloser c with
        | true =>
          simp [Side.depthChange]
          omega
        | false => simp
    · simp [hkind]

/-- The depth changes by the balance of the brackets in the code. -/
theorem depthChange_readLine (s : LineState) (line : Text) :
    (lang.readLine s line).depthChange = lang.balance s line :=
  depthChange_eq_countP hclosers _ _ _

/-- A closing bracket in plain code is read as such, and what follows as a line of its own. -/
lemma readLine_closer {c : Char} (hc : lang.isCloser c = true) (rest : Text) :
    (lang.readLine .plain (c :: rest)).exitState = (lang.readLine .plain rest).exitState ∧
      (lang.readLine .plain (c :: rest)).depthChange =
        (lang.readLine .plain rest).depthChange - 1 := by
  have hopener := not_isOpener_of_isCloser hclosers hc
  obtain ⟨p, hp, rfl⟩ := exists_of_isCloser hc
  have hline : lang.comments.startsLine (p.closer :: rest) = false :=
    CommentMarkers.startsLine_eq_false fun marker hmarker =>
      not_prefix_cons_of_head?_ne (CommentMarkers.line?_ne_nil hmarker)
        (hclosers.not_line p hp marker hmarker) rest
  have hblock : lang.comments.blockStartAt? (p.closer :: rest) = none :=
    CommentMarkers.blockStartAt?_eq_none fun first last hmarkers =>
      not_prefix_cons_of_head?_ne (CommentMarkers.block?_ne_nil hmarkers).1
        (hclosers.not_block p hp first last hmarkers) rest
  have hread : lang.readChar ⟨.plain, .free⟩ p.closer rest =
      ⟨.code, some .closing, ⟨.plain, .free⟩⟩ := by
    simp [readChar, LineState.plain, readInCode, hline, hblock, hclosers.not_quote p hp, side?,
      hopener, hc]
  have hrest : (lang.readFrom ⟨.plain, .free⟩ 1 rest).SameEffect
      (lang.readFrom ⟨.plain, .free⟩ 0 rest) := sameEffect_index _ 1 0 rest
  simp only [readLine, readFrom_cons, hread]
  refine ⟨hrest.exitState_eq, ?_⟩
  simp only [LineReading.cons, hrest.depthChange_eq, Option.map_some, Option.getD_some,
    Side.depthChange]
  omega

end

end Language
end EditingEngine
