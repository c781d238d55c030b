import EditingEngine.Proofs.Lexical.CompleteReadings

/-!
# Lines that are cut

A line break reads only the part of a line in front of the caret. Up to the cut this part is read
as it is in the whole line, but for a marker that the cut goes through: then the whole line has a
comment that starts or ends there, and the part does not. So readings agree on every character
that is further from the cut than a marker is long, and on every bracket if no marker contains one.
-/
namespace EditingEngine

namespace CommentMarkers

/-- The length of the longest marker that is given, in use or not, and at least one. -/
def longest (m : CommentMarkers) : Nat :=
  [m.line, m.blockStart, m.blockEnd].foldl (fun size marker => max size (marker.getD []).length) 1

lemma one_le_longest (m : CommentMarkers) : 1 ≤ m.longest := by
  simp [longest]

lemma length_le_longest {m : CommentMarkers} {marker : Text} (h : marker ∈ m.inUse) :
    marker.length ≤ m.longest := by
  obtain hline | ⟨first, last, hblock, hmem⟩ := mem_inUse.mp h
  · have hgiven : m.line = some marker := (Option.filter_eq_some_iff.mp hline).1
    simp [longest, hgiven]
  · obtain ⟨hfirst, hlast⟩ := block?_eq_some hblock
    rcases hmem with rfl | rfl
    · simp [longest, hfirst]
    · simp [longest, hlast]

/-- A marker in use stands across a cut of the text, from an index on or from further in front. -/
def CutThrough (m : CommentMarkers) (text : Text) (index cut : Nat) : Prop :=
  ∃ start, ∃ marker ∈ m.inUse, start ≤ index ∧ marker <+: text.drop start ∧
    cut < start + marker.length

variable {m : CommentMarkers} {text : Text} {index cut : Nat}

/-- It reaches no further to the front than the longest marker. -/
lemma CutThrough.lt_add_longest (h : m.CutThrough text index cut) : cut < index + m.longest := by
  obtain ⟨start, marker, hmarker, hstart, -, hcut⟩ := h
  have hlength := length_le_longest hmarker
  omega

/-- The character at the index is one of the marker. -/
lemma CutThrough.mem_marker (h : m.CutThrough text index cut) (hindex : index < cut) :
    ∃ marker ∈ m.inUse, ∃ c ∈ marker, text[index]? = some c := by
  obtain ⟨start, marker, hmarker, hstart, ⟨rest, hstarts⟩, hcut⟩ := h
  have hlt : index - start < marker.length := by omega
  refine ⟨marker, hmarker, marker[index - start], List.getElem_mem hlt, ?_⟩
  calc text[index]?
    _ = (text.drop start)[index - start]? := by rw [List.getElem?_drop, Nat.add_sub_cancel' hstart]
    _ = (marker ++ rest)[index - start]? := by rw [hstarts]
    _ = some marker[index - start] := by
      rw [List.getElem?_append_left hlt, List.getElem?_eq_getElem hlt]

end CommentMarkers

namespace Language

variable {lang : Language}

/-- A character is read as it is without what is cut off, or a marker that starts with it is cut. -/
lemma readChar_take (lang : Language) (cursor : Cursor) (c : Char) (rest : Text) (k : Nat) :
    lang.readChar cursor c (rest.take k) = lang.readChar cursor c rest ∨
      ∃ marker ∈ lang.comments.inUse, marker <+: c :: rest ∧ k + 1 < marker.length := by
  by_cases hcut : ∃ marker ∈ lang.comments.inUse, marker <+: c :: rest ∧ k + 1 < marker.length
  · exact Or.inr hcut
  · refine Or.inl (readChar_congr (fun marker hmarker => ?_) cursor)
    have htake : c :: rest.take k = (c :: rest).take (k + 1) := rfl
    rw [Bool.eq_iff_iff, List.isPrefixOf_iff_prefix, List.isPrefixOf_iff_prefix, htake,
      List.prefix_take_iff, and_iff_left_iff_imp]
    intro hstarts
    exact Nat.le_of_not_lt fun hlt => hcut ⟨marker, hmarker, hstarts, hlt⟩

/-- Both readings take the same steps until they come to a marker that is cut. -/
lemma kinds_readFrom_take (cursor : Cursor) (i : Nat) {text : Text} {j k : Nat} (hj : j < k) :
    (lang.readFrom cursor i (text.take k)).kinds[j]? = (lang.readFrom cursor i text).kinds[j]? ∨
      lang.comments.CutThrough text j k := by
  -- Both readings have the same cursor until a marker starts that is cut, and this marker covers
  -- every index from there up to the cut.
  induction text generalizing cursor i j k with
  | nil => exact Or.inl (by rw [List.take_nil])
  | cons c rest ih =>
    obtain ⟨k, rfl⟩ := Nat.exists_eq_add_of_le' (Nat.zero_lt_of_lt hj)
    rcases lang.readChar_take cursor c rest k with hread | ⟨marker, hmarker, hstarts, hlength⟩
    · rw [List.take_succ_cons, readFrom_cons, readFrom_cons, hread]
      cases j with
      | zero => exact Or.inl rfl
      | succ j =>
        refine (ih _ (i + 1) (Nat.lt_of_succ_lt_succ hj)).imp_right ?_
        rintro ⟨start, marker, hmarker, hstart, hstarts, hlength⟩
        exact ⟨start + 1, marker, hmarker, by omega, hstarts, by omega⟩
    · exact Or.inr ⟨0, marker, hmarker, Nat.zero_le j, hstarts, by omega⟩

section Cut

variable (lang : Language) (s : LineState) (line : Text) {k : Nat}

/-- A character in front of the cut is read as in the whole line, or belongs to a marker that is
cut. -/
lemma kindAt?_take {j : Nat} (hj : j < k) :
    (lang.readLine s (line.take k)).kindAt? j = (lang.readLine s line).kindAt? j ∨
      lang.comments.CutThrough line j k :=
  kinds_readFrom_take ⟨s, .free⟩ 0 hj

/-- The same brackets are counted if every character that is read differently is no bracket. -/
lemma bracketsBefore_take {side : Side} {i : Nat} (hi : i ≤ k)
    (hcut : ∀ j < i, lang.comments.CutThrough line j k →
      (line : Text)[j]?.any (lang.side? · == some side) = false) :
    (lang.readLine s (line.take k)).bracketsBefore side i =
      (lang.readLine s line).bracketsBefore side i := by
  rw [bracketsBefore_eq, bracketsBefore_eq]
  refine List.countP_congr fun j hj => ?_
  have hji : j < i := List.mem_range.mp hj
  have hjk : j < k := Nat.lt_of_lt_of_le hji hi
  rw [List.getElem?_take_of_lt hjk]
  rcases lang.kindAt?_take s line hjk with hkind | hmarker
  · rw [hkind]
  · simp [hcut j hji hmarker]

/-- No bracket is part of a marker. -/
def HasPlainMarkers (lang : Language) : Prop :=
  ∀ marker ∈ lang.comments.inUse, ∀ c ∈ marker, lang.side? c = none

lemma javaScript_hasPlainMarkers : javaScript.HasPlainMarkers := by
  intro marker hmarker c hc
  have hall : javaScript.comments.inUse.flatten.Forall fun d => javaScript.side? d = none := by
    decide
  exact List.forall_iff_forall_mem.mp hall c (List.mem_flatten_of_mem hmarker hc)

/-- The brackets of the part in front of the cut are those of the whole line there. -/
theorem bracketsBefore_take_of_hasPlainMarkers {lang : Language} (hlang : lang.HasPlainMarkers)
    (side : Side) {i : Nat} (hi : i ≤ k) :
    (lang.readLine s (line.take k)).bracketsBefore side i =
      (lang.readLine s line).bracketsBefore side i := by
  refine lang.bracketsBefore_take s line hi fun j hj hcut => ?_
  obtain ⟨marker, hmarker, c, hc, hline⟩ := hcut.mem_marker (Nat.lt_of_lt_of_le hj hi)
  simp [hline, hlang marker hmarker c hc]

end Cut

/-- Whatever the language, reading only the part of a line in front of a cut gives every character
the kind that it has in the whole line if the longest marker would end in front of the cut when it
started there, and gives as many brackets of each side in front of every index up to one behind the
last of these characters. In JavaScript, where no bracket is part of a marker, it gives as many
brackets of each side as the whole line has in front of the cut. -/
theorem cut_line_reads_alike :
    (∀ (lang : Language) (s : LineState) (line : Text) (k : Nat),
      let part := lang.readLine s (line.take k)
      let whole := lang.readLine s line
      (∀ j, j + lang.comments.longest ≤ k → part.kindAt? j = whole.kindAt? j) ∧
      ∀ side i, i + lang.comments.longest ≤ k + 1 →
        part.bracketsBefore side i = whole.bracketsBefore side i) ∧
    ∀ (s : LineState) (line : Text) (k : Nat) (side : Side),
      (javaScript.readLine s (line.take k)).bracketsBefore side k =
        (javaScript.readLine s line).bracketsBefore side k := by
  constructor
  · intro lang s line k part whole
    have hlongest := lang.comments.one_le_longest
    constructor
    · intro j hj
      exact (lang.kindAt?_take s line (by omega)).resolve_right fun hcut =>
        absurd hcut.lt_add_longest (by omega)
    · intro side i hi
      refine lang.bracketsBefore_take s line (by omega) fun j hj hcut => ?_
      exact absurd hcut.lt_add_longest (by omega)
  · intro s line k side
    have hplain := javaScript_hasPlainMarkers
    exact bracketsBefore_take_of_hasPlainMarkers s line hplain side (Nat.le_refl k)

/-- A marker with a bracket in it is cut behind the bracket. Up to three characters in front of the
cut both readings agree, and the next character is the bracket that only the part has. In JavaScript
a cut through a marker costs no bracket. -/
theorem cut_line_reads_alike_bracket_in_marker :
    let lang : Language :=
      { javaScript with comments := .blockOnly ['*', '(', '*'] ['*', ')'] }
    let line := "a(*(* [".toList
    let part := lang.readLine .plain (line.take 4)
    let whole := lang.readLine .plain line
    let code := "f([ // ]".toList
    lang.comments.longest = 3 ∧
    1 + lang.comments.longest ≤ 4 ∧ part.kindAt? 1 = whole.kindAt? 1 ∧
    part.kindAt? 2 = some .code ∧ whole.kindAt? 2 = some .blockComment ∧
    2 + lang.comments.longest ≤ 4 + 1 ∧
    part.bracketsBefore .opening 2 = whole.bracketsBefore .opening 2 ∧
    part.bracketsBefore .opening 4 = 2 ∧ whole.bracketsBefore .opening 4 = 1 ∧
    (javaScript.readLine .plain (code.take 5)).kindAt? 4 ≠
      (javaScript.readLine .plain code).kindAt? 4 ∧
    (javaScript.readLine .plain (code.take 5)).bracketsBefore .opening 5 =
      (javaScript.readLine .plain code).bracketsBefore .opening 5 := by
  intro lang line part whole code
  obtain ⟨halike, hjavaScript⟩ := cut_line_reads_alike
  obtain ⟨hkinds, hbrackets⟩ := halike lang .plain line 4
  have hkind : 1 + lang.comments.longest ≤ 4 := by decide
  have hindex : 2 + lang.comments.longest ≤ 4 + 1 := by decide
  exact ⟨by decide, hkind, hkinds 1 hkind, by decide, by decide, hindex,
    hbrackets .opening 2 hindex, by decide, by decide, by decide,
    hjavaScript .plain code 5 .opening⟩

end Language
end EditingEngine
