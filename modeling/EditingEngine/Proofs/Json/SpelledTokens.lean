import EditingEngine.Proofs.Json.Trees
import EditingEngine.Proofs.Json.WrittenTokens
import EditingEngine.Proofs.Json.RespacedValues

/-!
# Numbers, strings and skipped values in their spellings

A number is read in any of its spellings, and so is a string that stands for a text. Any value that
is spelled in a text can be skipped.
-/
namespace EditingEngine.Json

section Numbers

variable {rest : Text}

lemma readFraction_spelled {digits t : Text} (h : SpellsFraction digits t)
    (hrest : EndsDigits rest) (hpoint : ∀ c ∈ rest.head?, c ≠ '.') :
    readFraction (t ++ rest) = .ok (digits, rest) := by
  cases h with
  | none =>
    cases rest with
    | nil => rfl
    | cons c rest => exact readFraction_of_ne (hpoint c rfl) rest
  | point h => exact readDigits_append h.digits hrest h.ne_nil

lemma readExponent_spelled {e : Option (Bool × Text)} {t : Text} (h : SpellsExponent e t)
    (hrest : EndsNumber rest) : readExponent (t ++ rest) = .ok (e, rest) := by
  have hmarked : ∀ {mark : Char}, mark = 'e' ∨ mark = 'E' → ∀ u : Text,
      readExponent (mark :: u) = readPower u := by
    rintro mark (rfl | rfl) u <;> rfl
  cases h with
  | none => exact readExponent_of_endsNumber hrest
  | plain hmark h =>
    have hread := readDigits_append h.digits hrest.endsDigits h.ne_nil
    obtain ⟨c, more, rfl⟩ := List.exists_cons_of_ne_nil h.ne_nil
    have hc : c.isDigit = true := h.digits c List.mem_cons_self
    have hsigns : c ≠ '-' ∧ c ≠ '+' := by
      constructor <;> (rintro rfl; exact absurd hc (by decide))
    rw [List.cons_append] at hread
    rw [List.cons_append, List.cons_append, hmarked hmark, readPower_of_ne hsigns.1 hsigns.2, hread]
    rfl
  | plus hmark h =>
    rw [List.cons_append, List.cons_append, hmarked hmark, readPower,
      readDigits_append h.digits hrest.endsDigits h.ne_nil]
    rfl
  | minus hmark h =>
    rw [List.cons_append, List.cons_append, hmarked hmark, readPower,
      readDigits_append h.digits hrest.endsDigits h.ne_nil]
    rfl

lemma SpellsExponent.ends {e : Option (Bool × Text)} {t : Text} (h : SpellsExponent e t)
    (hrest : EndsNumber rest) : ∀ c ∈ (t ++ rest).head?, c.isDigit = false ∧ c ≠ '.' := by
  cases h with
  | none => exact fun c hc => ⟨(hrest c hc).1, (hrest c hc).2.1⟩
  | plain hmark | plus hmark | minus hmark =>
    rcases hmark with rfl | rfl <;> simp

lemma SpellsFraction.ends {digits t : Text} (h : SpellsFraction digits t)
    (hrest : EndsDigits rest) : EndsDigits (t ++ rest) := by
  cases h with
  | none => exact hrest
  | point => simp [EndsDigits]

/-- A number starts with its sign or with a digit. -/
lemma SpellsNumeral.head {x : Numeral} {t : Text} (h : SpellsNumeral x t) :
    ∃ c r, t = c :: r ∧ (x.negative = true ∧ c = '-' ∨ x.negative = false ∧ c.isDigit = true) := by
  obtain ⟨hwhole, -, -, -⟩ := h
  cases hsign : x.negative with
  | true => exact ⟨'-', _, rfl, Or.inl ⟨rfl, rfl⟩⟩
  | false =>
    obtain ⟨c, more, hc⟩ := List.exists_cons_of_ne_nil hwhole.ne_nil
    have hmem : c ∈ x.whole := by
      rw [hc]
      exact List.mem_cons_self
    exact ⟨c, _, by rw [hc]; rfl, Or.inr ⟨rfl, hwhole.digits c hmem⟩⟩

theorem readNumeral_spelled {x : Numeral} {t : Text} (h : SpellsNumeral x t)
    (hrest : EndsNumber rest) : readNumeral (t ++ rest) = .ok (x, rest) := by
  obtain ⟨negative, whole, fraction, exponent⟩ := x
  obtain @⟨f, e, hwhole, hzero, hfraction, hexponent⟩ := h
  have hends := hexponent.ends hrest
  have hdigits : EndsDigits (e ++ rest) := fun c hc => (hends c hc).1
  have hsign : readSign ((if negative then ['-'] else []) ++ (whole ++ (f ++ (e ++ rest)))) =
      (negative, whole ++ (f ++ (e ++ rest))) := by
    cases negative with
    | true => rfl
    | false =>
      obtain ⟨c, more, rfl⟩ := List.exists_cons_of_ne_nil hwhole.ne_nil
      have hc : c ≠ '-' := by
        rintro rfl
        exact absurd (hwhole.digits '-' List.mem_cons_self) (by decide)
      simp [readSign, hc]
  have h₁ := readWhole_digits hwhole.digits (hfraction.ends hdigits) hwhole.ne_nil hzero
  have h₂ := readFraction_spelled hfraction hdigits fun c hc => (hends c hc).2
  have h₃ := readExponent_spelled hexponent hrest
  simp only [List.append_assoc]
  simp [readNumeral, hsign, h₁, h₂, h₃, bind, Except.bind, pure, Except.pure]

lemma readNumber_spelled {x : Numeral} {t : Text} (h : SpellsNumeral x t)
    (hrest : EndsNumber rest) : readNumber (t ++ rest) =
      if overflows x.scientific.1 x.scientific.2 then .error .malformed else .ok (x, rest) := by
  rw [readNumber, readNumeral_spelled h hrest]
  rfl

/-- A count is small enough to be read. -/
lemma overflows_of_count? {x : Numeral} {n : Nat} (hn : x.count? = some n) :
    overflows x.scientific.1 x.scientific.2 = false := by
  obtain ⟨negative, whole, fraction, exponent⟩ := x
  simp only [Numeral.count?] at hn
  split at hn
  · cases hn
  · next hplain =>
    split at hn
    · next hsmall =>
      obtain ⟨⟨rfl, rfl⟩, rfl⟩ : (negative = false ∧ fraction = []) ∧ exponent = none := by
        simpa using hplain
      have hwhole : Numeral.absorb 0 whole = _ := absorb_digits hsmall
      simp [Numeral.scientific, hwhole, Numeral.absorb, overflows]
    · cases hn

end Numbers

section Strings

variable {s : Option Text} {raw : Text} (rest : Text)

lemma toOption_consChar (c : Char) (r : Except Fault (Text × Text)) :
    (consChar c r).toOption = r.toOption.map fun x => (c :: x.1, x.2) := by
  cases r <;> rfl

lemma quote_notMem_of_unitOf? {a b c d : Char} {n : Nat} (h : unitOf? a b c d = some n) :
    '"' ∉ ['\\', 'u', a, b, c, d] := by
  have hdigit : ∀ {e : Char} {m : Nat}, hexValue? e = some m → '"' ≠ e := by
    rintro e m he rfl
    cases he
  simp only [unitOf?, Option.bind_eq_bind, Option.bind_eq_some_iff] at h
  obtain ⟨_, ha, _, hb, _, hc, _, hd, -⟩ := h
  simp [hdigit ha, hdigit hb, hdigit hc, hdigit hd]

/-- The quote behind a string is no part of the second half of a pair. -/
lemma StartsTrailing.of_append (h : StartsTrailing (raw ++ '"' :: rest)) : StartsTrailing raw := by
  obtain ⟨a, b, c, d, n, more, htext, hn, htrail⟩ := h
  have hsplit : raw ++ '"' :: rest = ['\\', 'u', a, b, c, d] ++ more := htext
  rcases List.append_eq_append_iff.mp hsplit with ⟨tail, hhalf, hmore⟩ | ⟨tail, hraw, -⟩
  · cases tail with
    | nil => exact ⟨a, b, c, d, n, [], by rw [← List.append_nil raw, ← hhalf], hn, htrail⟩
    | cons e tail =>
      obtain ⟨rfl, -⟩ := List.cons.inj hmore
      have hmem : '"' ∈ raw ++ '"' :: tail := List.mem_append_right raw List.mem_cons_self
      rw [← hhalf] at hmem
      exact absurd hmem (quote_notMem_of_unitOf? hn)
  · exact ⟨a, b, c, d, n, tail, hraw, hn, htrail⟩

lemma not_isTrailing {n : Nat} (hlead : isLeading n = true) : isTrailing n = false := by
  simp only [isLeading, isTrailing, Bool.and_eq_true, decide_eq_true_eq, Bool.and_eq_false_iff,
    decide_eq_false_iff_not] at hlead ⊢
  omega

/-- Behind the first half of a pair only the second half may stand. -/
lemma readChars_half {a b c d : Char} {n : Nat} (hn : unitOf? a b c d = some n)
    (hlead : isLeading n = true) {t : Text} (halone : ¬ StartsTrailing t) :
    (readChars ('\\' :: 'u' :: a :: b :: c :: d :: t)).toOption = none := by
  simp only [readChars, hn, not_isTrailing hlead, hlead, Bool.false_eq_true, if_false, if_true]
  split
  · rfl
  · rfl
  · next e f g h more =>
    split
    · rfl
    · next m hm =>
      split
      · next htrail => exact absurd ⟨e, f, g, h, m, more, rfl, hm, htrail⟩ halone
      · rfl
  · rfl
  · rfl

theorem readChars_spelled (h : SpellsChars s raw) :
    (readChars (raw ++ '"' :: rest)).toOption = s.map (·, rest) := by
  induction h with
  | nil => rfl
  | plain c hquote hslash hcontrol _ ih =>
    rw [List.cons_append, readChars_cons hquote hslash, hcontrol, if_neg Bool.false_ne_true,
      toOption_consChar, ih, Option.map_map, Option.map_map]
    rfl
  | @escape s raw letter c hc _ ih =>
    have hletter : letter ≠ 'u' := by
      rintro rfl
      cases hc
    rw [List.cons_append, List.cons_append, readChars_escape hletter, hc]
    simp only
    rw [toOption_consChar, ih, Option.map_map, Option.map_map]
    rfl
  | unit hn htrail hlead _ ih =>
    simp only [List.cons_append, readChars, hn, htrail, hlead, Bool.false_eq_true, if_false]
    rw [toOption_consChar, ih, Option.map_map, Option.map_map]
    rfl
  | pair hn hlead hm htrail _ ih =>
    simp only [List.cons_append, readChars, hn, not_isTrailing hlead, hlead, hm, htrail,
      Bool.false_eq_true, if_false, if_true]
    rw [toOption_consChar, ih, Option.map_map, Option.map_map]
    rfl
  | @half s raw a b c d n hn halone _ _ =>
    simp only [List.cons_append]
    rcases halone with htrail | ⟨hlead, halone⟩
    · simp only [readChars, hn, htrail, if_true]
      rfl
    · exact readChars_half hn hlead fun h => halone (h.of_append rest)

theorem skipChars_spelled (h : SpellsChars s raw) : skipChars (raw ++ '"' :: rest) = .ok rest := by
  induction h with
  | nil => rfl
  | plain c hquote hslash hcontrol _ ih =>
    rw [List.cons_append, skipChars_cons hquote hslash, hcontrol, if_neg Bool.false_ne_true, ih]
  | @escape s raw letter c hc _ ih =>
    have hletter : letter ≠ 'u' := by
      rintro rfl
      cases hc
    rw [List.cons_append, List.cons_append, skipChars_escape hletter, hc]
    exact ih
  | unit hn _ _ _ ih | half hn _ _ ih =>
    simp only [List.cons_append, skipChars, hn, ih]
  | pair hn _ hm _ _ ih =>
    simp only [List.cons_append, skipChars, hn, hm, ih]

end Strings

section Parts

variable {v : Tree} {t rest : Text}

/-- A value starts with a character of its own, and only a null with the letter of a null. -/
lemma Spells.head_value (h : Spells (.value v) t) :
    ∃ c r, t = c :: r ∧ isSpace c = false ∧ c ≠ ']' ∧ (c = 'n' → v = .null) := by
  cases h with
  | null => exact ⟨_, _, rfl, by decide, by decide, fun _ => rfl⟩
  | yes | no | string | emptyList | list | emptyObject | object =>
    exact ⟨_, _, rfl, by decide, by decide, fun h => absurd h (by decide)⟩
  | number h =>
    obtain ⟨c, r, rfl, ⟨-, rfl⟩ | ⟨-, hc⟩⟩ := h.head
    · exact ⟨_, _, rfl, by decide, by decide, fun h => absurd h (by decide)⟩
    · refine ⟨_, _, rfl, isSpace_of_isDigit hc, ?_, ?_⟩
      · rintro rfl
        exact absurd hc (by decide)
      · rintro rfl
        exact absurd hc (by decide)

lemma Spells.skipSpace_value (h : Spells (.value v) t) (rest : Text) :
    skipSpace (t ++ rest) = t ++ rest := by
  obtain ⟨c, r, rfl, hc, -⟩ := h.head_value
  rw [List.cons_append, skipSpace_of_not_isSpace hc]

lemma Spells.skipSpace_member {m : Option Text × Tree} (h : Spells (.member m) t) (rest : Text) :
    skipSpace (t ++ rest) = t ++ rest := by
  cases h with
  | member => exact skipSpace_of_not_isSpace (by decide) _

lemma skipSpace_spaces {s : Text} (hs : IsSpaces s) {c : Char} (hc : isSpace c = false)
    (rest : Text) : skipSpace (s ++ c :: rest) = c :: rest := by
  rw [skipSpace_append hs, skipSpace_of_not_isSpace hc]

lemma readColon_spaces {s : Text} (hs : IsSpaces s) (rest : Text) :
    readColon (s ++ ':' :: rest) = .ok rest := by
  have hcolon : isSpace ':' = false := by decide
  simp [readColon, skipSpace_spaces hs hcolon]

/-- Space does not go on with a number. -/
lemma endsNumber_spaces {s : Text} (hs : IsSpaces s) (hrest : EndsNumber rest) :
    EndsNumber (s ++ rest) := by
  cases s with
  | nil => exact hrest
  | cons d s =>
    have hd : isSpace d = true := hs d List.mem_cons_self
    refine endsNumber_cons _ ⟨?_, ?_⟩
    · refine Bool.eq_false_iff.mpr fun hdigit => ?_
      rw [isSpace_of_isDigit hdigit] at hd
      cases hd
    · refine ⟨?_, ?_, ?_⟩ <;> (rintro rfl; exact absurd hd (by decide))

/-- The mark behind a value, which space may be in front of, is found and does not go on with a
number. -/
lemma mark_behind {s : Text} (hs : IsSpaces s) {mark : Char}
    (hmark : mark = ',' ∨ mark = ']' ∨ mark = '}') (rest : Text) :
    EndsNumber (s ++ mark :: rest) ∧ skipSpace (s ++ mark :: rest) = mark :: rest := by
  rcases hmark with rfl | rfl | rfl <;>
    exact ⟨endsNumber_spaces hs (endsNumber_cons rest (by decide)),
      skipSpace_spaces hs (by decide) rest⟩

end Parts

/-- The number of items or members. -/
def Node.size : Node → Nat
  | .value _ => 0
  | .member _ => 0
  | .items vs => vs.length
  | .members ms => ms.length

/-- Every item and every member has a mark behind it. -/
lemma Spells.size_le {node : Node} {t : Text} (h : Spells node t) (rest : Text) :
    node.size ≤ (skipSpace (t ++ rest)).length := by
  induction h with
  | lastItem hs h =>
    simp only [Node.size, List.append_assoc, skipSpace_append hs, h.skipSpace_value,
      List.length_append, List.length_cons]
    omega
  | lastMember hs h =>
    simp only [Node.size, List.append_assoc, skipSpace_append hs, h.skipSpace_member,
      List.length_append, List.length_cons]
    omega
  | @nextItem _ _ _ _ _ more hs h _ _ _ ih =>
    have hle := length_skipSpace_le (more ++ rest)
    simp only [Node.size, List.append_assoc, List.cons_append, skipSpace_append hs,
      h.skipSpace_value, List.length_append, List.length_cons] at ih hle ⊢
    omega
  | @nextMember _ _ _ _ _ more hs h _ _ _ ih =>
    have hle := length_skipSpace_le (more ++ rest)
    simp only [Node.size, List.append_assoc, List.cons_append, skipSpace_append hs,
      h.skipSpace_member, List.length_append, List.length_cons] at ih hle ⊢
    omega
  | _ => exact Nat.zero_le _

section Skipping

/-- A node is skipped from any text that goes on with it behind space. A number must end there. -/
def Node.Skipped : Node → Text → Prop
  | .value _, t => ∀ u rest, skipSpace u = t ++ rest → EndsNumber rest → Skips .value u rest
  | .member _, t => ∀ u rest, skipSpace u = t ++ rest → EndsNumber rest →
      ∃ r, skipName u = .ok r ∧ Skips .value r rest
  | .items _, t => ∀ u rest, skipSpace u = skipSpace (t ++ rest) → Skips .items u rest
  | .members _, t => ∀ u rest, skipSpace u = skipSpace (t ++ rest) → Skips .members u rest

lemma Spells.ne_closing {node : Node} {t : Text} (h : Spells node t) (rest : Text) :
    match node with
    | .items _ => ∀ r, skipSpace (t ++ rest) ≠ ']' :: r
    | .members _ => ∀ r, skipSpace (t ++ rest) ≠ '}' :: r
    | _ => True := by
  cases h with
  | lastItem hs h | nextItem hs h =>
    intro r hr
    obtain ⟨c, w, rfl, hc, hclosing, -⟩ := h.head_value
    rw [List.append_assoc, skipSpace_append hs, List.append_assoc, List.cons_append,
      skipSpace_of_not_isSpace hc] at hr
    exact hclosing (List.cons.inj hr).1
  | lastMember hs h | nextMember hs h =>
    intro r hr
    rw [List.append_assoc, skipSpace_append hs, List.append_assoc, h.skipSpace_member] at hr
    cases h
    cases hr
  | _ => trivial

/-- What a number starts with is neither a bracket nor a quote. -/
lemma SpellsNumeral.head_ne {x : Numeral} {c d : Char} {r : Text} (h : SpellsNumeral x (c :: r))
    (hminus : d ≠ '-') (hdigit : d.isDigit = false) : c ≠ d := by
  obtain ⟨_, _, hcons, hc⟩ := h.head
  cases hcons
  rintro rfl
  simp [hminus, hdigit] at hc

lemma skipScalar_number {c : Char} {r : Text} (hc : c = '-' ∨ c.isDigit = true) :
    skipScalar c r = skipNumber (c :: r) := by
  have hnumber : (c == '-' || c.isDigit) = true := by simpa using hc
  unfold skipScalar
  split
  case h_5 => rw [if_pos hnumber]
  all_goals exact absurd hc (by decide)

/-- A value of any kind is skipped, whatever is in it. -/
theorem Spells.skipped {node : Node} {t : Text} (h : Spells node t) : node.Skipped t := by
  induction h with
  | null | yes | no =>
    intro u rest hu _
    exact .scalar hu (by decide) (by decide) (readWord_append _ rest)
  | number h =>
    intro u rest hu hrest
    obtain ⟨c, r, rfl, hc⟩ := h.head
    have hsign : c = '-' ∨ c.isDigit = true := hc.imp And.right And.right
    have hread : skipNumber (c :: r ++ rest) = .ok rest := by
      rw [skipNumber, readNumeral_spelled h hrest]
    exact .scalar hu (h.head_ne (by decide) (by decide)) (h.head_ne (by decide) (by decide))
      ((skipScalar_number hsign).trans hread)
  | string h =>
    intro u rest hu _
    have hread := skipChars_spelled rest h
    rw [List.cons_append, List.append_assoc] at hu
    exact .scalar hu (by decide) (by decide) hread
  | emptyList hs =>
    intro u rest hu _
    rw [List.cons_append, List.append_assoc] at hu
    exact .emptyList hu (skipSpace_spaces hs (by decide) rest)
  | emptyObject hs =>
    intro u rest hu _
    rw [List.cons_append, List.append_assoc] at hu
    exact .emptyObject hu (skipSpace_spaces hs (by decide) rest)
  | list h ih =>
    intro u rest hu _
    exact .list hu (h.ne_closing rest) (ih _ rest (skipSpace_skipSpace _))
  | object h ih =>
    intro u rest hu _
    exact .object hu (h.ne_closing rest) (ih _ rest (skipSpace_skipSpace _))
  | member hname hs hs' h ih =>
    intro u rest hu hrest
    simp only [List.cons_append, List.append_assoc] at hu
    refine ⟨_, ?_, ih _ rest ((skipSpace_append hs' _).trans (h.skipSpace_value rest)) hrest⟩
    rw [skipName, hu]
    exact bind_eq_ok.mpr ⟨_, skipChars_spelled _ hname, readColon_spaces hs _⟩
  | lastItem hs h hs' ih =>
    intro u rest hu
    simp only [List.append_assoc, skipSpace_append hs, h.skipSpace_value] at hu
    obtain ⟨hends, hmark⟩ := mark_behind hs' (Or.inr (Or.inl rfl)) rest
    exact .lastItem (ih _ _ hu hends) hmark
  | @nextItem _ _ _ _ _ more hs h hs' hmore ih ihs =>
    intro u rest hu
    simp only [List.append_assoc, List.cons_append, skipSpace_append hs, h.skipSpace_value] at hu
    obtain ⟨hends, hmark⟩ := mark_behind hs' (Or.inl rfl) (more ++ rest)
    exact .nextItem (ih _ _ hu hends) hmark (ihs _ rest rfl)
  | lastMember hs h hs' ih =>
    intro u rest hu
    simp only [List.append_assoc, skipSpace_append hs, h.skipSpace_member] at hu
    obtain ⟨hends, hmark⟩ := mark_behind hs' (Or.inr (Or.inr rfl)) rest
    obtain ⟨r, hname, hvalue⟩ := ih _ _ hu hends
    exact .lastMember hname hvalue hmark
  | @nextMember _ _ _ _ _ more hs h hs' hmore ih ihs =>
    intro u rest hu
    simp only [List.append_assoc, List.cons_append, skipSpace_append hs, h.skipSpace_member] at hu
    obtain ⟨hends, hmark⟩ := mark_behind hs' (Or.inl rfl) (more ++ rest)
    obtain ⟨r, hname, hvalue⟩ := ih _ _ hu hends
    exact .nextMember hname hvalue hmark (ihs _ rest rfl)

end Skipping

end EditingEngine.Json
