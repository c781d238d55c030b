import EditingEngine.Proofs.Json.RespacedTokens

/-!
# Numbers and strings as they are written

A count is written as its digits, without a zero in front, and a string with an escape for every
character that cannot stand in it by itself. Reading undoes both. The digits of a number have no
end of their own, so nothing may follow them that would go on with the number.
-/
namespace EditingEngine.Json

/-- What stands here does not go on with a number in front of it. -/
def EndsNumber (rest : Text) : Prop :=
  ∀ c ∈ rest.head?, c.isDigit = false ∧ c ≠ '.' ∧ c ≠ 'e' ∧ c ≠ 'E'

lemma endsNumber_nil : EndsNumber [] := by simp [EndsNumber]

lemma endsNumber_cons {c : Char} (rest : Text)
    (hc : c.isDigit = false ∧ c ≠ '.' ∧ c ≠ 'e' ∧ c ≠ 'E') : EndsNumber (c :: rest) := by
  simpa [EndsNumber] using hc

/-- What stands here does not go on with digits in front of it. -/
def EndsDigits (rest : Text) : Prop := ∀ c ∈ rest.head?, c.isDigit = false

lemma EndsNumber.endsDigits {rest : Text} (h : EndsNumber rest) : EndsDigits rest :=
  fun c hc => (h c hc).1

section Digits

variable {digits rest : Text} (hdigits : ∀ c ∈ digits, c.isDigit = true) (hrest : EndsDigits rest)
include hdigits hrest

lemma digits_append :
    digitsOf (digits ++ rest) = digits ∧ afterDigits (digits ++ rest) = rest := by
  have hstop : digitsOf rest = [] ∧ afterDigits rest = rest := by
    cases rest with
    | nil => exact ⟨rfl, rfl⟩
    | cons c rest =>
      have hc : c.isDigit = false := hrest c rfl
      simp [digitsOf, afterDigits, hc]
  constructor
  · calc
      digitsOf (digits ++ rest)
      _ = digits ++ digitsOf rest := List.takeWhile_append_of_pos hdigits
      _ = digits := by rw [hstop.1, List.append_nil]
  · calc
      afterDigits (digits ++ rest)
      _ = afterDigits rest := List.dropWhile_append_of_pos hdigits
      _ = rest := hstop.2

/-- Digits are read to their end if there are any. -/
lemma readDigits_append (hne : digits ≠ []) : readDigits (digits ++ rest) = .ok (digits, rest) := by
  obtain ⟨c, more, rfl⟩ := List.exists_cons_of_ne_nil hne
  have hdigit : c.isDigit = true := hdigits c List.mem_cons_self
  obtain ⟨hof, hafter⟩ := digits_append hdigits hrest
  rw [List.cons_append] at hof hafter ⊢
  rw [readDigits, if_pos hdigit, hof, hafter]

/-- In front of a point they must not go on behind a zero. -/
lemma readWhole_digits (hne : digits ≠ []) (hzero : digits.head? = some '0' → digits = ['0']) :
    readWhole (digits ++ rest) = .ok (digits, rest) := by
  have hread := readDigits_append hdigits hrest hne
  obtain ⟨c, more, rfl⟩ := List.exists_cons_of_ne_nil hne
  by_cases hc : c = '0'
  · subst hc
    obtain rfl : more = [] := by simpa using hzero rfl
    have hempty : ∀ c ∈ ([] : Text), c.isDigit = true := by simp
    have hnone : digitsOf rest = [] := (digits_append hempty hrest).1
    simp [readWhole, hnone]
  · rw [List.cons_append] at hread ⊢
    rw [readWhole_of_ne hc, hread]

end Digits

section Counts

variable {digits rest : Text} (hrest : EndsNumber rest)

include hrest in
lemma readFraction_of_endsNumber : readFraction rest = .ok ([], rest) := by
  cases rest with
  | nil => rfl
  | cons c rest => exact readFraction_of_ne (hrest c rfl).2.1 rest

include hrest in
lemma readExponent_of_endsNumber : readExponent rest = .ok (none, rest) := by
  cases rest with
  | nil => rfl
  | cons c rest =>
    obtain ⟨-, -, hlower, hupper⟩ := hrest c rfl
    simp [readExponent_cons, hlower, hupper]

/-- Digits that form a count are absorbed to the last one. -/
lemma absorb_digits {n : Nat} (hn : Nat.ofDigitChars 10 digits n ≤ maxCount) :
    Numeral.absorb n digits = (Nat.ofDigitChars 10 digits n, 0) := by
  have hgrows : ∀ (more : Text) (m : Nat), m ≤ Nat.ofDigitChars 10 more m := by
    intro more
    induction more with
    | nil => exact fun m => Nat.le_refl m
    | cons c more ih =>
      intro m
      rw [Nat.ofDigitChars_cons]
      have hle := ih (10 * m + (c.toNat - '0'.toNat))
      omega
  induction digits generalizing n with
  | nil => rfl
  | cons c more ih =>
    rw [Nat.ofDigitChars_cons, Nat.mul_comm 10 n] at hn ⊢
    have hsmall : n * 10 + digitValue c ≤ maxCount := Nat.le_trans (hgrows more _) hn
    rw [Numeral.absorb, if_pos hsmall]
    exact ih hn

/-- Only the digits of zero begin with a zero. -/
lemma head?_writeCount {n : Nat} (hn : n ≠ 0) : (writeCount n).head? ≠ some '0' := by
  induction n using Nat.strongRecOn with
  | ind n ih =>
    rw [writeCount, Nat.toDigits_eq_if (by decide)]
    split
    · next hlt =>
      have hdigit : ∀ m < 10, m ≠ 0 → Nat.digitChar m ≠ '0' := by decide
      simpa using hdigit n hlt hn
    · next hge =>
      have htens : (writeCount (n / 10)).head? ≠ some '0' := ih (n / 10) (by omega) (by omega)
      have hne : writeCount (n / 10) ≠ [] := List.ne_nil_of_length_pos Nat.length_toDigits_pos
      rwa [← writeCount, List.head?_append, Option.or_of_isSome (by simpa using hne)]

/-- A count is read back as it was written. -/
theorem readNumber_writeCount {n : Nat} (hn : n ≤ maxCount) (hrest : EndsNumber rest) :
    readNumber (writeCount n ++ rest) = .ok (⟨false, writeCount n, [], none⟩, rest) := by
  have hdigits : ∀ c ∈ writeCount n, c.isDigit = true := fun c hc =>
    Nat.isDigit_of_mem_toDigits (by decide) (by decide) hc
  have hne : writeCount n ≠ [] := List.ne_nil_of_length_pos Nat.length_toDigits_pos
  have hzero : (writeCount n).head? = some '0' → writeCount n = ['0'] := by
    intro hhead
    by_cases hn : n = 0
    · subst hn
      rfl
    · exact absurd hhead (head?_writeCount hn)
  have hsign : readSign (writeCount n ++ rest) = (false, writeCount n ++ rest) := by
    obtain ⟨c, more, hwritten⟩ := List.exists_cons_of_ne_nil hne
    have hc : c ≠ '-' := by
      rintro rfl
      exact absurd (hdigits '-' (by simp [hwritten])) (by decide)
    rw [hwritten, List.cons_append]
    simp [readSign, hc]
  have hvalue : Nat.ofDigitChars 10 (writeCount n) 0 = n :=
    Nat.ofDigitChars_toDigits (by decide) (by decide)
  have hsize : Numeral.scientific ⟨false, writeCount n, [], none⟩ = (n, 0) := by
    have hwhole : Numeral.absorb 0 (writeCount n) = _ := absorb_digits (by rwa [hvalue])
    simp [Numeral.scientific, hwhole, hvalue, Numeral.absorb]
  have hnumeral : readNumeral (writeCount n ++ rest) =
      .ok (⟨false, writeCount n, [], none⟩, rest) := by
    simp [readNumeral, hsign, readWhole_digits hdigits hrest.endsDigits hne hzero,
      readFraction_of_endsNumber hrest, readExponent_of_endsNumber hrest, bind, Except.bind, pure,
      Except.pure]
  simp [readNumber, hnumeral, hsize, overflows, bind, Except.bind]

end Counts

/-- The two digits of a control character. -/
lemma unitOf?_control {c : Char} (hc : isControl c = true) :
    unitOf? '0' '0' (hexDigit (c.toNat / 16)) (hexDigit (c.toNat % 16)) = some c.toNat := by
  have hall : ∀ n < 0x20, unitOf? '0' '0' (hexDigit (n / 16)) (hexDigit (n % 16)) = some n := by
    decide
  exact hall c.toNat (by simpa [isControl] using hc)

/-- What is written for a character is read as this character. -/
lemma readChars_writeChar (c : Char) (rest : Text) :
    readChars (writeChar c ++ rest) = consChar c (readChars rest) := by
  have hescape : ∀ {letter d : Char}, letter ≠ 'u' → escaped? letter = some d →
      readChars ('\\' :: letter :: rest) = consChar d (readChars rest) := by
    intro letter d hletter hd
    rw [readChars_escape hletter, hd]
  fun_cases writeChar c with
  | case1 h | case2 _ h | case3 _ _ h | case4 _ _ _ h | case5 _ _ _ _ h | case6 _ _ _ _ _ h
  | case7 _ _ _ _ _ _ h =>
    subst h
    exact hescape (by decide) rfl
  | case8 _ _ _ _ _ _ _ hcontrol =>
    have hunit := unitOf?_control hcontrol
    have hlow : c.toNat < 0x20 := by simpa [isControl] using hcontrol
    have htrail : isTrailing c.toNat = false := by simp [isTrailing]; omega
    have hlead : isLeading c.toNat = false := by simp [isLeading]; omega
    simp [readChars, hunit, htrail, hlead]
  | case9 hquote hslash _ _ _ _ _ hcontrol =>
    rw [List.cons_append, List.nil_append, readChars_cons hquote hslash, if_neg hcontrol]

/-- The characters of a string are read back up to the closing quote. -/
theorem readChars_flatMap_writeChar (text rest : Text) :
    readChars (text.flatMap writeChar ++ '"' :: rest) = .ok (text, rest) := by
  induction text with
  | nil => rfl
  | cons c text ih =>
    rw [List.flatMap_cons, List.append_assoc, readChars_writeChar, ih]
    rfl

end EditingEngine.Json
