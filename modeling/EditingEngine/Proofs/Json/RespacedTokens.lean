import EditingEngine.Proofs.Json.Consumption
import EditingEngine.Proofs.Json.Respacing

/-!
# Words, numbers and strings in respaced texts

No word and no number has a blank in it, and a string that is read to its end has no line feed.
So each of them stands in both of two respaced texts, and what follows it is respaced again.
-/
namespace EditingEngine.Json

open Text (isBlank)

/-- A reader of a token ends at the same place in both texts, with the same result. -/
def Follows {α : Type} (read : Text → Except Fault (α × Text)) : Prop :=
  ∀ {t u : Text}, Respaced t u → ∀ {x rest}, read t = .ok (x, rest) →
    ∃ rest', read u = .ok (x, rest') ∧ Respaced rest rest'

/-- The same for a token that has no result. -/
def SkipFollows (skip : Text → Except Fault Text) : Prop :=
  ∀ {t u : Text}, Respaced t u → ∀ {rest}, skip t = .ok rest →
    ∃ rest', skip u = .ok rest' ∧ Respaced rest rest'

section

variable {t u : Text}

lemma readWord_follows {word : Text} (hword : word.any isBlank = false) :
    SkipFollows (readWord word) := by
  intro t u h rest hread
  induction word generalizing t u with
  | nil =>
    cases hread
    exact ⟨u, rfl, h⟩
  | cons w word ih =>
    rw [List.any_cons, Bool.or_eq_false_iff] at hword
    cases t with
    | nil => cases hread
    | cons c t =>
      rw [readWord] at hread
      split at hread
      · next hc =>
        subst hc
        obtain ⟨u, rfl, hu⟩ := h.of_cons hword.1
        obtain ⟨rest', hread', hrest⟩ := ih hword.2 hu hread
        exact ⟨rest', by rw [readWord, if_pos rfl, hread'], hrest⟩
      · cases hread

/-- Nothing between the space and the controls behind the ASCII characters is blank. -/
lemma isBlank_of_printable {c : Char} (hlow : 0x20 < c.toNat) (hhigh : c.toNat < 0x85) :
    isBlank c = false := by
  simp only [isBlank, Text.blankRanges, CharRange.contains, List.any_cons, List.any_nil,
    Bool.or_false, Bool.or_eq_false_iff, Bool.and_eq_false_iff, decide_eq_false_iff_not]
  omega

lemma isBlank_of_isDigit {c : Char} (h : c.isDigit = true) : isBlank c = false := by
  have hrange : 48 ≤ c.toNat ∧ c.toNat ≤ 57 := by
    simpa [Char.isDigit, UInt32.le_iff_toNat_le] using h
  exact isBlank_of_printable (by omega) (by omega)

lemma isSpace_of_isDigit {c : Char} (h : c.isDigit = true) : isSpace c = false := by
  refine Bool.eq_false_iff.mpr fun hspace => ?_
  have hblank := isBlank_of_isDigit h
  rw [isBlank_of_isSpace hspace] at hblank
  cases hblank

lemma digits_of_isGap (h : IsGap t) : digitsOf t = [] ∧ afterDigits t = t := by
  cases t with
  | nil => exact ⟨rfl, rfl⟩
  | cons c t =>
    cases hc : c.isDigit with
    | false => simp [digitsOf, afterDigits, hc]
    | true => exact absurd h (not_isGap_cons (isBlank_of_isDigit hc) t)

lemma digits_respaced (h : Respaced t u) :
    digitsOf t = digitsOf u ∧ Respaced (afterDigits t) (afterDigits u) := by
  induction t generalizing u with
  | nil =>
    rcases h.gap_or_cons with ⟨-, hu⟩ | ⟨c, t', u', -, ht, -⟩
    · rw [(digits_of_isGap hu).1, (digits_of_isGap hu).2]
      exact ⟨rfl, h⟩
    · cases ht
  | cons c t ih =>
    rcases h.gap_or_cons with ⟨ht, hu⟩ | ⟨d, t', u', -, ht, rfl, h'⟩
    · rw [(digits_of_isGap ht).1, (digits_of_isGap ht).2, (digits_of_isGap hu).1,
        (digits_of_isGap hu).2]
      exact ⟨rfl, h⟩
    · obtain ⟨rfl, rfl⟩ := List.cons.inj ht
      obtain ⟨hdigits, hafter⟩ := ih h'
      cases hc : c.isDigit with
      | true => simpa [digitsOf, afterDigits, hc] using ⟨hdigits, hafter⟩
      | false => simpa [digitsOf, afterDigits, hc] using h

lemma readDigits_of_isGap (h : IsGap t) : ∀ x, readDigits t ≠ .ok x := by
  intro x hread
  cases t with
  | nil => cases hread
  | cons c t =>
    rw [readDigits] at hread
    split at hread
    · next hc => exact not_isGap_cons (isBlank_of_isDigit hc) t h
    · cases hread

lemma readDigits_follows : Follows readDigits := by
  intro t u h x rest hread
  rcases h.gap_or_cons with ⟨ht, -⟩ | ⟨c, t', u', -, rfl, rfl, -⟩
  · exact absurd hread (readDigits_of_isGap ht _)
  · obtain ⟨hdigits, hafter⟩ := digits_respaced h
    rw [readDigits] at hread
    split at hread
    · next hc =>
      cases hread
      exact ⟨_, by rw [readDigits, if_pos hc, ← hdigits], hafter⟩
    · cases hread

lemma readWhole_of_ne {c : Char} (hc : c ≠ '0') (t : Text) :
    readWhole (c :: t) = readDigits (c :: t) := by
  simp [readWhole, hc]

lemma readWhole_of_isGap (h : IsGap t) : readWhole t = readDigits t := by
  cases t with
  | nil => rfl
  | cons c t => exact readWhole_of_ne (h.ne (by decide)) t

lemma readWhole_follows : Follows readWhole := by
  intro t u h x rest hread
  rcases h.gap_or_cons with ⟨ht, -⟩ | ⟨c, t', u', -, rfl, rfl, h'⟩
  · rw [readWhole_of_isGap ht] at hread
    exact absurd hread (readDigits_of_isGap ht _)
  · by_cases hc : c = '0'
    · subst hc
      simp only [readWhole] at hread ⊢
      rw [← (digits_respaced h').1]
      split at hread
      · next hnone =>
        cases hread
        exact ⟨u', if_pos hnone, h'⟩
      · cases hread
    · rw [readWhole_of_ne hc] at hread ⊢
      exact readDigits_follows h hread

lemma readFraction_of_ne {c : Char} (hc : c ≠ '.') (t : Text) :
    readFraction (c :: t) = .ok ([], c :: t) := by
  simp [readFraction, hc]

lemma readFraction_of_isGap (h : IsGap t) : readFraction t = .ok ([], t) := by
  cases t with
  | nil => rfl
  | cons c t => exact readFraction_of_ne (h.ne (by decide)) t

lemma readFraction_follows : Follows readFraction := by
  intro t u h x rest hread
  rcases h.gap_or_cons with ⟨ht, hu⟩ | ⟨c, t', u', -, rfl, rfl, h'⟩
  · rw [readFraction_of_isGap ht] at hread
    cases hread
    exact ⟨u, readFraction_of_isGap hu, h⟩
  · by_cases hc : c = '.'
    · subst hc
      exact readDigits_follows h' hread
    · rw [readFraction_of_ne hc] at hread
      cases hread
      exact ⟨_, readFraction_of_ne hc u', h⟩

lemma Follows.map {α β : Type} {read : Text → Except Fault (α × Text)} (h : Follows read)
    (f : α → β) : Follows fun t => (read t).map fun r => (f r.1, r.2) := by
  intro t u htu x rest hread
  cases hfirst : read t with
  | error e => simp [hfirst, Except.map] at hread
  | ok r =>
    obtain ⟨y, s⟩ := r
    simp only [hfirst, Except.map, Except.ok.injEq, Prod.mk.injEq] at hread
    obtain ⟨rfl, rfl⟩ := hread
    obtain ⟨rest', hread', hrest⟩ := h htu hfirst
    exact ⟨rest', by simp [hread', Except.map], hrest⟩

/-- Read the sign and the digits of an exponent. -/
def readPower (text : Text) : Except Fault (Option (Bool × Text) × Text) :=
  match text with
  | '-' :: digits => (readDigits digits).map fun r => (some (true, r.1), r.2)
  | '+' :: digits => (readDigits digits).map fun r => (some (false, r.1), r.2)
  | digits => (readDigits digits).map fun r => (some (false, r.1), r.2)

lemma readPower_of_ne {c : Char} (hminus : c ≠ '-') (hplus : c ≠ '+') (t : Text) :
    readPower (c :: t) = (readDigits (c :: t)).map fun r => (some (false, r.1), r.2) := by
  simp [readPower, hminus, hplus]

lemma readPower_of_isGap (h : IsGap t) :
    readPower t = (readDigits t).map fun r => (some (false, r.1), r.2) := by
  cases t with
  | nil => rfl
  | cons c t => exact readPower_of_ne (h.ne (by decide)) (h.ne (by decide)) t

lemma readPower_follows : Follows readPower := by
  intro t u h x rest hread
  rcases h.gap_or_cons with ⟨ht, hu⟩ | ⟨c, t', u', -, rfl, rfl, h'⟩
  · rw [readPower_of_isGap ht] at hread
    rw [readPower_of_isGap hu]
    exact readDigits_follows.map (fun digits => some (false, digits)) h hread
  · by_cases hminus : c = '-'
    · subst hminus
      exact readDigits_follows.map (fun digits => some (true, digits)) h' hread
    · by_cases hplus : c = '+'
      · subst hplus
        exact readDigits_follows.map (fun digits => some (false, digits)) h' hread
      · rw [readPower_of_ne hminus hplus] at hread ⊢
        exact readDigits_follows.map (fun digits => some (false, digits)) h hread

lemma readExponent_cons (c : Char) (t : Text) :
    readExponent (c :: t) = if c == 'e' || c == 'E' then readPower t else .ok (none, c :: t) := rfl

lemma readExponent_of_isGap (h : IsGap t) : readExponent t = .ok (none, t) := by
  cases t with
  | nil => rfl
  | cons c t =>
    have hlower : c ≠ 'e' := h.ne (by decide)
    have hupper : c ≠ 'E' := h.ne (by decide)
    simp [readExponent_cons, hlower, hupper]

lemma readExponent_follows : Follows readExponent := by
  intro t u h x rest hread
  rcases h.gap_or_cons with ⟨ht, hu⟩ | ⟨c, t', u', -, rfl, rfl, h'⟩
  · rw [readExponent_of_isGap ht] at hread
    cases hread
    exact ⟨u, readExponent_of_isGap hu, h⟩
  · rw [readExponent_cons] at hread ⊢
    split at hread
    · next hmark =>
      rw [if_pos hmark]
      exact readPower_follows h' hread
    · next hmark =>
      cases hread
      exact ⟨_, if_neg hmark, h⟩

lemma readSign_respaced (h : Respaced t u) :
    (readSign u).1 = (readSign t).1 ∧ Respaced (readSign t).2 (readSign u).2 := by
  have hother : ∀ {c : Char} (r : Text), c ≠ '-' → readSign (c :: r) = (false, c :: r) := by
    intro c r hc
    simp [readSign, hc]
  have hgap : ∀ {r : Text}, IsGap r → readSign r = (false, r) := by
    intro r hr
    cases r with
    | nil => rfl
    | cons c r => exact hother r (hr.ne (by decide))
  rcases h.gap_or_cons with ⟨ht, hu⟩ | ⟨c, t', u', -, rfl, rfl, h'⟩
  · rw [hgap ht, hgap hu]
    exact ⟨rfl, h⟩
  · by_cases hc : c = '-'
    · subst hc
      exact ⟨rfl, h'⟩
    · rw [hother t' hc, hother u' hc]
      exact ⟨rfl, h⟩

lemma readNumeral_follows : Follows readNumeral := by
  intro t u h x rest hread
  obtain ⟨hsign, h₀⟩ := readSign_respaced h
  simp only [readNumeral, bind_eq_ok] at hread
  obtain ⟨⟨whole, t₁⟩, hwhole, ⟨fraction, t₂⟩, hfraction, ⟨exponent, t₃⟩, hexponent, hx⟩ := hread
  obtain ⟨u₁, hwhole', h₁⟩ := readWhole_follows h₀ hwhole
  obtain ⟨u₂, hfraction', h₂⟩ := readFraction_follows h₁ hfraction
  obtain ⟨u₃, hexponent', h₃⟩ := readExponent_follows h₂ hexponent
  cases hx
  refine ⟨u₃, ?_, h₃⟩
  simp [readNumeral, hsign, hwhole', hfraction', hexponent', bind, Except.bind, pure, Except.pure]

lemma skipNumber_follows : SkipFollows skipNumber := by
  intro t u h rest hread
  unfold skipNumber at hread
  split at hread
  · next x r hnumeral =>
    cases hread
    obtain ⟨rest', hnumeral', hrest⟩ := readNumeral_follows h hnumeral
    exact ⟨rest', by rw [skipNumber, hnumeral'], hrest⟩
  · cases hread

/-- Where the first text goes on, the second one does so too, unless an edge starts here. -/
lemma Respaced.edge_or_cons {c : Char} {t u : Text} (h : Respaced (c :: t) u) :
    (∃ a t', c :: t = a ++ t' ∧ (∀ d ∈ a, isBlank d = true) ∧ ('\n' ∈ a ∨ t' = [])) ∨
      ∃ u', u = c :: u' ∧ Respaced t u' := by
  generalize hct : c :: t = ct at h
  cases h with
  | stop ha hb => exact Or.inl ⟨ct, [], by simp, ha, Or.inr rfl⟩
  | @edge a b t' u' ha hfeed hb hne h => exact Or.inl ⟨a, t', rfl, ha, Or.inl hfeed⟩
  | cons d h =>
    obtain ⟨rfl, rfl⟩ := List.cons.inj hct
    exact Or.inr ⟨_, rfl, h⟩

lemma ne_of_isBlank {c d : Char} (hc : isBlank c = true) (hd : isBlank d = false) : c ≠ d := by
  rintro rfl
  rw [hc] at hd
  cases hd

lemma readChars_cons {c : Char} (hq : c ≠ '"') (hb : c ≠ '\\') (t : Text) :
    readChars (c :: t) = if isControl c then .error .malformed else consChar c (readChars t) := by
  rw [readChars]
  all_goals simp_all

lemma readChars_escape {c : Char} (hc : c ≠ 'u') (t : Text) :
    readChars ('\\' :: c :: t) = match escaped? c with
      | some d => consChar d (readChars t)
      | none => .error .malformed := by
  cases hd : escaped? c with
  | none =>
    rw [readChars, hd]
    all_goals simp_all
  | some d =>
    rw [readChars, hd]
    all_goals simp_all

/-- No string goes on over the end of a line. This needs of the reader that it takes blanks one by
one, and neither a line feed nor the end of the text. -/
lemma refuses_edge {α : Type} {read : Text → Except Fault α} (hnil : ∀ x, read [] ≠ .ok x)
    (hblank : ∀ {c t x}, isBlank c = true → read (c :: t) = .ok x → c ≠ '\n' ∧ ∃ y, read t = .ok y)
    {a t : Text} (ha : ∀ c ∈ a, isBlank c = true) (hedge : '\n' ∈ a ∨ t = []) :
    ∀ x, read (a ++ t) ≠ .ok x := by
  induction a with
  | nil =>
    obtain rfl : t = [] := by simpa using hedge
    exact hnil
  | cons c a ih =>
    rw [List.forall_mem_cons] at ha
    intro x hread
    obtain ⟨hc, y, hrest⟩ := hblank ha.1 hread
    exact ih ha.2 (by simpa [Ne.symm hc] using hedge) y hrest

lemma isBlank_of_hexValue? {c : Char} {n : Nat} (h : hexValue? c = some n) :
    isBlank c = false := by
  have hrange : ∀ {first last : Char}, 0x20 < first.toNat → last.toNat < 0x85 →
      first ≤ c ∧ c ≤ last → isBlank c = false := by
    intro first last hlow hhigh ⟨hfirst, hlast⟩
    rw [Char.le_def, UInt32.le_iff_toNat_le] at hfirst hlast
    exact isBlank_of_printable (Nat.lt_of_lt_of_le hlow hfirst) (Nat.lt_of_le_of_lt hlast hhigh)
  unfold hexValue? at h
  split at h
  · next hc => exact hrange (by decide) (by decide) hc
  · split at h
    · next hc => exact hrange (by decide) (by decide) hc
    · split at h
      · next hc => exact hrange (by decide) (by decide) hc
      · cases h

lemma isBlank_of_unitOf? {a b c d : Char} {n : Nat} (h : unitOf? a b c d = some n) :
    ∀ e ∈ ['\\', 'u', a, b, c, d], isBlank e = false := by
  simp only [unitOf?, Option.bind_eq_bind, Option.bind_eq_some_iff] at h
  obtain ⟨_, ha, _, hb, _, hc, _, hd, -⟩ := h
  simp [isBlank_of_hexValue? ha, isBlank_of_hexValue? hb, isBlank_of_hexValue? hc,
    isBlank_of_hexValue? hd]
  decide

lemma isBlank_of_escaped? {c d : Char} (h : escaped? c = some d) : isBlank c = false := by
  unfold escaped? at h
  split at h
  all_goals first | decide | cases h

lemma skipChars_cons {c : Char} (hq : c ≠ '"') (hb : c ≠ '\\') (t : Text) :
    skipChars (c :: t) = if isControl c then .error .malformed else skipChars t := by
  rw [skipChars]
  all_goals simp_all

lemma skipChars_escape {c : Char} (hc : c ≠ 'u') (t : Text) :
    skipChars ('\\' :: c :: t) = match escaped? c with
      | some _ => skipChars t
      | none => .error .malformed := by
  cases hd : escaped? c with
  | none =>
    rw [skipChars, hd]
    all_goals simp_all
  | some d =>
    rw [skipChars, hd]
    all_goals simp_all

lemma skipChars_edge {a t : Text} (ha : ∀ c ∈ a, isBlank c = true) (hedge : '\n' ∈ a ∨ t = []) :
    ∀ rest, skipChars (a ++ t) ≠ .ok rest := by
  refine refuses_edge (fun _ h => by cases h) ?_ ha hedge
  intro c t rest hc hread
  rw [skipChars_cons (ne_of_isBlank hc (by decide)) (ne_of_isBlank hc (by decide))] at hread
  split at hread
  · cases hread
  · next hcontrol => exact ⟨by rintro rfl; exact hcontrol rfl, _, hread⟩

lemma skipChars_follows : SkipFollows skipChars := by
  intro t
  fun_induction skipChars t
  all_goals intro u h rest hread
  all_goals try (cases hread; done)
  case case2 t =>
    cases hread
    obtain ⟨u, rfl, hu⟩ := h.of_cons (by decide)
    exact ⟨u, rfl, hu⟩
  case case5 a b c d t unit hunit ih =>
    obtain ⟨u, rfl, hu⟩ := h.of_append (s := ['\\', 'u', a, b, c, d]) (isBlank_of_unitOf? hunit)
    obtain ⟨rest', hread', hrest⟩ := ih hu hread
    exact ⟨rest', by simp [skipChars, hunit, hread'], hrest⟩
  case case7 letter t _ hletter c hc ih =>
    obtain ⟨u, rfl, hu⟩ := h.of_append (s := ['\\', letter])
      (by simpa [isBlank_of_escaped? hc] using by decide)
    obtain ⟨rest', hread', hrest⟩ := ih hu hread
    refine ⟨rest', ?_, hrest⟩
    rw [List.cons_append, List.cons_append, List.nil_append, skipChars_escape hletter, hc]
    exact hread'
  case case10 c t hquote hend _ _ hescape hcontrol ih =>
    have hslash : c ≠ '\\' := by
      rintro rfl
      cases t with
      | nil => exact hend rfl rfl
      | cons d t => exact hescape d t rfl rfl
    rcases h.edge_or_cons with ⟨a, t', ht, ha, hedge⟩ | ⟨u, rfl, hu⟩
    · have hwhole : skipChars (c :: t) = .ok rest := by
        rw [skipChars_cons hquote hslash, if_neg hcontrol, hread]
      rw [ht] at hwhole
      exact absurd hwhole (skipChars_edge ha hedge _)
    · obtain ⟨rest', hread', hrest⟩ := ih hu hread
      refine ⟨rest', ?_, hrest⟩
      rw [skipChars_cons hquote hslash, if_neg hcontrol, hread']

end

end EditingEngine.Json
