import EditingEngine.Json.Record
import Mathlib.Tactic.Lemma

/-!
# Readers take characters off the front

A value has at least one character, so a reader that returns a value leaves less text than it
was given. This is what makes the bounds on the steps of readers large enough: with the steps
that the length of a text allows, a reader reads whatever it reads with any number of steps.
-/
namespace EditingEngine.Json

lemma bind_eq_ok {ε α β : Type} {x : Except ε α} {f : α → Except ε β} {y : β} :
    x >>= f = .ok y ↔ ∃ a, x = .ok a ∧ f a = .ok y := by
  cases x with
  | error e => exact ⟨nofun, nofun⟩
  | ok a => exact ⟨fun h => ⟨a, rfl, h⟩, fun ⟨_, h, hy⟩ => by cases h; exact hy⟩

lemma length_skipSpace_le (t : Text) : (skipSpace t).length ≤ t.length :=
  (List.dropWhile_suffix isSpace).length_le

lemma length_lt_of_skipSpace {t r : Text} {c : Char} (h : skipSpace t = c :: r) :
    r.length < t.length := by
  have hle := length_skipSpace_le t
  rw [h, List.length_cons] at hle
  omega

section tokens

variable {t rest : Text}

lemma length_le_of_readWord {word : Text} (h : readWord word t = .ok rest) :
    rest.length ≤ t.length := by
  induction word generalizing t with
  | nil =>
    cases h
    exact Nat.le_refl _
  | cons w word ih =>
    cases t with
    | nil => cases h
    | cons c t =>
      rw [readWord] at h
      split at h
      · have hle := ih h
        rw [List.length_cons]
        omega
      · cases h

lemma length_lt_of_readColon (h : readColon t = .ok rest) : rest.length < t.length := by
  unfold readColon at h
  split at h
  · cases h
  · next hskip =>
    cases h
    exact length_lt_of_skipSpace hskip
  · cases h

lemma length_lt_of_readDigits {x : Text} (h : readDigits t = .ok (x, rest)) :
    rest.length < t.length := by
  cases t with
  | nil => cases h
  | cons c t =>
    rw [readDigits] at h
    split at h
    · next hc =>
      cases h
      have hle := (List.dropWhile_suffix Char.isDigit (l := t)).length_le
      simp only [afterDigits, List.dropWhile_cons, if_pos hc, List.length_cons]
      omega
    · cases h

lemma length_lt_of_readWhole {x : Text} (h : readWhole t = .ok (x, rest)) :
    rest.length < t.length := by
  unfold readWhole at h
  split at h
  · split at h
    · cases h
      exact Nat.lt_succ_self _
    · cases h
  · exact length_lt_of_readDigits h

lemma length_le_of_readFraction {x : Text} (h : readFraction t = .ok (x, rest)) :
    rest.length ≤ t.length := by
  unfold readFraction at h
  split at h
  · have hlt := length_lt_of_readDigits h
    rw [List.length_cons]
    omega
  · cases h
    exact Nat.le_refl _

lemma map_eq_ok {α β : Type} {x : Except Fault α} {f : α → β} {y : β} :
    x.map f = .ok y ↔ ∃ a, x = .ok a ∧ f a = y := by
  cases x <;> simp [Except.map]

lemma length_le_of_readExponent {x : Option (Bool × Text)} (h : readExponent t = .ok (x, rest)) :
    rest.length ≤ t.length := by
  have hdigits : ∀ {minus : Bool} {r : Text},
      ((readDigits r).map fun r => (some (minus, r.1), r.2)) = .ok (x, rest) →
        rest.length < r.length := by
    intro minus r hr
    obtain ⟨⟨digits, s⟩, hread, hx⟩ := map_eq_ok.mp hr
    cases hx
    exact length_lt_of_readDigits hread
  unfold readExponent at h
  split at h
  · split at h
    · split at h
      all_goals
        have hlt := hdigits h
        simp only [List.length_cons] at hlt ⊢
        omega
    · cases h
      exact Nat.le_refl _
  · cases h
    exact Nat.le_refl _

lemma length_readSign_le (t : Text) : (readSign t).2.length ≤ t.length := by
  unfold readSign
  split <;> simp

lemma length_lt_of_readNumeral {x : Numeral} (h : readNumeral t = .ok (x, rest)) :
    rest.length < t.length := by
  simp only [readNumeral, bind_eq_ok] at h
  obtain ⟨⟨whole, t₁⟩, hwhole, ⟨fraction, t₂⟩, hfraction, ⟨exponent, t₃⟩, hexponent, hx⟩ := h
  have h₀ := length_readSign_le t
  have h₁ := length_lt_of_readWhole hwhole
  have h₂ := length_le_of_readFraction hfraction
  have h₃ := length_le_of_readExponent hexponent
  cases hx
  simp only at h₂ h₃ ⊢
  omega

lemma length_lt_of_skipNumber (h : skipNumber t = .ok rest) : rest.length < t.length := by
  unfold skipNumber at h
  split at h
  · next hnumeral =>
    cases h
    exact length_lt_of_readNumeral hnumeral
  · cases h

lemma length_lt_of_skipChars (h : skipChars t = .ok rest) : rest.length < t.length := by
  fun_induction skipChars t with
  | case2 t =>
    cases h
    exact Nat.lt_succ_self _
  | case5 _ _ _ _ _ _ _ ih | case7 _ _ _ _ _ _ ih | case10 _ _ _ _ _ _ _ _ ih =>
    have hlt := ih h
    simp only [List.length_cons]
    omega
  | _ => cases h

lemma length_lt_of_skipName (h : skipName t = .ok rest) : rest.length < t.length := by
  unfold skipName at h
  split at h
  · cases h
  · next hskip =>
    obtain ⟨r, hchars, hcolon⟩ := bind_eq_ok.mp h
    have h₁ := length_lt_of_skipSpace hskip
    have h₂ := length_lt_of_skipChars hchars
    have h₃ := length_lt_of_readColon hcolon
    omega
  · cases h

end tokens

/-- What is skipped: a value, items with the bracket behind them, or members with their brace. -/
inductive Part where
  | value
  | items
  | members

/-- Skip a part of a text in so many steps. -/
def skipWithin (steps : Nat) : Part → Text → Except Fault Text
  | .value => skipValueWithin steps
  | .items => skipItemsWithin steps
  | .members => skipMembersWithin steps

/-- Skip a value that is neither a list nor an object, given its first character. -/
def skipScalar (c : Char) (rest : Text) : Except Fault Text :=
  match c with
  | 'n' => readWord ['u', 'l', 'l'] rest
  | 't' => readWord ['r', 'u', 'e'] rest
  | 'f' => readWord ['a', 'l', 's', 'e'] rest
  | '"' => skipChars rest
  | c => if c == '-' || c.isDigit then skipNumber (c :: rest) else .error .malformed

/-- The second text is what is left when a part of a text is skipped. -/
inductive Skips : Part → Text → Text → Prop where
  | scalar {c t r rest} (ht : skipSpace t = c :: r) (hlist : c ≠ '[') (hobject : c ≠ '{')
      (h : skipScalar c r = .ok rest) : Skips .value t rest
  | emptyList {t r rest} (ht : skipSpace t = '[' :: r) (hr : skipSpace r = ']' :: rest) :
      Skips .value t rest
  | list {t r rest} (ht : skipSpace t = '[' :: r) (hr : ∀ s, skipSpace r ≠ ']' :: s)
      (h : Skips .items (skipSpace r) rest) : Skips .value t rest
  | emptyObject {t r rest} (ht : skipSpace t = '{' :: r) (hr : skipSpace r = '}' :: rest) :
      Skips .value t rest
  | object {t r rest} (ht : skipSpace t = '{' :: r) (hr : ∀ s, skipSpace r ≠ '}' :: s)
      (h : Skips .members (skipSpace r) rest) : Skips .value t rest
  | lastItem {t r rest} (h : Skips .value t r) (hr : skipSpace r = ']' :: rest) :
      Skips .items t rest
  | nextItem {t r s rest} (h : Skips .value t r) (hr : skipSpace r = ',' :: s)
      (hs : Skips .items s rest) : Skips .items t rest
  | lastMember {t v r rest} (hname : skipName t = .ok v) (h : Skips .value v r)
      (hr : skipSpace r = '}' :: rest) : Skips .members t rest
  | nextMember {t v r s rest} (hname : skipName t = .ok v) (h : Skips .value v r)
      (hr : skipSpace r = ',' :: s) (hs : Skips .members s rest) : Skips .members t rest

lemma skips_of_skipWithin {steps : Nat} (part : Part) {t rest : Text}
    (h : skipWithin steps part t = .ok rest) : Skips part t rest := by
  induction steps generalizing part t rest with
  | zero => cases part <;> cases h
  | succ steps ih =>
    cases part with
    | value =>
      simp only [skipWithin, skipValueWithin] at h
      split at h
      · cases h
      · next r hr => exact .scalar hr (by decide) (by decide) h
      · next r hr => exact .scalar hr (by decide) (by decide) h
      · next r hr => exact .scalar hr (by decide) (by decide) h
      · next r hr => exact .scalar hr (by decide) (by decide) h
      · next r hr =>
        split at h
        · next s hs =>
          cases h
          exact .emptyList hr hs
        · next hs => exact .list hr hs (ih .items h)
      · next r hr =>
        split at h
        · next s hs =>
          cases h
          exact .emptyObject hr hs
        · next hs => exact .object hr hs (ih .members h)
      · next c r hn ht hf hquote hlist hobject hr =>
        refine .scalar hr hlist hobject ?_
        rw [skipScalar]
        · exact h
        all_goals assumption
    | items =>
      simp only [skipWithin, skipItemsWithin, bind_eq_ok] at h
      obtain ⟨r, hvalue, h⟩ := h
      have hr : Skips .value t r := ih .value hvalue
      split at h
      · cases h
      · next s hs => exact .nextItem hr hs (ih .items h)
      · next s hs =>
        cases h
        exact .lastItem hr hs
      · cases h
    | members =>
      simp only [skipWithin, skipMembersWithin, bind_eq_ok] at h
      obtain ⟨v, hname, r, hvalue, h⟩ := h
      have hr : Skips .value v r := ih .value hvalue
      split at h
      · cases h
      · next s hs => exact .nextMember hname hr hs (ih .members h)
      · next s hs =>
        cases h
        exact .lastMember hname hr hs
      · cases h

lemma length_lt_of_skipScalar {c : Char} {r rest : Text} (h : skipScalar c r = .ok rest) :
    rest.length < r.length + 1 := by
  unfold skipScalar at h
  split at h
  · exact Nat.lt_succ_of_le (length_le_of_readWord h)
  · exact Nat.lt_succ_of_le (length_le_of_readWord h)
  · exact Nat.lt_succ_of_le (length_le_of_readWord h)
  · exact Nat.lt_succ_of_lt (length_lt_of_skipChars h)
  · split at h
    · exact length_lt_of_skipNumber h
    · cases h

namespace Skips

variable {part : Part} {t rest : Text}

lemma length_lt (h : Skips part t rest) : rest.length < t.length := by
  induction h with
  | @scalar c t r rest ht _ _ h =>
    have hr := length_skipSpace_le t
    have hrest := length_lt_of_skipScalar h
    rw [ht, List.length_cons] at hr
    omega
  | emptyList ht hr | emptyObject ht hr =>
    have h₁ := length_lt_of_skipSpace ht
    have h₂ := length_lt_of_skipSpace hr
    omega
  | @list t r rest ht _ _ ih | @object t r rest ht _ _ ih =>
    have h₁ := length_lt_of_skipSpace ht
    have h₂ := length_skipSpace_le r
    omega
  | lastItem _ hr ih =>
    have h₁ := length_lt_of_skipSpace hr
    omega
  | nextItem _ hr _ ih ihs =>
    have h₁ := length_lt_of_skipSpace hr
    omega
  | lastMember hname _ hr ih =>
    have h₁ := length_lt_of_skipName hname
    have h₂ := length_lt_of_skipSpace hr
    omega
  | nextMember hname _ hr _ ih ihs =>
    have h₁ := length_lt_of_skipName hname
    have h₂ := length_lt_of_skipSpace hr
    omega

/-- The steps that are enough to skip a part. -/
def enough : Part → Text → Nat
  | .value, t => 2 * t.length
  | .items, t | .members, t => 2 * t.length + 1

lemma skipValueWithin_scalar {c : Char} {r : Text} (ht : skipSpace t = c :: r) (hlist : c ≠ '[')
    (hobject : c ≠ '{') (steps : Nat) : skipValueWithin (steps + 1) t = skipScalar c r := by
  rw [skipValueWithin, ht]
  unfold skipScalar
  split <;> simp_all

/-- Every second step takes a character. -/
lemma skipWithin_of_enough (h : Skips part t rest) {steps : Nat} (hsteps : enough part t ≤ steps) :
    skipWithin steps part t = .ok rest := by
  induction steps generalizing part t rest with
  | zero =>
    have hlt := h.length_lt
    cases part <;> simp only [enough] at hsteps <;> omega
  | succ steps ih =>
    cases h with
    | scalar ht hlist hobject h => exact (skipValueWithin_scalar ht hlist hobject steps).trans h
    | emptyList ht hr => simp [skipWithin, skipValueWithin, ht, hr]
    | emptyObject ht hr => simp [skipWithin, skipValueWithin, ht, hr]
    | @list _ r _ ht hr h =>
      have h₁ := length_lt_of_skipSpace ht
      have h₂ := length_skipSpace_le r
      have hitems := ih h (by simp only [enough] at hsteps ⊢; omega)
      simp only [skipWithin, skipValueWithin, ht]
      exact hitems
    | @object _ r _ ht hr h =>
      have h₁ := length_lt_of_skipSpace ht
      have h₂ := length_skipSpace_le r
      have hmembers := ih h (by simp only [enough] at hsteps ⊢; omega)
      simp only [skipWithin, skipValueWithin, ht]
      exact hmembers
    | lastItem h hr =>
      have hvalue := ih h (by simp only [enough] at hsteps ⊢; omega)
      simp only [skipWithin] at hvalue
      simp [skipWithin, skipItemsWithin, hvalue, hr, bind, Except.bind]
    | nextItem h hr hs =>
      have h₁ := h.length_lt
      have h₂ := length_lt_of_skipSpace hr
      have hvalue := ih h (by simp only [enough] at hsteps ⊢; omega)
      have hitems := ih hs (by simp only [enough] at hsteps ⊢; omega)
      simp only [skipWithin] at hvalue hitems
      simp [skipWithin, skipItemsWithin, hvalue, hr, hitems, bind, Except.bind]
    | lastMember hname h hr =>
      have h₁ := length_lt_of_skipName hname
      have hvalue := ih h (by simp only [enough] at hsteps ⊢; omega)
      simp only [skipWithin] at hvalue
      simp [skipWithin, skipMembersWithin, hname, hvalue, hr, bind, Except.bind]
    | nextMember hname h hr hs =>
      have h₁ := length_lt_of_skipName hname
      have h₂ := h.length_lt
      have h₃ := length_lt_of_skipSpace hr
      have hvalue := ih h (by simp only [enough] at hsteps ⊢; omega)
      have hmembers := ih hs (by simp only [enough] at hsteps ⊢; omega)
      simp only [skipWithin] at hvalue hmembers
      simp [skipWithin, skipMembersWithin, hname, hvalue, hr, hmembers, bind, Except.bind]

lemma skipValue_eq_ok_iff : skipValue t = .ok rest ↔ Skips .value t rest := by
  constructor
  · exact skips_of_skipWithin .value
  · exact fun h => h.skipWithin_of_enough (Nat.le_add_right _ _)

end Skips

end EditingEngine.Json
