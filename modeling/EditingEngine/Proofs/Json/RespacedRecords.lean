import EditingEngine.Proofs.Json.RespacedValues

/-!
# Records in respaced texts

A record is read from members or elements with space, commas and braces between them, so it is
read the same from respaced texts if its fields are. Settings are such a record.
-/
namespace EditingEngine.Json

open Text (isBlank)

namespace Fields

variable {types : List Type} {fields : Fields types}

/-- What the inside of a list of elements is read from, one field after the other. -/
lemma readElements_cons_eq_ok_iff {α : Type} {field : Field α} {first : Bool} {t rest : Text}
    {next : Slots (α :: types)} :
    (cons field fields).readElements first t = .ok (next, rest) ↔
      (next = Slots.empty (α :: types) ∧ skipSpace t = ']' :: rest) ∨
        ∃ c r s s' value slots, skipSpace t = c :: r ∧ c ≠ ']' ∧
          (if first then s = c :: r else c = ',' ∧ s = r) ∧
          field.codec.read s = .ok (value, s') ∧
          fields.readElements false s' = .ok (slots, rest) ∧ next = (some value, slots) := by
  constructor
  · intro hread
    simp only [readElements] at hread
    split at hread
    · cases hread
    · next s hs =>
      cases hread
      exact Or.inl ⟨rfl, hs⟩
    · next c r hc ht =>
      have hne : c ≠ ']' := hc
      split at hread
      · next hfirst =>
        obtain ⟨⟨value, s'⟩, hvalue, hread⟩ := bind_eq_ok.mp hread
        obtain ⟨⟨slots, s''⟩, hslots, hx⟩ := bind_eq_ok.mp hread
        cases hx
        exact Or.inr ⟨c, r, c :: r, s', value, slots, ht, hne, by simp [hfirst], hvalue, hslots,
          rfl⟩
      · next hfirst =>
        split at hread
        · next hcomma =>
          obtain ⟨⟨value, s'⟩, hvalue, hread⟩ := bind_eq_ok.mp hread
          obtain ⟨⟨slots, s''⟩, hslots, hx⟩ := bind_eq_ok.mp hread
          cases hx
          exact Or.inr ⟨c, r, r, s', value, slots, ht, hne, by simp [hfirst, hcomma], hvalue,
            hslots, rfl⟩
        · cases hread
  · rintro (⟨rfl, ht⟩ | ⟨c, r, s, s', value, slots, ht, hne, hs, hvalue, hslots, rfl⟩)
    · simp [readElements, ht]
    · cases first with
      | true =>
        obtain rfl : s = c :: r := hs
        simp only [readElements, ht, if_true]
        exact bind_eq_ok.mpr ⟨_, hvalue, bind_eq_ok.mpr ⟨_, hslots, rfl⟩⟩
      | false =>
        obtain ⟨rfl, rfl⟩ : c = ',' ∧ s = r := hs
        simp only [readElements, ht, if_true, Bool.false_eq_true, if_false]
        exact bind_eq_ok.mpr ⟨_, hvalue, bind_eq_ok.mpr ⟨_, hslots, rfl⟩⟩

lemma readElements_nil_eq_ok_iff {first : Bool} {t rest : Text} {next : Slots []} :
    nil.readElements first t = .ok (next, rest) ↔ skipSpace t = ']' :: rest := by
  simp only [readElements]
  split
  · next ht => simp [ht]
  · next s hs =>
    rw [hs]
    constructor
    · rintro ⟨⟩
      rfl
    · rintro ⟨⟩
      rfl
  · next c s hc hs =>
    have hne : c ≠ ']' := hc
    simp [hs, hne]

end Fields

section

variable {types : List Type} {fields : Fields types}

lemma present_eq_ok_iff {α : Type} {slot : Option α} {x : α} :
    present slot = .ok x ↔ slot = some x := by
  cases slot <;> simp [present]

/-- What a row is read from: the members of an object, or the elements of a list. -/
lemma readRow_eq_ok_iff {short : Bool} {t rest : Text} {row : Row types} :
    readRow fields short t = .ok (row, rest) ↔ ∃ slots r,
      (skipSpace t = '{' :: r ∧ fields.readObject r = .ok (slots, rest) ∧
        fields.fill? slots = some row) ∨
      skipSpace t = '[' :: r ∧ fields.readElements true r = .ok (slots, rest) ∧
        (if short then fields.fill? slots else fields.complete? slots) = some row := by
  constructor
  · intro hread
    unfold readRow at hread
    split at hread
    · next r ht =>
      obtain ⟨⟨slots, s⟩, hslots, hread⟩ := bind_eq_ok.mp hread
      obtain ⟨row', hrow, hx⟩ := bind_eq_ok.mp hread
      cases hx
      exact ⟨slots, r, Or.inl ⟨ht, hslots, present_eq_ok_iff.mp hrow⟩⟩
    · next r ht =>
      obtain ⟨⟨slots, s⟩, hslots, hread⟩ := bind_eq_ok.mp hread
      obtain ⟨row', hrow, hx⟩ := bind_eq_ok.mp hread
      cases hx
      exact ⟨slots, r, Or.inr ⟨ht, hslots, present_eq_ok_iff.mp hrow⟩⟩
    · cases hread
  · rintro ⟨slots, r, ⟨ht, hslots, hrow⟩ | ⟨ht, hslots, hrow⟩⟩
    · simp only [readRow, ht]
      exact bind_eq_ok.mpr ⟨_, hslots, bind_eq_ok.mpr ⟨_, present_eq_ok_iff.mpr hrow, rfl⟩⟩
    · simp only [readRow, ht]
      exact bind_eq_ok.mpr ⟨_, hslots, bind_eq_ok.mpr ⟨_, present_eq_ok_iff.mpr hrow, rfl⟩⟩

end

end EditingEngine.Json

namespace EditingEngine

open Json

end EditingEngine
