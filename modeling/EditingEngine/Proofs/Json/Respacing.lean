import EditingEngine.Json.Skip
import EditingEngine.Text.Blank
import Mathlib.Tactic.Lemma

/-!
# Texts that differ in the blanks around their line feeds

Blanks around a line feed stand between the parts of a JSON text, never inside a string, a
number or a word. So readers get the same from two texts that have space of any length there.
Here two such texts are followed from the same place on, as far as a reader of the first one
gets: it ends at the same place in the second one, with the same result. Of the first text this
asks only that it has blanks where the second one has space. Blanks that are no space of JSON
end the reading of the first one.
-/
namespace EditingEngine.Json

open Text (isBlank)

/-- The second text has space where the first one has blanks around line feeds or blanks at its
end. Otherwise they are the same. -/
inductive Respaced : Text → Text → Prop where
  | stop {a b : Text} (ha : ∀ c ∈ a, isBlank c = true) (hb : ∀ c ∈ b, isSpace c = true) :
      Respaced a b
  | edge {a b t u : Text} (ha : ∀ c ∈ a, isBlank c = true) (hfeed : '\n' ∈ a)
      (hb : ∀ c ∈ b, isSpace c = true) (hne : b ≠ []) (h : Respaced t u) :
      Respaced (a ++ t) (b ++ u)
  | cons {t u : Text} (c : Char) (h : Respaced t u) : Respaced (c :: t) (c :: u)

/-- There is nothing here but a blank or the end. -/
def IsGap (t : Text) : Prop := ∀ c ∈ t.head?, isBlank c = true

lemma isBlank_of_isSpace {c : Char} (h : isSpace c = true) : isBlank c = true := by
  simp only [isSpace, Bool.or_eq_true, beq_iff_eq] at h
  rcases h with ((rfl | rfl) | rfl) | rfl <;> decide

lemma isGap_of_forall {a : Text} (ha : ∀ c ∈ a, isBlank c = true) : IsGap a :=
  fun c hc => ha c (List.mem_of_mem_head? hc)

lemma isGap_append {a : Text} (ha : ∀ c ∈ a, isBlank c = true) (hne : a ≠ []) (t : Text) :
    IsGap (a ++ t) := by
  obtain ⟨c, rest, rfl⟩ := List.exists_cons_of_ne_nil hne
  simpa [IsGap] using ha c List.mem_cons_self

lemma not_isGap_cons {c : Char} (hc : isBlank c = false) (t : Text) : ¬ IsGap (c :: t) := by
  simp [IsGap, hc]

/-- A gap goes on with a blank. -/
lemma IsGap.ne {c d : Char} {t : Text} (h : IsGap (c :: t)) (hd : isBlank d = false) : c ≠ d := by
  rintro rfl
  exact not_isGap_cons hd t h

namespace Respaced

lemma refl (t : Text) : Respaced t t := by
  induction t with
  | nil => exact .stop (by simp) (by simp)
  | cons c t ih => exact .cons c ih

lemma append {t u : Text} (h : Respaced t u) (s : Text) : Respaced (s ++ t) (s ++ u) := by
  induction s with
  | nil => exact h
  | cons c s ih => exact .cons c ih

/-- Either both texts have a gap here or they go on with the same character. -/
lemma gap_or_cons {t u : Text} (h : Respaced t u) :
    (IsGap t ∧ IsGap u) ∨
      ∃ c t' u', isBlank c = false ∧ t = c :: t' ∧ u = c :: u' ∧ Respaced t' u' := by
  cases h with
  | stop ha hb =>
    exact Or.inl ⟨isGap_of_forall ha, isGap_of_forall fun c hc => isBlank_of_isSpace (hb c hc)⟩
  | edge ha hfeed hb hne h =>
    exact Or.inl ⟨isGap_append ha (List.ne_nil_of_mem hfeed) _,
      isGap_append (fun c hc => isBlank_of_isSpace (hb c hc)) hne _⟩
  | cons c h =>
    cases hc : isBlank c with
    | true => exact Or.inl (by simp [IsGap, hc])
    | false => exact Or.inr ⟨c, _, _, hc, rfl, rfl, h⟩

/-- Characters that are not blank are the same in both texts. -/
lemma of_append {s t u : Text} (h : Respaced (s ++ t) u) (hs : ∀ c ∈ s, isBlank c = false) :
    ∃ u', u = s ++ u' ∧ Respaced t u' := by
  induction s generalizing u with
  | nil => exact ⟨u, rfl, h⟩
  | cons c s ih =>
    rw [List.forall_mem_cons] at hs
    rcases h.gap_or_cons with ⟨hgap, -⟩ | ⟨d, t', u', -, ht, rfl, h'⟩
    · exact absurd hgap (not_isGap_cons hs.1 _)
    · obtain ⟨rfl, rfl⟩ := List.cons.inj ht
      obtain ⟨u', rfl, hu'⟩ := ih h' hs.2
      exact ⟨u', rfl, hu'⟩

lemma of_cons {c : Char} {t u : Text} (h : Respaced (c :: t) u) (hc : isBlank c = false) :
    ∃ u', u = c :: u' ∧ Respaced t u' :=
  h.of_append (s := [c]) (by simpa using hc)

end Respaced

/-- A text that a value can be read from starts the same in both versions, once the space in front
is skipped. If a blank is left there, the text is not JSON. -/
inductive SameStart (t u : Text) : Prop where
  | blank (c : Char) (t' : Text) (hc : isBlank c = true) (ht : skipSpace t = c :: t')
  | stop (ht : skipSpace t = []) (hu : skipSpace u = [])
  | cons (c : Char) (t' u' : Text) (hc : isBlank c = false) (ht : skipSpace t = c :: t')
      (hu : skipSpace u = c :: u') (h : Respaced t' u')

@[simp] theorem skipSpace_nil : skipSpace [] = [] := rfl

lemma skipSpace_cons (c : Char) (t : Text) :
    skipSpace (c :: t) = if isSpace c then skipSpace t else c :: t :=
  List.dropWhile_cons

lemma skipSpace_of_not_isSpace {c : Char} (hc : isSpace c = false) (t : Text) :
    skipSpace (c :: t) = c :: t := by
  rw [skipSpace_cons, hc, if_neg Bool.false_ne_true]

lemma skipSpace_append {b : Text} (hb : ∀ c ∈ b, isSpace c = true) (t : Text) :
    skipSpace (b ++ t) = skipSpace t := by
  induction b with
  | nil => rfl
  | cons c b ih =>
    rw [List.forall_mem_cons] at hb
    rw [List.cons_append, skipSpace_cons, if_pos hb.1, ih hb.2]

/-- Blanks are skipped up to the first that is no space. -/
lemma skipSpace_blanks {a : Text} (ha : ∀ c ∈ a, isBlank c = true) (t : Text) :
    (∃ c t', isBlank c = true ∧ skipSpace (a ++ t) = c :: t') ∨
      skipSpace (a ++ t) = skipSpace t := by
  induction a with
  | nil => exact Or.inr rfl
  | cons c a ih =>
    rw [List.forall_mem_cons] at ha
    rw [List.cons_append, skipSpace_cons]
    split
    · exact ih ha.2
    · exact Or.inl ⟨c, _, ha.1, rfl⟩

namespace SameStart

lemma of_skipSpace_eq {t u t' u' : Text} (h : SameStart t u) (ht : skipSpace t' = skipSpace t)
    (hu : skipSpace u' = skipSpace u) : SameStart t' u' := by
  cases h with
  | blank c r hc h => exact .blank c r hc (ht.trans h)
  | stop h h' => exact .stop (ht.trans h) (hu.trans h')
  | cons c r s hc h h' hr => exact .cons c r s hc (ht.trans h) (hu.trans h') hr

/-- The same may be put in front: blanks here, space there. -/
lemma append {t u a b : Text} (h : SameStart t u) (ha : ∀ c ∈ a, isBlank c = true)
    (hb : ∀ c ∈ b, isSpace c = true) : SameStart (a ++ t) (b ++ u) := by
  rcases skipSpace_blanks ha t with ⟨c, t', hc, ht⟩ | ht
  · exact .blank c t' hc ht
  · exact h.of_skipSpace_eq ht (skipSpace_append hb u)

end SameStart

/-- What a value starts with in the first text it starts with in the second one. -/
lemma SameStart.of_eq_cons {c : Char} {t u r : Text} (h : SameStart t u)
    (ht : skipSpace t = c :: r) (hc : isBlank c = false) :
    ∃ s, skipSpace u = c :: s ∧ Respaced r s := by
  cases h with
  | blank d t' hd ht' =>
    obtain ⟨rfl, rfl⟩ := List.cons.inj (ht.symm.trans ht')
    rw [hc] at hd
    cases hd
  | stop ht' _ => cases ht.symm.trans ht'
  | cons d t' u' _ ht' hu h' =>
    obtain ⟨rfl, rfl⟩ := List.cons.inj (ht.symm.trans ht')
    exact ⟨u', hu, h'⟩

/-- What a text does not start with the other one does not start with either. -/
lemma SameStart.ne_cons {c d : Char} {t u r : Text} (h : SameStart t u)
    (ht : skipSpace t = c :: r) (hc : isBlank c = false) (hne : ∀ s, skipSpace t ≠ d :: s) :
    ∀ s, skipSpace u ≠ d :: s := by
  intro s hu
  obtain ⟨s', hu', -⟩ := h.of_eq_cons ht hc
  obtain ⟨rfl, -⟩ := List.cons.inj (hu'.symm.trans hu)
  exact hne r ht

lemma Respaced.sameStart {t u : Text} (h : Respaced t u) : SameStart t u := by
  induction h with
  | @stop a b ha hb =>
    have hnil : SameStart [] [] := .stop rfl rfl
    simpa using hnil.append ha hb
  | edge ha _ hb _ _ ih => exact ih.append ha hb
  | @cons t u c h ih =>
    by_cases hs : isSpace c = true
    · exact ih.append (a := [c]) (b := [c]) (by simpa using isBlank_of_isSpace hs)
        (by simpa using hs)
    · have hskip : ∀ r, skipSpace (c :: r) = c :: r := fun r => by rw [skipSpace_cons, if_neg hs]
      cases hc : isBlank c with
      | true => exact .blank c t hc (hskip t)
      | false => exact .cons c t u hc (hskip t) (hskip u) h

end EditingEngine.Json
