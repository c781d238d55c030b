import EditingEngine.Proofs.Brackets.Enclosure

/-!
# Brackets nest

Two stretches that the same pair encloses lie apart or one within the other, since the depth
between the ends of a stretch is greater than at its ends. Partners are the two ends of such a
stretch, so each is the partner of the other, whichever of them the search starts from, and the
span of two partners is found again from both of its ends.
-/
namespace EditingEngine

namespace Span

/-- From the one to the other of two indices, both included. -/
def between (i j : Nat) : Span := ⟨min i j, max i j + 1⟩

lemma between_comm (i j : Nat) : between i j = between j i := by
  rw [between, between, min_comm, max_comm]

/-- One of two spans lies strictly within the other. -/
def Within (s t : Span) : Prop := t.first < s.first ∧ s.past < t.past

/-- The spans are equal, lie apart, or one lies strictly within the other. -/
def Nests (s t : Span) : Prop :=
  s = t ∨ s.past ≤ t.first ∨ t.past ≤ s.first ∨ s.Within t ∨ t.Within s

end Span

namespace BracketPair

variable {p : BracketPair} {text : Text} {first last first' last' : Nat}

/-- A stretch ends where the depth first falls back. -/
lemma Encloses.last_le (h : p.Encloses text first last) (h' : p.Encloses text first last') :
    last' ≤ last := by
  by_contra hlt
  have hdeeper := h'.deeper (last + 1) (by have := h.lt; omega) (by omega)
  rw [h.back] at hdeeper
  exact lt_irrefl _ hdeeper

/-- A stretch that begins within another one is deeper and has to end before the depth falls
back. -/
lemma Encloses.last_lt (h : p.Encloses text first last) (h' : p.Encloses text first' last')
    (hfirst : first < first') (hbegins : first' ≤ last) : last' < last := by
  by_contra hlast
  have hinner := h.deeper first' hfirst hbegins
  have hback := h.back
  rcases (Nat.le_of_not_lt hlast).eq_or_lt with rfl | hlt
  · have hback' := h'.back
    omega
  · have hdeeper := h'.deeper (last + 1) (by omega) (by omega)
    omega

theorem Encloses.nests (h : p.Encloses text first last) (h' : p.Encloses text first' last') :
    (Span.mk first (last + 1)).Nests ⟨first', last' + 1⟩ := by
  rcases lt_trichotomy first first' with hlt | rfl | hlt
  · by_cases hbegins : first' ≤ last
    · have hlast := h.last_lt h' hlt hbegins
      exact Or.inr (Or.inr (Or.inr (Or.inr ⟨hlt, by simpa using hlast⟩)))
    · exact Or.inr (Or.inl (by simp only; omega))
  · have hlast : last = last' := Nat.le_antisymm (h'.last_le h) (h.last_le h')
    exact Or.inl (by rw [hlast])
  · by_cases hbegins : first ≤ last'
    · have hlast := h'.last_lt h hlt hbegins
      exact Or.inr (Or.inr (Or.inr (Or.inl ⟨hlt, by simpa using hlast⟩)))
    · exact Or.inr (Or.inr (Or.inl (by simp only; omega)))

end BracketPair

/-- A bracket in front of the caret is the one that is matched. -/
lemma matchSpan?_behind {pairs : List BracketPair} {text : Text} {i j : Nat}
    (h : partnerOf? pairs text i = some j) :
    matchSpan? pairs text (i + 1) = some (.between i j) := by
  have hbracket : isBracketAt pairs text i = true := by
    simp only [partnerOf?, Option.bind_eq_bind, Option.bind_eq_some_iff] at h
    obtain ⟨c, hc, p, hpair, -⟩ := h
    simp only [isBracketAt, hc, Option.any_some, List.any_eq_true]
    exact ⟨p, mem_and_has_of_pairOf? hpair⟩
  simp [matchSpan?, bracketNear?, hbracket, h, Span.between]

section

variable {pairs : List BracketPair} {text : Text} {i j : Nat} (hpairs : DistinctBrackets pairs)
include hpairs

lemma DistinctBrackets.partnerOf?_symm (h : partnerOf? pairs text i = some j) :
    partnerOf? pairs text j = some i := by
  rw [hpairs.partnerOf?_eq_some_iff] at h ⊢
  obtain ⟨p, hp, hij⟩ := h
  exact ⟨p, hp, hij.symm⟩

/-- The pair of a bracket encloses the span from it to its partner. -/
lemma DistinctBrackets.encloses_between (h : partnerOf? pairs text i = some j) :
    ∃ p ∈ pairs, (∃ c, text[i]? = some c ∧ p.has c = true) ∧
      p.Encloses text (min i j) (max i j) := by
  obtain ⟨p, hp, hij | hji⟩ := (hpairs.partnerOf?_eq_some_iff text i j).mp h
  · rw [min_eq_left hij.lt.le, max_eq_right hij.lt.le]
    exact ⟨p, hp, ⟨_, hij.opener, (p.has_iff _).mpr (Or.inl rfl)⟩, hij⟩
  · rw [min_eq_right hji.lt.le, max_eq_left hji.lt.le]
    exact ⟨p, hp, ⟨_, hji.closer, (p.has_iff _).mpr (Or.inr rfl)⟩, hji⟩

lemma DistinctBrackets.encloses_of_has {p : BracketPair} (hp : p ∈ pairs)
    (hi : text[i]?.any p.has = true) (h : partnerOf? pairs text i = some j) :
    p.Encloses text (min i j) (max i j) := by
  obtain ⟨q, hq, ⟨c, hc, hqc⟩, hencloses⟩ := hpairs.encloses_between h
  have hpc : p.has c = true := by simpa [hc] using hi
  have hsame : some p = some q := by
    rw [← hpairs.pairOf?_eq_some_iff.mpr ⟨hp, hpc⟩, hpairs.pairOf?_eq_some_iff.mpr ⟨hq, hqc⟩]
  cases hsame
  exact hencloses

/-- The span at a caret lies in the text and is found again from behind both of its ends. -/
lemma DistinctBrackets.matchSpan?_again {caret : Nat} {s : Span}
    (h : matchSpan? pairs text caret = some s) :
    s.first < s.past ∧ s.past ≤ text.length ∧
      matchSpan? pairs text (s.first + 1) = some s ∧ matchSpan? pairs text s.past = some s := by
  simp only [matchSpan?, Option.bind_eq_bind, Option.bind_eq_some_iff, Option.some.injEq] at h
  obtain ⟨i, -, j, hij, rfl⟩ := h
  have hback := matchSpan?_behind hij
  have hforth := matchSpan?_behind (hpairs.partnerOf?_symm hij)
  rw [Span.between_comm] at hforth
  obtain ⟨p, hp, -, hencloses⟩ := hpairs.encloses_between hij
  have hlast : max i j < text.length := (List.getElem?_eq_some_iff.mp hencloses.closer).1
  have hends : ∀ k, k = i ∨ k = j → matchSpan? pairs text (k + 1) = some (.between i j) := by
    rintro k (rfl | rfl)
    · exact hback
    · exact hforth
  refine ⟨by simp only; omega, hlast, hends _ (min_choice i j), hends _ (max_choice i j)⟩

end

/-- Where no two brackets are the same character, partners are found from each other, the left one
opens the pair that the right one closes, and the spans of two pairs of partners that are brackets
of the same kind are equal, lie apart, or one lies strictly within the other. A span that is found
at a caret lies in the text, and the carets behind both of its brackets find the same one. -/
theorem partners_nest {pairs : List BracketPair} (hpairs : DistinctBrackets pairs) (text : Text) :
    (∀ i j, partnerOf? pairs text i = some j → partnerOf? pairs text j = some i ∧
      ∃ p ∈ pairs, text[min i j]? = some p.opener ∧ text[max i j]? = some p.closer) ∧
    (∀ p ∈ pairs, ∀ i j i' j', partnerOf? pairs text i = some j →
      partnerOf? pairs text i' = some j' → text[i]?.any p.has = true →
      text[i']?.any p.has = true → (Span.between i j).Nests (.between i' j')) ∧
    ∀ caret s, matchSpan? pairs text caret = some s → s.first < s.past ∧ s.past ≤ text.length ∧
      matchSpan? pairs text (s.first + 1) = some s ∧ matchSpan? pairs text s.past = some s := by
  refine ⟨?_, ?_, fun _ _ => hpairs.matchSpan?_again⟩
  · intro i j hij
    obtain ⟨p, hp, -, hencloses⟩ := hpairs.encloses_between hij
    exact ⟨hpairs.partnerOf?_symm hij, p, hp, hencloses.opener, hencloses.closer⟩
  · intro p hp i j i' j' hij hij' hi hi'
    exact (hpairs.encloses_of_has hp hi hij).nests (hpairs.encloses_of_has hp hi' hij')

/-- A bracket without a partner in front, and angle and square brackets across the parentheses. -/
theorem partners_nest_crossing :
    let pairs := Language.javaScript.matchPairs
    let text : Text := "(<(x[)>](y)".toList
    DistinctBrackets pairs ∧ partnerOf? pairs text 0 = none ∧ partnerOf? pairs text 4 = some 7 ∧
    partnerOf? pairs text 2 = some 5 ∧ partnerOf? pairs text 5 = some 2 ∧
    partnerOf? pairs text 10 = some 8 ∧ (Span.between 5 2).Nests (.between 10 8) ∧
    matchSpan? pairs text 6 = some ⟨2, 6⟩ ∧ matchSpan? pairs text 3 = some ⟨2, 6⟩ := by
  intro pairs text
  have hpairs : DistinctBrackets pairs := by decide
  have hright : partnerOf? pairs text 2 = some 5 := by decide
  have hlast : partnerOf? pairs text 10 = some 8 := by decide
  have hspan : matchSpan? pairs text 6 = some ⟨2, 6⟩ := by decide
  obtain ⟨hpartners, hnest, hspans⟩ := partners_nest hpairs text
  have hleft := (hpartners 2 5 hright).1
  exact ⟨hpairs, by decide, by decide, hright, hleft, hlast,
    hnest ⟨'(', ')'⟩ (by decide) 5 2 10 8 hleft hlast (by decide) (by decide), hspan,
    (hspans 6 _ hspan).2.2.1⟩

end EditingEngine
