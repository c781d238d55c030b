import EditingEngine.BracketSpan
import Mathlib.Algebra.Order.Ring.Int
import Mathlib.Data.List.Nodup
import Mathlib.Data.List.Pairwise
import Mathlib.Tactic.Lemma

/-!
# Enclosed stretches

The depth of a pair of brackets in front of a position is the number of its opening brackets
before it less the closing ones. A stretch of the text is enclosed by the pair if the depth
rises at its first character, stays above where it was, and falls back to it at its last one.
A search for a partner counts away from a bracket, to the right or to the left, but finds in
both cases the other end of the one stretch that is enclosed from there on. So where no two
brackets are the same character, the partners are the two ends of the enclosed stretches.
-/
namespace EditingEngine

/-- How much more often the one character occurs than the other. -/
def excess (same other : Char) (text : Text) : Int := text.count same - text.count other

section excess

variable {same other : Char}

@[simp] theorem excess_nil : excess same other [] = 0 := rfl

lemma excess_append (front back : Text) :
    excess same other (front ++ back) = excess same other front + excess same other back := by
  simp only [excess, List.count_append]
  omega

lemma excess_cons (c : Char) (rest : Text) :
    excess same other (c :: rest) = excess same other [c] + excess same other rest :=
  excess_append [c] rest

lemma excess_reverse (text : Text) : excess same other text.reverse = excess same other text := by
  simp only [excess, List.count_reverse]

lemma excess_swap (text : Text) : excess other same text = -excess same other text := by
  simp only [excess]
  omega

lemma eq_of_excess_pos {c : Char} (h : 0 < excess same other [c]) : c = same := by
  by_contra hc
  simp [excess, hc] at h
  omega

lemma eq_of_excess_neg {c : Char} (h : excess same other [c] < 0) : c = other := by
  by_contra hc
  simp [excess, hc] at h
  omega

variable (hne : same ≠ other)
include hne

lemma excess_same : excess same other [same] = 1 := by
  simp [excess, hne]

lemma excess_other : excess same other [other] = -1 := by
  simp [excess, hne.symm]

omit hne in
lemma excess_none {c : Char} (hsame : c ≠ same) (hother : c ≠ other) :
    excess same other [c] = 0 := by
  simp [excess, hsame, hother]

lemma neg_one_le_excess (c : Char) : -1 ≤ excess same other [c] := by
  by_cases hother : c = other
  · rw [hother, excess_other hne]
  · simp [excess, hother]

/-- The search adds the excess of each character that it passes, and stops at zero. -/
lemma balanceAt?_cons {depth : Nat} (hdepth : 0 < depth) (c : Char) (rest : Text) :
    balanceAt? same other depth (c :: rest) =
      if depth + excess same other [c] = 0 then some 0
      else (balanceAt? same other (depth + excess same other [c]).toNat rest).map (· + 1) := by
  rw [balanceAt?]
  by_cases hsame : c = same
  · rw [if_pos hsame, hsame, excess_same hne, if_neg (by omega)]
    rfl
  · rw [if_neg hsame]
    by_cases hother : c = other
    · rw [if_pos hother, hother, excess_other hne]
      by_cases hone : depth = 1
      · rw [if_pos hone, if_pos (by omega)]
      · rw [if_neg hone, if_neg (by omega), ← Int.toNat_natCast (depth - 1)]
        congr
        omega
    · rw [if_neg hother, excess_none hsame hother, if_neg (by omega), Int.add_zero,
        Int.toNat_natCast]

/-- The search finds the first character behind which the depth is gone. -/
theorem balanceAt?_eq_some_iff {depth : Nat} (hdepth : 0 < depth) {text : Text} {i : Nat} :
    balanceAt? same other depth text = some i ↔
      (∀ j < i + 1, 0 < depth + excess same other (text.take j)) ∧
        depth + excess same other (text.take (i + 1)) = 0 := by
  induction text generalizing depth i with
  | nil =>
    simp [balanceAt?]
    omega
  | cons c rest ih =>
    have hcons : ∀ j, excess same other (c :: rest.take j) =
        excess same other [c] + excess same other (rest.take j) := fun j => excess_cons c _
    rw [balanceAt?_cons hne hdepth, Nat.forall_lt_succ_left]
    simp only [List.take_succ_cons, List.take_zero, excess_nil, hcons, ← Int.add_assoc]
    split
    · next hzero =>
      cases i with
      | zero => simp [hzero, hdepth]
      | succ i =>
        -- The search has stopped in front of such an index.
        refine iff_of_false (by simp) ?_
        rintro ⟨⟨-, hopen⟩, -⟩
        have hpos := hopen 0 i.succ_pos
        rw [hzero] at hpos
        exact lt_irrefl 0 hpos
    · next hnonzero =>
      obtain ⟨d, hd⟩ : ∃ d : Nat, depth + excess same other [c] = d :=
        Int.eq_ofNat_of_zero_le (by have := neg_one_le_excess hne c; omega)
      have hpos : 0 < d := by omega
      rw [hd, Int.toNat_natCast, Option.map_eq_some_iff]
      cases i with
      | zero => simp [hpos.ne']
      | succ i => simp [ih hpos, hdepth]

end excess

namespace BracketPair

lemma has_iff (p : BracketPair) (c : Char) : p.has c = true ↔ c = p.opener ∨ c = p.closer := by
  simp only [has, Bool.or_eq_true, beq_iff_eq, @eq_comm _ c]

/-- The opening brackets of a pair in front of a position less the closing ones. -/
def depthAt (p : BracketPair) (text : Text) (position : Nat) : Int :=
  excess p.opener p.closer (text.take position)

/-- The stretch from `first` to `last`, both included, begins and ends at the same depth and is
deeper everywhere between. -/
structure Encloses (p : BracketPair) (text : Text) (first last : Nat) : Prop where
  lt : first < last
  deeper : ∀ k, first < k → k ≤ last → p.depthAt text first < p.depthAt text k
  back : p.depthAt text (last + 1) = p.depthAt text first

variable {p : BracketPair} {text : Text}

lemma depthAt_add (p : BracketPair) (text : Text) (i j : Nat) : p.depthAt text (i + j) =
    p.depthAt text i + excess p.opener p.closer ((text.drop i).take j) := by
  rw [depthAt, List.take_add, excess_append]
  rfl

lemma depthAt_succ (p : BracketPair) (text : Text) (i : Nat) : p.depthAt text (i + 1) =
    p.depthAt text i + excess p.opener p.closer text[i]?.toList := by
  rw [depthAt, List.take_add_one, excess_append]
  rfl

/-- The depth rises behind an opening bracket only. -/
lemma getElem?_of_rises {i : Nat} (h : p.depthAt text i < p.depthAt text (i + 1)) :
    text[i]? = some p.opener := by
  rw [depthAt_succ] at h
  cases hc : text[i]? with
  | none => simp [hc] at h
  | some c =>
    rw [hc] at h
    exact congrArg some (eq_of_excess_pos (lt_add_iff_pos_right _ |>.mp h))

/-- And it falls behind a closing bracket only. -/
lemma getElem?_of_falls {i : Nat} (h : p.depthAt text (i + 1) < p.depthAt text i) :
    text[i]? = some p.closer := by
  rw [depthAt_succ] at h
  cases hc : text[i]? with
  | none => simp [hc] at h
  | some c =>
    rw [hc] at h
    exact congrArg some (eq_of_excess_neg (add_lt_iff_neg_left.mp h))

lemma Encloses.opener {first last : Nat} (h : p.Encloses text first last) :
    text[first]? = some p.opener :=
  getElem?_of_rises (h.deeper _ (Nat.lt_succ_self _) h.lt)

lemma Encloses.closer {first last : Nat} (h : p.Encloses text first last) :
    text[last]? = some p.closer := by
  apply getElem?_of_falls
  rw [h.back]
  exact h.deeper last h.lt (Nat.le_refl _)

variable (hp : p.opener ≠ p.closer)
include hp

/-- A search to the right from an opening bracket finds the end of the stretch. -/
lemma search_right {first last : Nat} (hfirst : text[first]? = some p.opener) :
    (balanceAt? p.opener p.closer 1 (text.drop (first + 1))).map (first + 1 + ·) = some last ↔
      p.Encloses text first last := by
  have hdepth : ∀ j, p.depthAt text (first + 1 + j) = p.depthAt text first + 1 +
      excess p.opener p.closer ((text.drop (first + 1)).take j) := by
    intro j
    rw [depthAt_add, depthAt_succ, hfirst]
    simp only [Option.toList_some, excess_same hp]
  rw [Option.map_eq_some_iff]
  constructor
  · rintro ⟨i, hi, rfl⟩
    obtain ⟨hdeeper, hback⟩ := (balanceAt?_eq_some_iff hp Nat.one_pos).mp hi
    refine ⟨by omega, ?_, ?_⟩
    · intro k hk hki
      obtain ⟨j, rfl⟩ := Nat.exists_eq_add_of_le hk
      have hj := hdeeper j (by omega)
      rw [Nat.succ_eq_add_one, hdepth]
      omega
    · rw [Nat.add_assoc _ i, hdepth]
      omega
  · rintro ⟨hlt, hdeeper, hback⟩
    obtain ⟨i, rfl⟩ := Nat.exists_eq_add_of_le hlt
    refine ⟨i, (balanceAt?_eq_some_iff hp Nat.one_pos).mpr ⟨?_, ?_⟩, rfl⟩
    · intro j hj
      have hk := hdeeper (first + 1 + j) (by omega) (by omega)
      rw [hdepth] at hk
      omega
    · rw [Nat.succ_eq_add_one, Nat.add_assoc _ i, hdepth] at hback
      omega

/-- A search to the left from a closing bracket finds the start of the stretch. -/
lemma search_left {first last : Nat} (hlast : text[last]? = some p.closer) :
    (balanceAt? p.closer p.opener 1 (text.take last).reverse).map (last - 1 - ·) = some first ↔
      p.Encloses text first last := by
  have hback : p.depthAt text (last + 1) = p.depthAt text last - 1 := by
    rw [depthAt_succ, hlast]
    simp only [Option.toList_some, excess_other hp]
    rfl
  have hdepth : ∀ j ≤ last, p.depthAt text (last - j) = p.depthAt text last +
      excess p.closer p.opener ((text.take last).reverse.take j) := by
    intro j hj
    have hlength : last ≤ text.length := (List.getElem?_eq_some_iff.mp hlast).1.le
    have hfront := depthAt_add p text (last - j) j
    rw [Nat.sub_add_cancel hj] at hfront
    rw [List.take_reverse, excess_reverse, excess_swap, List.length_take_of_le hlength,
      List.drop_take, Nat.sub_sub_self hj]
    omega
  rw [Option.map_eq_some_iff]
  constructor
  · rintro ⟨i, hi, rfl⟩
    have hlt : i < last := by
      have := balanceAt?_lt hi
      simp at this
      omega
    obtain ⟨hdeeper, hends⟩ := (balanceAt?_eq_some_iff hp.symm Nat.one_pos).mp hi
    have hfirst : p.depthAt text (last - 1 - i) = p.depthAt text last - 1 := by
      rw [Nat.sub_sub, Nat.add_comm 1 i, hdepth _ (by omega)]
      omega
    refine ⟨by omega, ?_, ?_⟩
    · intro k hk hkl
      obtain ⟨j, hj, rfl⟩ : ∃ j ≤ last, k = last - j := ⟨last - k, by omega, by omega⟩
      have hpassed := hdeeper j (by omega)
      rw [hfirst, hdepth j hj]
      omega
    · rw [hback, hfirst]
  · rintro ⟨hlt, hdeeper, hends⟩
    have hsplit : first = last - 1 - (last - 1 - first) := by omega
    refine ⟨_, (balanceAt?_eq_some_iff hp.symm Nat.one_pos).mpr ⟨?_, ?_⟩, hsplit.symm⟩
    · intro j hj
      have hk := hdeeper (last - j) (by omega) (by omega)
      rw [hdepth j (by omega)] at hk
      omega
    · have hfirst := hdepth (last - 1 - first + 1) (by omega)
      rw [show last - (last - 1 - first + 1) = first by omega] at hfirst
      omega

end BracketPair

section Search

variable {pairs : List BracketPair} {p : BracketPair} {text : Text} {i : Nat}

lemma mem_and_has_of_pairOf? {c : Char} (h : pairOf? pairs c = some p) :
    p ∈ pairs ∧ p.has c = true := by
  have hc := List.find?_some h
  exact ⟨List.mem_of_find?_eq_some h, hc⟩

/-- The partner of an opening bracket is searched for to its right. -/
lemma partnerOf?_of_opener (hpair : pairOf? pairs p.opener = some p)
    (hi : text[i]? = some p.opener) : partnerOf? pairs text i =
      (balanceAt? p.opener p.closer 1 (text.drop (i + 1))).map (i + 1 + ·) := by
  simp [partnerOf?, hi, hpair, BracketPair.partner?]

/-- And that of a closing one to its left. -/
lemma partnerOf?_of_closer (hpair : pairOf? pairs p.closer = some p) (hp : p.opener ≠ p.closer)
    (hi : text[i]? = some p.closer) : partnerOf? pairs text i =
      (balanceAt? p.closer p.opener 1 (text.take i).reverse).map (i - 1 - ·) := by
  simp [partnerOf?, hi, hpair, BracketPair.partner?, hp.symm]

end Search

/-- No two brackets of the pairs are the same character. -/
def DistinctBrackets (pairs : List BracketPair) : Prop :=
  (pairs.flatMap fun p => [p.opener, p.closer]).Nodup

instance (pairs : List BracketPair) : Decidable (DistinctBrackets pairs) :=
  inferInstanceAs (Decidable (List.Nodup _))

namespace DistinctBrackets

variable {pairs : List BracketPair} (hpairs : DistinctBrackets pairs)
include hpairs

lemma opener_ne_closer {p : BracketPair} (hp : p ∈ pairs) : p.opener ≠ p.closer := by
  have hnodup := (List.nodup_flatMap.mp hpairs).1 p hp
  simpa using hnodup

/-- A character is a bracket of one pair at most. -/
lemma pairOf?_eq_some_iff {p : BracketPair} {c : Char} :
    pairOf? pairs c = some p ↔ p ∈ pairs ∧ p.has c = true := by
  refine ⟨mem_and_has_of_pairOf?, ?_⟩
  rintro ⟨hp, hpc⟩
  have hfound : (pairOf? pairs c).isSome := List.find?_isSome.mpr ⟨p, hp, hpc⟩
  obtain ⟨q, hq⟩ := Option.isSome_iff_exists.mp hfound
  obtain ⟨hqmem, hqc⟩ := mem_and_has_of_pairOf? hq
  suffices hqp : q = p by rwa [hqp] at hq
  by_contra hne
  have hsymm :
      Std.Symm (Function.onFun List.Disjoint fun r : BracketPair => [r.opener, r.closer]) :=
    ⟨fun _ _ h _ hr hq => h hq hr⟩
  have hdisjoint := (List.nodup_flatMap.mp hpairs).2.forall hqmem hp hne
  rw [BracketPair.has_iff] at hpc hqc
  exact hdisjoint (a := c) (by simpa using hqc) (by simpa using hpc)

lemma partnerOf?_opener {p : BracketPair} (hp : p ∈ pairs) {text : Text} {i : Nat}
    (hi : text[i]? = some p.opener) : partnerOf? pairs text i =
      (balanceAt? p.opener p.closer 1 (text.drop (i + 1))).map (i + 1 + ·) :=
  partnerOf?_of_opener (hpairs.pairOf?_eq_some_iff.mpr ⟨hp, by simp [BracketPair.has]⟩) hi

lemma partnerOf?_closer {p : BracketPair} (hp : p ∈ pairs) {text : Text} {i : Nat}
    (hi : text[i]? = some p.closer) : partnerOf? pairs text i =
      (balanceAt? p.closer p.opener 1 (text.take i).reverse).map (i - 1 - ·) :=
  partnerOf?_of_closer (hpairs.pairOf?_eq_some_iff.mpr ⟨hp, by simp [BracketPair.has]⟩)
    (hpairs.opener_ne_closer hp) hi

/-- A bracket that has a partner is the opening or the closing one of a pair. -/
lemma exists_of_partnerOf? {text : Text} {i j : Nat} (h : partnerOf? pairs text i = some j) :
    ∃ p ∈ pairs, text[i]? = some p.opener ∨ text[i]? = some p.closer := by
  simp only [partnerOf?, Option.bind_eq_bind, Option.bind_eq_some_iff] at h
  obtain ⟨c, hc, p, hpair, -⟩ := h
  obtain ⟨hp, hpc⟩ := hpairs.pairOf?_eq_some_iff.mp hpair
  refine ⟨p, hp, ?_⟩
  rw [BracketPair.has_iff] at hpc
  simpa [hc] using hpc

/-- The partners are the two ends of the enclosed stretches. -/
theorem partnerOf?_eq_some_iff (text : Text) (i j : Nat) : partnerOf? pairs text i = some j ↔
    ∃ p ∈ pairs, p.Encloses text i j ∨ p.Encloses text j i := by
  constructor
  · intro h
    obtain ⟨p, hp, hopener | hcloser⟩ := hpairs.exists_of_partnerOf? h
    · rw [hpairs.partnerOf?_opener hp hopener,
        BracketPair.search_right (hpairs.opener_ne_closer hp) hopener] at h
      exact ⟨p, hp, Or.inl h⟩
    · rw [hpairs.partnerOf?_closer hp hcloser,
        BracketPair.search_left (hpairs.opener_ne_closer hp) hcloser] at h
      exact ⟨p, hp, Or.inr h⟩
  · rintro ⟨p, hp, h | h⟩
    · rw [hpairs.partnerOf?_opener hp h.opener]
      exact (BracketPair.search_right (hpairs.opener_ne_closer hp) h.opener).mpr h
    · rw [hpairs.partnerOf?_closer hp h.closer]
      exact (BracketPair.search_left (hpairs.opener_ne_closer hp) h.closer).mpr h

end DistinctBrackets

end EditingEngine
