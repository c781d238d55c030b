import EditingEngine.Proofs.Brackets.Enclosure
import Mathlib.Order.SuccPred.Archimedean
import Mathlib.Data.Nat.SuccPred

/-!
# The nearest balance

A search for the partner of a bracket keeps a counter, and looks only at the counter to know when to
stop. Since the counter moves by at most one at a time it stays positive until then. So the search
comes to the first position, in its direction, where both brackets of the pair have occurred equally
often since the bracket that it started from, and to none if there is no such position.
-/
namespace EditingEngine

/-- The counter of a search behind each character that it comes to, which the one character raises
and the other lowers. Zero ends the search. -/
def searchCounts (same other : Char) : Int → Text → List Int
  | _, [] => []
  | count, c :: rest =>
    let next := if c = same then count + 1 else if c = other then count - 1 else count
    next :: if next = 0 then [] else searchCounts same other next rest

/-- The search stops where the counter is zero. -/
lemma balanceAt?_eq_findIdx? (same other : Char) {depth : Nat} (hdepth : 0 < depth) (text : Text) :
    balanceAt? same other depth text = (searchCounts same other depth text).findIdx? (· == 0) := by
  induction text generalizing depth with
  | nil => rfl
  | cons c rest ih =>
    rw [balanceAt?, searchCounts, List.findIdx?_cons]
    by_cases hsame : c = same
    · have hrest := ih depth.succ_pos
      have hnext : (depth : Int) + 1 ≠ 0 := by omega
      rw [Nat.cast_succ] at hrest
      simp [hsame, hnext, hrest]
    · by_cases hother : c = other
      · subst hother
        by_cases hone : depth = 1
        · simp [hsame, hone]
        · have hrest := ih (show 0 < depth - 1 by omega)
          have hnext : (depth : Int) - 1 ≠ 0 := by omega
          rw [Nat.cast_pred hdepth] at hrest
          simp [hsame, hone, hnext, hrest]
      · have hnext : depth ≠ 0 := by omega
        simp [hsame, hother, hnext, ih hdepth]

/-- And never below. -/
lemma searchCounts_nonneg (same other : Char) {count : Int} (hcount : 0 < count) (text : Text) :
    ∀ n ∈ searchCounts same other count text, 0 ≤ n := by
  induction text generalizing count with
  | nil => simp [searchCounts]
  | cons c rest ih =>
    rw [searchCounts]
    set next := if c = same then count + 1 else if c = other then count - 1 else count with hnext
    have hle : 0 ≤ next := by
      rw [hnext]
      split
      · omega
      · split <;> omega
    intro n hn
    rcases List.mem_cons.mp hn with rfl | hn
    · exact hle
    · split at hn
      · cases hn
      · next hzero => exact ih (by omega) n hn

namespace BracketPair

variable {p : BracketPair} {text : Text} {first last : Nat}

/-- Both brackets stand equally often between the two positions, at the positions themselves too. -/
def IsBalancedBetween (p : BracketPair) (text : Text) (i j : Nat) : Prop :=
  let stretch := (text.take (max i j + 1)).drop (min i j)
  stretch.count p.opener = stretch.count p.closer

lemma isBalancedBetween_comm (i j : Nat) :
    p.IsBalancedBetween text i j ↔ p.IsBalancedBetween text j i := by
  rw [IsBalancedBetween, IsBalancedBetween, min_comm, max_comm]

lemma isBalancedBetween_iff (h : first ≤ last) : p.IsBalancedBetween text first last ↔
    p.depthAt text (last + 1) = p.depthAt text first := by
  obtain ⟨size, rfl⟩ := Nat.exists_eq_add_of_le h
  rw [IsBalancedBetween, max_eq_right h, min_eq_left h, Nat.add_assoc, depthAt_add, List.drop_take,
    Nat.add_sub_cancel_left, excess]
  omega

variable (hp : p.opener ≠ p.closer)
include hp

/-- The depth moves by at most one from a position to the next. -/
lemma depthAt_succ_near (text : Text) (i : Nat) :
    p.depthAt text i - 1 ≤ p.depthAt text (i + 1) ∧
      p.depthAt text (i + 1) ≤ p.depthAt text i + 1 := by
  rw [depthAt_succ]
  cases text[i]? with
  | none => simp
  | some c =>
    have hlower := neg_one_le_excess hp c
    have hupper := neg_one_le_excess hp.symm c
    rw [excess_swap] at hupper
    simp only [Option.toList_some]
    omega

/-- To the right the enclosed stretch ends at the first balance. -/
lemma encloses_iff_isLeast (hfirst : text[first]? = some p.opener) :
    p.Encloses text first last ↔
      IsLeast {m | first < m ∧ m < text.length ∧ p.IsBalancedBetween text first m} last := by
  constructor
  · intro h
    have hlast : last < text.length := (List.getElem?_eq_some_iff.mp h.closer).1
    refine ⟨⟨h.lt, hlast, (isBalancedBetween_iff h.lt.le).mpr h.back⟩, ?_⟩
    rintro m ⟨hm, -, hbalanced⟩
    by_contra hlt
    have hdeeper := h.deeper (m + 1) (by omega) (by omega)
    rw [isBalancedBetween_iff hm.le] at hbalanced
    omega
  · rintro ⟨⟨hlt, hlast, hbalanced⟩, hleast⟩
    refine ⟨hlt, ?_, (isBalancedBetween_iff hlt.le).mp hbalanced⟩
    intro k hk
    induction k, hk using Nat.le_induction with
    | base =>
      intro _
      rw [depthAt_succ, hfirst, Option.toList_some, excess_same hp]
      omega
    | succ k hk ih =>
      intro hkl
      -- One step cannot go past the depth of the start, and to be back there would be a balance
      -- in front of the first.
      have hdeeper := ih (by omega)
      have hstep := depthAt_succ_near hp text k
      have hnot : p.depthAt text (k + 1) ≠ p.depthAt text first := by
        intro hback
        have hbefore := hleast ⟨hk, by omega, (isBalancedBetween_iff (by omega)).mpr hback⟩
        omega
      omega

/-- And to the left it starts there. -/
lemma encloses_iff_isGreatest (hlast : text[last]? = some p.closer) :
    p.Encloses text first last ↔
      IsGreatest {m | m < last ∧ p.IsBalancedBetween text last m} first := by
  constructor
  · intro h
    have hbalanced := (isBalancedBetween_iff h.lt.le).mpr h.back
    refine ⟨⟨h.lt, (isBalancedBetween_comm first last).mp hbalanced⟩, ?_⟩
    rintro m ⟨hm, hm'⟩
    by_contra hlt
    have hdeeper := h.deeper m (by omega) hm.le
    rw [isBalancedBetween_comm, isBalancedBetween_iff hm.le, h.back] at hm'
    omega
  · rintro ⟨⟨hlt, hbalanced⟩, hgreatest⟩
    rw [isBalancedBetween_comm, isBalancedBetween_iff hlt.le] at hbalanced
    refine ⟨hlt, ?_, hbalanced⟩
    intro k hk hkl
    induction hkl using Nat.decreasingInduction with
    | self =>
      rw [depthAt_succ, hlast, Option.toList_some, excess_other hp] at hbalanced
      omega
    | of_succ k hkl ih =>
      have hdeeper := ih (by omega)
      have hstep := depthAt_succ_near hp text k
      have hnot : p.depthAt text k ≠ p.depthAt text first := by
        intro hback
        have hbehind := hgreatest ⟨hkl, (isBalancedBetween_comm k last).mp
          ((isBalancedBetween_iff hkl.le).mpr (hbalanced.trans hback.symm))⟩
        omega
      omega

end BracketPair

/-- A search has the first of some positions for its answer, in its own direction, and no answer if
there are none. -/
structure FindsFirst (IsFirst : Set Nat → Nat → Prop) (positions : Set Nat) (found : Option Nat) :
    Prop where
  eq_some_iff : ∀ m, found = some m ↔ IsFirst positions m
  eq_none_iff : found = none ↔ ∀ m, m ∉ positions

lemma findsFirst_of_iff {IsFirst : Set Nat → Nat → Prop} {positions : Set Nat} {found : Option Nat}
    (hfound : ∀ m, found = some m ↔ IsFirst positions m)
    (hmem : ∀ m, IsFirst positions m → m ∈ positions)
    (hfirst : positions.Nonempty → ∃ m, IsFirst positions m) :
    FindsFirst IsFirst positions found := by
  refine ⟨hfound, ?_, ?_⟩
  · intro hnone m hm
    obtain ⟨first, hisFirst⟩ := hfirst ⟨m, hm⟩
    rw [← hfound, hnone] at hisFirst
    cases hisFirst
  · intro hempty
    cases hm : found with
    | none => rfl
    | some m => exact absurd (hmem m ((hfound m).mp hm)) (hempty m)

/-- A character that would have to close itself only raises the balance. -/
lemma balanceAt?_self (c : Char) (depth : Nat) (text : Text) :
    balanceAt? c c depth text = none := by
  induction text generalizing depth with
  | nil => rfl
  | cons d rest ih =>
    by_cases hd : d = c <;> simp [balanceAt?, hd, ih]

section Search

variable {pairs : List BracketPair} {p : BracketPair} {text : Text} {anchor : Nat}

lemma findsFirst_right (hp : p.opener ≠ p.closer) (hpair : pairOf? pairs p.opener = some p)
    (hanchor : text[anchor]? = some p.opener) :
    FindsFirst IsLeast {m | anchor < m ∧ m < text.length ∧ p.IsBalancedBetween text anchor m}
      (partnerOf? pairs text anchor) := by
  refine findsFirst_of_iff (fun m => ?_) (fun _ hm => hm.1) ?_
  · rw [partnerOf?_of_opener hpair hanchor, BracketPair.search_right hp hanchor,
      BracketPair.encloses_iff_isLeast hp hanchor]
  · exact BddBelow.exists_isLeast_of_nonempty (OrderBot.bddBelow _)

lemma findsFirst_left (hp : p.opener ≠ p.closer) (hpair : pairOf? pairs p.closer = some p)
    (hanchor : text[anchor]? = some p.closer) :
    FindsFirst IsGreatest {m | m < anchor ∧ p.IsBalancedBetween text anchor m}
      (partnerOf? pairs text anchor) := by
  refine findsFirst_of_iff (fun m => ?_) (fun _ hm => hm.1) ?_
  · rw [partnerOf?_of_closer hpair hp hanchor, BracketPair.search_left hp hanchor,
      BracketPair.encloses_iff_isGreatest hp hanchor]
  · exact BddAbove.exists_isGreatest_of_nonempty ⟨anchor, fun _ hm => hm.1.le⟩

end Search

/-- The partner of a bracket is the nearest position, to the right of an opening bracket and to the
left of a closing one, such that both brackets of the first pair that has it stand equally often
from the one to the other. Where there is no such position, at other characters, and where the two
brackets of the pair are the same, there is no partner. The search that finds it counts from one to
zero and never below. -/
theorem partner_nearest_balance (pairs : List BracketPair) (text : Text) (anchor : Nat) :
    (text[anchor]? = none → partnerOf? pairs text anchor = none) ∧
    ∀ c, text[anchor]? = some c →
      (pairOf? pairs c = none → partnerOf? pairs text anchor = none) ∧
      ∀ p, pairOf? pairs c = some p →
        (p.opener = p.closer → partnerOf? pairs text anchor = none) ∧
        (p.opener ≠ p.closer → c = p.opener → FindsFirst IsLeast
          {m | anchor < m ∧ m < text.length ∧ p.IsBalancedBetween text anchor m}
          (partnerOf? pairs text anchor)) ∧
        (p.opener ≠ p.closer → c = p.closer → FindsFirst IsGreatest
          {m | m < anchor ∧ p.IsBalancedBetween text anchor m} (partnerOf? pairs text anchor)) ∧
        ∃ other, p.partner? c = some other ∧
          let ahead := if c = p.opener then text.drop (anchor + 1) else (text.take anchor).reverse
          let counts := searchCounts c other 1 ahead
          (∀ n ∈ counts, 0 ≤ n) ∧
          partnerOf? pairs text anchor = (counts.findIdx? (· == 0)).map fun i =>
            if c = p.opener then anchor + 1 + i else anchor - 1 - i := by
  refine ⟨fun hnone => by simp [partnerOf?, hnone], ?_⟩
  intro c hc
  refine ⟨fun hnone => by simp [partnerOf?, hc, hnone], ?_⟩
  intro p hpair
  have hpc : c = p.opener ∨ c = p.closer := (p.has_iff c).mp (mem_and_has_of_pairOf? hpair).2
  have hpartner : ∃ other, p.partner? c = some other := by
    rw [← Option.isSome_iff_exists, p.partner?_isSome, p.has_iff]
    exact hpc
  obtain ⟨other, hother⟩ := hpartner
  have hsearch : partnerOf? pairs text anchor = if c = p.opener
      then (balanceAt? c other 1 (text.drop (anchor + 1))).map (anchor + 1 + ·)
      else (balanceAt? c other 1 (text.take anchor).reverse).map (anchor - 1 - ·) := by
    simp [partnerOf?, hc, hpair, hother]
  refine ⟨?_, ?_, ?_, other, hother, searchCounts_nonneg c other Int.one_pos _, ?_⟩
  · intro hsame
    have hopener : c = p.opener := by simpa [hsame] using hpc
    have hself : other = c := by
      simpa [BracketPair.partner?, hopener, ← hsame, eq_comm] using hother
    rw [hsearch, if_pos hopener, hself, balanceAt?_self, Option.map_none]
  · rintro hne rfl
    exact findsFirst_right hne hpair hc
  · rintro hne rfl
    exact findsFirst_left hne hpair hc
  · have hcounts := balanceAt?_eq_findIdx? c other Nat.one_pos
    rw [hsearch, hcounts, hcounts]
    split <;> rfl

/-- A bracket that two pairs share is matched in the first of them, and one that closes only the
second in that one. -/
theorem partner_nearest_balance_shared :
    let pairs : List BracketPair := [⟨'(', ')'⟩, ⟨'(', ']'⟩, ⟨'|', '|'⟩]
    let text := "((])|)|".toList
    partnerOf? pairs text 0 = some 5 ∧
    IsLeast {m | 0 < m ∧ m < text.length ∧ BracketPair.IsBalancedBetween ⟨'(', ')'⟩ text 0 m} 5 ∧
    partnerOf? pairs text 2 = some 1 ∧
    IsGreatest {m | m < 2 ∧ BracketPair.IsBalancedBetween ⟨'(', ']'⟩ text 2 m} 1 ∧
    partnerOf? pairs text 4 = none ∧ partnerOf? pairs text 7 = none := by
  intro pairs text
  have hright : partnerOf? pairs text 0 = some 5 := by decide
  have hleft : partnerOf? pairs text 2 = some 1 := by decide
  obtain ⟨-, hopening⟩ := partner_nearest_balance pairs text 0
  obtain ⟨-, hclosing⟩ := partner_nearest_balance pairs text 2
  obtain ⟨-, hboth⟩ := partner_nearest_balance pairs text 4
  refine ⟨hright, ?_, hleft, ?_, ?_, (partner_nearest_balance pairs text 7).1 (by decide)⟩
  · obtain ⟨-, hpair⟩ := hopening '(' (by decide)
    exact (((hpair ⟨'(', ')'⟩ (by decide)).2.1 (by decide) rfl).eq_some_iff 5).mp hright
  · obtain ⟨-, hpair⟩ := hclosing ']' (by decide)
    exact (((hpair ⟨'(', ']'⟩ (by decide)).2.2.1 (by decide) rfl).eq_some_iff 1).mp hleft
  · obtain ⟨-, hpair⟩ := hboth '|' (by decide)
    exact (hpair ⟨'|', '|'⟩ (by decide)).1 rfl

end EditingEngine
