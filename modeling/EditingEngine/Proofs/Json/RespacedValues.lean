import EditingEngine.Json.Forms
import EditingEngine.Proofs.Json.RespacedTokens
import Mathlib.Data.List.DropRight

/-!
# Values in respaced texts

Every reader of values first skips space, and then its parts are words, numbers, strings and
single characters with space between them. So it reads the same value from respaced texts. The
bounds on its steps stand in no one's way, as they come from the length of the text at hand and
are large enough for each of the two texts.
-/
namespace EditingEngine.Json

open Text (isBlank)

/-- A reader of values takes a character off the front at least, the first one behind the space,
and reads the same from texts that start the same. -/
structure IgnoresEdges {α : Type} (read : Reader α) : Prop where
  takes : ∀ {t x rest}, read t = .ok (x, rest) →
    ∃ c r, skipSpace t = c :: r ∧ isBlank c = false ∧ rest.length ≤ r.length
  respaced : ∀ {t u}, SameStart t u → ∀ {x rest}, read t = .ok (x, rest) →
    ∃ rest', read u = .ok (x, rest') ∧ Respaced rest rest'

lemma IgnoresEdges.length_lt {α : Type} {read : Reader α} (h : IgnoresEdges read)
    {t rest : Text} {x : α} (hread : read t = .ok (x, rest)) : rest.length < t.length := by
  obtain ⟨c, r, ht, -, hle⟩ := h.takes hread
  have hlt := length_lt_of_skipSpace ht
  omega

lemma skipSpace_skipSpace (t : Text) : skipSpace (skipSpace t) = skipSpace t :=
  List.dropWhile_idempotent isSpace t

lemma SameStart.skipSpace {t u : Text} (h : SameStart t u) :
    SameStart (skipSpace t) (skipSpace u) :=
  h.of_skipSpace_eq (skipSpace_skipSpace t) (skipSpace_skipSpace u)

section scalars

variable {t u rest : Text}

lemma readColon_follows : SkipFollows readColon := by
  intro t u h rest hread
  unfold readColon at hread
  split at hread
  · cases hread
  · next r ht =>
    cases hread
    obtain ⟨s, hu, hrest⟩ := h.sameStart.of_eq_cons ht (by decide)
    exact ⟨s, by simp [readColon, hu], hrest⟩
  · cases hread

/-- A word is found in both texts. -/
lemma SameStart.word {c : Char} {r word : Text} (h : SameStart t u) (ht : Json.skipSpace t = c :: r)
    (hword : (c :: word).any isBlank = false) (hread : readWord word r = .ok rest) :
    ∃ s rest', Json.skipSpace u = c :: s ∧ readWord word s = .ok rest' ∧ Respaced rest rest' := by
  rw [List.any_cons, Bool.or_eq_false_iff] at hword
  obtain ⟨s, hu, hr⟩ := h.of_eq_cons ht hword.1
  obtain ⟨rest', hread', hrest⟩ := readWord_follows hword.2 hr hread
  exact ⟨s, rest', hu, hread', hrest⟩

lemma skipName_respaced (h : SameStart t u) (hread : skipName t = .ok rest) :
    ∃ rest', skipName u = .ok rest' ∧ Respaced rest rest' := by
  unfold skipName at hread
  split at hread
  · cases hread
  · next r ht =>
    obtain ⟨s, hu, hr⟩ := h.of_eq_cons ht (by decide)
    obtain ⟨r', hchars, hcolon⟩ := bind_eq_ok.mp hread
    obtain ⟨s', hchars', hr'⟩ := skipChars_follows hr hchars
    obtain ⟨rest', hcolon', hrest⟩ := readColon_follows hr' hcolon
    exact ⟨rest', by simp [skipName, hu, hchars', hcolon', bind, Except.bind], hrest⟩
  · cases hread

lemma skipScalar_respaced {c : Char} {r s : Text} (hr : Respaced r s)
    (hread : skipScalar c r = .ok rest) :
    isBlank c = false ∧ ∃ rest', skipScalar c s = .ok rest' ∧ Respaced rest rest' := by
  unfold skipScalar at hread
  split at hread
  · exact ⟨by decide, readWord_follows (by decide) hr hread⟩
  · exact ⟨by decide, readWord_follows (by decide) hr hread⟩
  · exact ⟨by decide, readWord_follows (by decide) hr hread⟩
  · exact ⟨by decide, skipChars_follows hr hread⟩
  · next hn ht hf hquote =>
    split at hread
    · next hc =>
      have hblank : isBlank c = false := by
        simp only [Bool.or_eq_true, beq_iff_eq] at hc
        rcases hc with rfl | hdigit
        · decide
        · exact isBlank_of_isDigit hdigit
      refine ⟨hblank, ?_⟩
      rw [skipScalar, if_pos hc]
      · exact skipNumber_follows (hr.cons c) hread
      all_goals assumption
    · cases hread

/-- What a part starts with is no blank. -/
lemma Skips.takes {part : Part} (h : Skips part t rest) :
    ∃ c r, Json.skipSpace t = c :: r ∧ isBlank c = false := by
  induction h with
  | scalar ht _ _ h => exact ⟨_, _, ht, (skipScalar_respaced (.refl _) h).1⟩
  | emptyList ht | list ht | emptyObject ht | object ht => exact ⟨_, _, ht, by decide⟩
  | lastItem _ _ ih | nextItem _ _ _ ih => exact ih
  | lastMember hname | nextMember hname =>
    unfold skipName at hname
    split at hname
    · cases hname
    · next r ht => exact ⟨_, r, ht, by decide⟩
    · cases hname

lemma Skips.respaced {part : Part} (h : Skips part t rest) (hstart : SameStart t u) :
    ∃ rest', Skips part u rest' ∧ Respaced rest rest' := by
  induction h generalizing u with
  | scalar ht hlist hobject h =>
    obtain ⟨s, hu, hs⟩ := hstart.of_eq_cons ht (skipScalar_respaced (.refl _) h).1
    obtain ⟨-, rest', h', hrest⟩ := skipScalar_respaced hs h
    exact ⟨rest', .scalar hu hlist hobject h', hrest⟩
  | emptyList ht hr =>
    obtain ⟨s, hu, hs⟩ := hstart.of_eq_cons ht (by decide)
    obtain ⟨rest', hs', hrest⟩ := hs.sameStart.of_eq_cons hr (by decide)
    exact ⟨rest', .emptyList hu hs', hrest⟩
  | emptyObject ht hr =>
    obtain ⟨s, hu, hs⟩ := hstart.of_eq_cons ht (by decide)
    obtain ⟨rest', hs', hrest⟩ := hs.sameStart.of_eq_cons hr (by decide)
    exact ⟨rest', .emptyObject hu hs', hrest⟩
  | list ht hr h ih =>
    obtain ⟨s, hu, hs⟩ := hstart.of_eq_cons ht (by decide)
    obtain ⟨rest', hitems, hrest⟩ := ih hs.sameStart.skipSpace
    obtain ⟨c, r', hr', hc⟩ := h.takes
    rw [skipSpace_skipSpace] at hr'
    exact ⟨rest', .list hu (hs.sameStart.ne_cons hr' hc hr) hitems, hrest⟩
  | object ht hr h ih =>
    obtain ⟨s, hu, hs⟩ := hstart.of_eq_cons ht (by decide)
    obtain ⟨rest', hmembers, hrest⟩ := ih hs.sameStart.skipSpace
    obtain ⟨c, r', hr', hc⟩ := h.takes
    rw [skipSpace_skipSpace] at hr'
    exact ⟨rest', .object hu (hs.sameStart.ne_cons hr' hc hr) hmembers, hrest⟩
  | lastItem h hr ih =>
    obtain ⟨s, hvalue, hs⟩ := ih hstart
    obtain ⟨rest', hs', hrest⟩ := hs.sameStart.of_eq_cons hr (by decide)
    exact ⟨rest', .lastItem hvalue hs', hrest⟩
  | nextItem h hr _ ih ihs =>
    obtain ⟨s, hvalue, hs⟩ := ih hstart
    obtain ⟨r', hs', hr'⟩ := hs.sameStart.of_eq_cons hr (by decide)
    obtain ⟨rest', hitems, hrest⟩ := ihs hr'.sameStart
    exact ⟨rest', .nextItem hvalue hs' hitems, hrest⟩
  | lastMember hname h hr ih =>
    obtain ⟨v, hname', hv⟩ := skipName_respaced hstart hname
    obtain ⟨s, hvalue, hs⟩ := ih hv.sameStart
    obtain ⟨rest', hs', hrest⟩ := hs.sameStart.of_eq_cons hr (by decide)
    exact ⟨rest', .lastMember hname' hvalue hs', hrest⟩
  | nextMember hname h hr _ ih ihs =>
    obtain ⟨v, hname', hv⟩ := skipName_respaced hstart hname
    obtain ⟨s, hvalue, hs⟩ := ih hv.sameStart
    obtain ⟨r', hs', hr'⟩ := hs.sameStart.of_eq_cons hr (by decide)
    obtain ⟨rest', hmembers, hrest⟩ := ihs hr'.sameStart
    exact ⟨rest', .nextMember hname' hvalue hs' hmembers, hrest⟩

end scalars

section

variable {α : Type}

lemma found_eq_ok_iff {values : List α} {p : α → Bool} {x : α} {fault : Fault} :
    (match values.find? p with
      | some value => Except.ok value
      | none => .error fault) = .ok x ↔ values.find? p = some x := by
  cases values.find? p <;> simp

/-- What a named value is read from. -/
lemma read_named_eq_ok_iff {values : List α} {name : α → Text} {t rest : Text} {x : α} :
    (Codec.named values name).read t = .ok (x, rest) ↔
      ∃ key, values.find? (name · == key) = some x ∧
        ((∃ r, skipSpace t = '"' :: r ∧ readChars r = .ok (key, rest)) ∨
          ∃ r r₁ r₂ r₃, skipSpace t = '{' :: r ∧ readName r = .ok (key, r₁) ∧
            readColon r₁ = .ok r₂ ∧ readNull r₂ = .ok r₃ ∧ skipSpace r₃ = '}' :: rest) := by
  constructor
  · intro hread
    simp only [Codec.named] at hread
    split at hread
    · cases hread
    · next r ht =>
      obtain ⟨⟨key, s⟩, hkey, hread⟩ := bind_eq_ok.mp hread
      obtain ⟨value, hvalue, hx⟩ := bind_eq_ok.mp hread
      cases hx
      exact ⟨key, found_eq_ok_iff.mp hvalue, Or.inl ⟨r, ht, hkey⟩⟩
    · next r ht =>
      obtain ⟨⟨key, r₁⟩, hkey, hread⟩ := bind_eq_ok.mp hread
      obtain ⟨value, hvalue, hread⟩ := bind_eq_ok.mp hread
      obtain ⟨r₂, hcolon, hread⟩ := bind_eq_ok.mp hread
      obtain ⟨r₃, hnull, hread⟩ := bind_eq_ok.mp hread
      split at hread
      · cases hread
      · next s hs =>
        cases hread
        exact ⟨key, found_eq_ok_iff.mp hvalue, Or.inr ⟨r, r₁, r₂, r₃, ht, hkey, hcolon, hnull, hs⟩⟩
      · cases hread
    · cases hread
  · rintro ⟨key, hvalue, ⟨r, ht, hchars⟩ | ⟨r, r₁, r₂, r₃, ht, hkey, hcolon, hnull, hr₃⟩⟩
    · simp [Codec.named, ht, hchars, hvalue, bind, Except.bind, pure, Except.pure]
    · simp [Codec.named, ht, hkey, hvalue, hcolon, hnull, hr₃, bind, Except.bind, pure, Except.pure]

end

end EditingEngine.Json
