import EditingEngine.Json.Codec
import EditingEngine.Proofs.Json.SpelledTokens

/-!
# What values are read from

What a codec reads from a text depends on nothing but the tree that the text stands for. Nothing is
read if the tree has another shape, and every spelling of a tree of the right shape is read.
-/
namespace EditingEngine.Json

variable {α : Type}

namespace Tree

/-- The natural number that is written, if it is a count. -/
def count? : Tree → Option Nat
  | number x => x.count?
  | _ => none

def text? : Tree → Option Text
  | string text => text
  | _ => none

/-- The only character of a string. -/
def char? (v : Tree) : Option Char :=
  match v.text? with
  | some [c] => some c
  | _ => none

/-- A value that may be null. -/
def nullable? (decode : Tree → Option α) : Tree → Option (Option α)
  | null => some none
  | v => (decode v).map some

def list? (decode : Tree → Option α) : Tree → Option (List α)
  | list vs => vs.mapM decode
  | _ => none

/-- A name by itself, or as the only member of an object, with null. -/
def name? : Tree → Option Text
  | string text => text
  | object [(name, null)] => name
  | _ => none

end Tree

/-- A codec reads what a tree is decoded to from each of its texts, and leaves what is behind it. If
the tree is not decoded, nothing is read. -/
def Codec.Decodes (codec : Codec α) (decode : Tree → Option α) : Prop :=
  ∀ ⦃v t u rest⦄, Spells (.value v) t → skipSpace u = t ++ rest → EndsNumber rest →
    (codec.read u).toOption = (decode v).map (·, rest)

lemma toOption_bind {ε β : Type} (x : Except ε α) (f : α → Except ε β) :
    (x >>= f).toOption = x.toOption.bind fun a => (f a).toOption := by
  cases x <;> rfl

namespace Codec

theorem decodes_count : count.Decodes Tree.count? := by
  intro v t u rest h hu hrest
  change (readCount u).toOption = _
  cases h with
  | @number x _ h =>
    obtain ⟨c, r, rfl, hc⟩ := h.head
    have hread := readNumber_spelled h hrest
    rw [List.cons_append] at hu hread
    rcases hc with ⟨hsign, rfl⟩ | ⟨-, hdigit⟩
    · have hnone : x.count? = none := by simp [Numeral.count?, hsign]
      simp [readCount, hu, Tree.count?, hnone]
      rfl
    · cases hlarge : overflows x.scientific.1 x.scientific.2 with
      | true =>
        have hnone : x.count? = none := by
          refine Option.eq_none_iff_forall_ne_some.mpr fun n hn => ?_
          rw [overflows_of_count? hn] at hlarge
          cases hlarge
        simp [readCount, hu, hdigit, hread, hlarge, Tree.count?, hnone, bind, Except.bind]
        rfl
      | false =>
        simp only [readCount, hu, hdigit, hread, hlarge, Bool.false_eq_true, if_true, if_false,
          bind, Except.bind, Tree.count?]
        cases x.count? <;> rfl
  | _ =>
    simp [readCount, hu]
    rfl

theorem decodes_text : text.Decodes Tree.text? := by
  intro v t u rest h hu hrest
  change (readText u).toOption = _
  cases h with
  | string h =>
    rw [List.cons_append, List.append_assoc] at hu
    simp only [readText, hu]
    exact readChars_spelled rest h
  | number h =>
    obtain ⟨c, r, rfl, -⟩ := h.head
    have hquote : c ≠ '"' := h.head_ne (by decide) (by decide)
    simp [readText, hu, hquote, Tree.text?]
    rfl
  | _ =>
    simp [readText, hu]
    rfl

theorem decodes_char : char.Decodes Tree.char? := by
  intro v t u rest h hu hrest
  change (readChar u).toOption = _
  have htext : (readText u).toOption = _ := decodes_text h hu hrest
  rw [readChar, toOption_bind, htext, Option.bind_map]
  unfold Tree.char?
  cases v.text? with
  | none => rfl
  | some s =>
    match s with
    | [] | [c] | _ :: _ :: _ => rfl

theorem Decodes.option {codec : Codec α} {decode : Tree → Option α}
    (hcodec : codec.Decodes decode) : codec.option.Decodes (Tree.nullable? decode) := by
  intro v t u rest h hu hrest
  by_cases hnull : v = .null
  · subst hnull
    cases h
    simp [Codec.option, hu, readWord]
    rfl
  · obtain ⟨c, r, rfl, hspace, -, hletter⟩ := h.head_value
    have hc : c ≠ 'n' := fun hc => hnull (hletter hc)
    rw [List.cons_append] at hu
    have hread : (codec.read (c :: (r ++ rest))).toOption = _ :=
      hcodec h (skipSpace_of_not_isSpace hspace _) hrest
    have hvalue : v.nullable? decode = (decode v).map some := by
      cases v <;> first | rfl | exact absurd rfl hnull
    have hoption : codec.option.read u =
        codec.read (c :: (r ++ rest)) >>= fun x => .ok (some x.1, x.2) := by
      simp only [Codec.option, hu]
      split
      · next heq => exact absurd (List.cons.inj heq).1 hc
      · rfl
    rw [hoption, toOption_bind, hread, hvalue, Option.bind_map, Option.map_map]
    cases decode v <;> rfl

/-- Items are read one after the other. The bound must be large enough for their number. -/
lemma Decodes.readItems {codec : Codec α} {decode : Tree → Option α} (hcodec : codec.Decodes decode)
    {vs : List Tree} {t : Text} (h : Spells (.items vs) t) {bound : Nat}
    (hbound : vs.length ≤ bound) {u rest : Text} (hu : skipSpace u = skipSpace (t ++ rest)) :
    (readItems codec.read bound u).toOption = (vs.mapM decode).map (·, rest) := by
  generalize hnode : Node.items vs = node at h
  induction h generalizing vs bound u with
  | @lastItem v _ _ _ hs h hs' =>
    cases hnode
    simp only [List.append_assoc, List.cons_append, List.nil_append, skipSpace_append hs,
      h.skipSpace_value] at hu
    obtain ⟨hends, hmark⟩ := mark_behind hs' (Or.inr (Or.inl rfl)) rest
    cases bound with
    | zero => simp at hbound
    | succ bound =>
      rw [Json.readItems, toOption_bind, hcodec h hu hends, Option.bind_map, List.mapM_cons]
      simp only [Function.comp_def, hmark]
      cases decode v <;> rfl
  | @nextItem v vs _ _ _ more hs h hs' hmore _ ih =>
    cases hnode
    simp only [List.append_assoc, List.cons_append, skipSpace_append hs, h.skipSpace_value] at hu
    obtain ⟨hends, hmark⟩ := mark_behind hs' (Or.inl rfl) (more ++ rest)
    cases bound with
    | zero => simp at hbound
    | succ bound =>
      have hrest := ih (Nat.le_of_succ_le_succ hbound) rfl rfl
      rw [Json.readItems, toOption_bind, hcodec h hu hends, Option.bind_map, List.mapM_cons]
      simp only [Function.comp_def, hmark, toOption_bind, hrest, Option.bind_map]
      cases decode v with
      | none => rfl
      | some x => cases vs.mapM decode <;> rfl
  | _ => cases hnode

theorem Decodes.list {codec : Codec α} {decode : Tree → Option α} (hcodec : codec.Decodes decode) :
    codec.list.Decodes (Tree.list? decode) := by
  intro v t u rest h hu hrest
  change (readList codec.read u).toOption = _
  cases h with
  | emptyList hs =>
    rw [List.cons_append, List.append_assoc] at hu
    have hclosing := skipSpace_spaces hs (by decide : isSpace ']' = false) rest
    simp [readList, hu, hclosing]
    rfl
  | list h =>
    rw [List.cons_append] at hu
    have hread := hcodec.readItems h (h.size_le rest) (skipSpace_skipSpace (_ ++ rest))
    simp only [readList, hu]
    split
    · next hnil =>
      rw [hnil] at hread
      exact hread
    · next r hr => exact absurd hr (h.ne_closing rest r)
    · exact hread
  | number h =>
    obtain ⟨c, r, rfl, -⟩ := h.head
    have hbracket : c ≠ '[' := h.head_ne (by decide) (by decide)
    simp [readList, hu, hbracket, Tree.list?]
    rfl
  | _ =>
    simp [readList, hu]
    rfl

/-- A null is read as such, and no other value is. -/
lemma readNull_spelled {v : Tree} {t u rest : Text} (h : Spells (.value v) t)
    (hu : skipSpace u = t ++ rest) :
    v = .null ∧ (readNull u).toOption = some rest ∨ v ≠ .null ∧ (readNull u).toOption = none := by
  by_cases hnull : v = .null
  · subst hnull
    cases h
    exact Or.inl ⟨rfl, by simp [readNull, hu, readWord]; rfl⟩
  · obtain ⟨c, r, rfl, -, -, hletter⟩ := h.head_value
    have hc : c ≠ 'n' := fun hc => hnull (hletter hc)
    refine Or.inr ⟨hnull, ?_⟩
    simp [readNull, hu, hc]
    rfl

/-- The name of a member is read up to its colon. -/
lemma readName_spelled {name : Option Text} {raw u more : Text} (h : SpellsChars name raw)
    (hu : skipSpace u = '"' :: (raw ++ '"' :: more)) :
    (readName u).toOption = name.map (·, more) := by
  simp only [readName, hu]
  exact readChars_spelled more h

/-- Of an object the first member is read. It must be a name with null, and the last one. -/
lemma named_member {values : List α} {name : α → Text} {key : Option Text} {v : Tree}
    {t u r more rest : Text} {mark : Char} (h : Spells (.member (key, v)) t)
    (hu : skipSpace u = '{' :: r) (hr : skipSpace r = t ++ more)
    (hmore : skipSpace more = mark :: rest) :
    ((named values name).read u).toOption =
      (Tree.object [(key, v)]).name?.bind fun key => (values.find? (name · == key)).bind fun x =>
        if mark = '}' then some (x, rest) else none := by
  cases h with
  | @member key raw s s' v t hname hs hs' h =>
    simp only [List.cons_append, List.append_assoc] at hr
    have hread := readName_spelled hname hr
    have hcolon : (readColon (s ++ ':' :: (s' ++ (t ++ more)))).toOption = some _ :=
      congrArg Except.toOption (readColon_spaces hs _)
    have hvalue := readNull_spelled h ((skipSpace_append hs' _).trans (h.skipSpace_value more))
    simp only [named, hu, toOption_bind, hread, Option.bind_map, Function.comp_def, hcolon]
    cases key with
    | none => cases v <;> rfl
    | some key =>
      simp only [Option.bind_some]
      rcases hvalue with ⟨rfl, hnull⟩ | ⟨hne, hnull⟩
      · have hkey : (Tree.object [(some key, .null)]).name? = some key := rfl
        simp only [hkey, Option.bind_some, hnull]
        cases values.find? fun x => name x == key with
        | none => rfl
        | some x =>
          change Except.toOption _ = _
          rw [hmore, Option.bind_some]
          by_cases hmark : mark = '}'
          · subst hmark
            rfl
          · simp [hmark]
            rfl
      · have hkey : (Tree.object [(some key, v)]).name? = none := by
          cases v <;> first | rfl | exact absurd rfl hne
        simp only [hkey, Option.bind_none, hnull]
        cases values.find? fun x => name x == key <;> rfl

theorem decodes_named (values : List α) (name : α → Text) :
    (named values name).Decodes fun v => v.name?.bind fun key => values.find? (name · == key) := by
  intro v t u rest h hu hrest
  cases h with
  | @string key raw h =>
    rw [List.cons_append, List.append_assoc] at hu
    simp only [named, hu, toOption_bind]
    rw [List.cons_append, List.nil_append, readChars_spelled rest h, Option.bind_map]
    cases key with
    | none => rfl
    | some key =>
      simp only [Function.comp_def, Option.bind_some, Tree.name?]
      cases values.find? fun x => name x == key <;> rfl
  | emptyObject hs =>
    rw [List.cons_append, List.append_assoc] at hu
    have hclosing := skipSpace_spaces hs (by decide : isSpace '}' = false) rest
    simp [named, hu, readName, hclosing]
    rfl
  | object h =>
    cases h with
    | lastMember hs h hs' =>
      obtain ⟨-, hmark⟩ := mark_behind hs' (Or.inr (Or.inr rfl)) rest
      simp only [List.cons_append, List.append_assoc, List.nil_append] at hu
      rw [named_member h hu ((skipSpace_append hs _).trans (h.skipSpace_member _)) hmark,
        Option.map_bind]
      refine Option.bind_congr fun key _ => ?_
      exact Option.map_eq_bind.symm
    | @nextMember m ms _ _ _ more hs h hs' hmore =>
      obtain ⟨-, hmark⟩ := mark_behind hs' (Or.inl rfl) (more ++ rest)
      simp only [List.cons_append, List.append_assoc] at hu
      have hname : (Tree.object (m :: ms)).name? = none := by
        cases hmore <;> simp [Tree.name?]
      rw [named_member h hu ((skipSpace_append hs _).trans (h.skipSpace_member _)) hmark]
      simp [hname]
  | number h =>
    obtain ⟨c, r, rfl, -⟩ := h.head
    have hbracket : c ≠ '{' := h.head_ne (by decide) (by decide)
    have hquote : c ≠ '"' := h.head_ne (by decide) (by decide)
    simp [named, hu, Tree.name?]
    rfl
  | _ =>
    simp [named, hu]
    rfl

end Codec

end EditingEngine.Json
