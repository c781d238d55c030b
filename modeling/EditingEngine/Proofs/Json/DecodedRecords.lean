import EditingEngine.Proofs.Json.DecodedValues
import EditingEngine.Proofs.Json.WrittenValues

/-!
# What records are read from

The members of an object fill the slots of a record one by one, and the elements of a list fill them
in order. What comes out is the same for every order of the members: each field is decoded from the
value of the member with its name, if there is one such member, and members of other names do not
matter at all.
-/
namespace EditingEngine.Json

/-- The values of the members with a name. -/
def valuesNamed (ms : List (Option Text × Tree)) (name : Text) : List Tree :=
  (ms.filter fun m => m.1 = some name).map Prod.snd

namespace Tree

/-- The values that a field is decoded from: those of the members with its name, or the element in
its place. -/
def fieldValues (v : Tree) (index : Nat) (name : Text) : List Tree :=
  match v with
  | object ms => valuesNamed ms name
  | list vs => vs[index]?.toList
  | _ => []

/-- What a field is decoded to. There must not be two values for it, and there may be none if a
value stands for a missing member. -/
def field? {α : Type} (v : Tree) (index : Nat) (name : Text) (decode : Tree → Option α)
    (default? : Option α) : Option α :=
  match v.fieldValues index name with
  | [] => default?
  | [w] => decode w
  | _ => none

/-- Whether this is an object with texts for its names, or a list with so many elements. -/
def isRecord (v : Tree) (size : Nat) (shortLists : Bool) : Bool :=
  match v with
  | object ms => ms.all (·.1.isSome)
  | list vs => vs.length == size || shortLists && decide (vs.length < size)
  | _ => false

end Tree

/-- What the values of each type are decoded from. -/
def Decoders : List Type → Type
  | [] => Unit
  | α :: types => (Tree → Option α) × Decoders types

def Row.cons {α : Type} {types : List Type} (x : α) (row : Row types) : Row (α :: types) := (x, row)

def Slots.cons {α : Type} {types : List Type} (slot : Option α) (slots : Slots types) :
    Slots (α :: types) := (slot, slots)

/-- The slot with one more value for it. No slot is filled twice. -/
def enterSlot {α : Type} (decode : Tree → Option α) (v : Tree) : Option α → Option (Option α)
  | some _ => none
  | none => (decode v).map some

/-- A slot for so many values. -/
def slot? {α : Type} (decode : Tree → Option α) : List Tree → Option (Option α)
  | [] => some none
  | [v] => (decode v).map some
  | _ => none

lemma slot?_concat {α : Type} (decode : Tree → Option α) (vs : List Tree) (v : Tree) :
    slot? decode (vs ++ [v]) = (slot? decode vs).bind (enterSlot decode v) := by
  match vs with
  | [] => rfl
  | [w] => cases h : decode w <;> simp [slot?, enterSlot, h]
  | w :: w' :: vs => rfl

lemma valuesNamed_concat (ms : List (Option Text × Tree)) (name key : Text) (v : Tree) :
    valuesNamed (ms ++ [(some key, v)]) name =
      valuesNamed ms name ++ if key = name then [v] else [] := by
  by_cases h : key = name <;> simp [valuesNamed, List.filter_append, h]

namespace Fields

variable {types : List Type}

/-- Each codec reads what its decoder makes of a tree. -/
def DecodedBy : {types : List Type} → Fields types → Decoders types → Prop
  | _, nil, () => True
  | _, cons field rest, (decode, decoders) => field.codec.Decodes decode ∧ rest.DecodedBy decoders

def size : {types : List Type} → Fields types → Nat
  | _, nil => 0
  | _, cons _ rest => rest.size + 1

/-- The row of the fields of a tree. The index is the place of the first field. -/
def row? : {types : List Type} → Fields types → Decoders types → Tree → Nat → Option (Row types)
  | _, nil, (), _, _ => some ()
  | _, cons field rest, (decode, decoders), v, index =>
    (v.field? index field.name decode field.default?).bind fun x =>
      (rest.row? decoders v (index + 1)).map (Row.cons x)

/-- The slots with the value of one more member. -/
def enter : {types : List Type} → Fields types → Decoders types → Text → Tree → Slots types →
    Option (Slots types)
  | _, nil, (), _, _, () => some ()
  | _, cons field rest, (decode, decoders), name, v, (slot, slots) =>
    if name = field.name then (enterSlot decode v slot).map (Slots.cons · slots)
    else (rest.enter decoders name v slots).map (Slots.cons slot)

/-- The slots with the value of a member whose name may be no text. -/
def enterMember (fields : Fields types) (decoders : Decoders types) (slots : Slots types)
    (m : Option Text × Tree) : Option (Slots types) :=
  m.1.bind fun name => fields.enter decoders name m.2 slots

/-- The slots of all fields, each from the members with its name. -/
def collect : {types : List Type} → Fields types → Decoders types → List (Option Text × Tree) →
    Option (Slots types)
  | _, nil, (), _ => some ()
  | _, cons field rest, (decode, decoders), ms =>
    (slot? decode (valuesNamed ms field.name)).bind fun slot =>
      (rest.collect decoders ms).map (Slots.cons slot)

section Objects

variable {fields : Fields types} {decoders : Decoders types}

lemma collect_nil : fields.collect decoders [] = some (Slots.empty types) := by
  induction fields with
  | nil => rfl
  | cons field fields ih =>
    obtain ⟨decode, decoders⟩ := decoders
    rw [collect, ih]
    rfl

/-- A member that is no field is skipped. -/
lemma collect_concat_of_notMem {name : Text} (hname : name ∉ fields.names)
    (ms : List (Option Text × Tree)) (v : Tree) :
    fields.collect decoders (ms ++ [(some name, v)]) = fields.collect decoders ms := by
  induction fields with
  | nil => rfl
  | cons field fields ih =>
    obtain ⟨decode, decoders⟩ := decoders
    rw [names, List.mem_cons, not_or] at hname
    simp only [collect, valuesNamed_concat, if_neg hname.1, List.append_nil, ih hname.2]

lemma collect_concat (hnames : fields.names.Nodup) (ms : List (Option Text × Tree)) (name : Text)
    (v : Tree) :
    fields.collect decoders (ms ++ [(some name, v)]) =
      (fields.collect decoders ms).bind (fields.enter decoders name v) := by
  induction fields with
  | nil => rfl
  | cons field fields ih =>
    obtain ⟨decode, decoders⟩ := decoders
    obtain ⟨hfield, hnames⟩ := List.nodup_cons.mp hnames
    have henter : ∀ slot slots, (cons field fields).enter (decode, decoders) name v
        (Slots.cons slot slots) = if name = field.name
          then (enterSlot decode v slot).map (Slots.cons · slots)
          else (fields.enter decoders name v slots).map (Slots.cons slot) := fun _ _ => rfl
    simp only [collect, valuesNamed_concat]
    by_cases hname : name = field.name
    · rw [hname] at henter ⊢
      rw [collect_concat_of_notMem hfield, if_pos rfl, slot?_concat]
      cases slot? decode (valuesNamed ms field.name) with
      | none => rfl
      | some slot =>
        cases fields.collect decoders ms with
        | none => simp
        | some slots =>
          simp only [Option.bind_some, Option.map_some, henter, if_true]
          exact Option.map_eq_bind.symm
    · rw [if_neg hname, List.append_nil, ih hnames]
      cases slot? decode (valuesNamed ms field.name) with
      | none => rfl
      | some slot =>
        cases fields.collect decoders ms with
        | none => rfl
        | some slots => simp only [Option.bind_some, Option.map_some, henter, if_neg hname]

/-- The slots do not depend on the order in which the members are entered. -/
lemma foldlM_enterMember (hnames : fields.names.Nodup) (ms : List (Option Text × Tree)) :
    ms.foldlM (fields.enterMember decoders) (Slots.empty types) =
      if ms.all (·.1.isSome) then fields.collect decoders ms else none := by
  induction ms using List.reverseRecOn with
  | nil => exact collect_nil.symm
  | append_singleton ms m ih =>
    rw [List.foldlM_append, ih]
    obtain ⟨name | name, v⟩ := m
    · simp [enterMember]
    · rw [collect_concat hnames]
      by_cases hall : ms.all (·.1.isSome) = true
      · simp [hall, enterMember]
      · simp [hall]

lemma fill?_cons {α : Type} (field : Field α) (fields : Fields types) (slot : Option α)
    (slots : Slots types) : (cons field fields).fill? (Slots.cons slot slots) =
      (slot <|> field.default?).bind fun x => (fields.fill? slots).map (Row.cons x) := by
  simp only [Option.map_eq_bind]
  rfl

/-- Filling the slots gives what is decoded field by field. -/
lemma collect_bind_fill? (ms : List (Option Text × Tree)) (index : Nat) :
    (fields.collect decoders ms).bind fields.fill? = fields.row? decoders (.object ms) index := by
  induction fields generalizing index with
  | nil => rfl
  | cons field fields ih =>
    obtain ⟨decode, decoders⟩ := decoders
    rw [row?, ← ih (index + 1)]
    simp only [collect, Tree.field?, Tree.fieldValues]
    match valuesNamed ms field.name with
    | [] =>
      simp only [slot?, Option.bind_some]
      cases fields.collect decoders ms with
      | none => cases field.default? <;> rfl
      | some slots => simp [fill?_cons]
    | [w] =>
      simp only [slot?]
      cases decode w with
      | none => rfl
      | some x =>
        cases fields.collect decoders ms with
        | none => rfl
        | some slots => simp [fill?_cons]
    | w :: w' :: ws => rfl

/-- Reading a member enters its value. -/
lemma readMember_spelled (hfields : fields.DecodedBy decoders) {v : Tree} {s s' t rest : Text}
    (hs : IsSpaces s) (hs' : IsSpaces s') (h : Spells (.value v) t) (hrest : EndsNumber rest)
    (name : Text) (slots : Slots types) :
    (fields.readMember name slots (s ++ ':' :: (s' ++ (t ++ rest)))).toOption =
      (fields.enter decoders name v slots).map (·, rest) := by
  have hcolon : readColon (s ++ ':' :: (s' ++ (t ++ rest))) = _ := readColon_spaces hs _
  have hvalue : skipSpace (s' ++ (t ++ rest)) = t ++ rest :=
    (skipSpace_append hs' _).trans (h.skipSpace_value rest)
  induction fields with
  | nil =>
    have hskip := Skips.skipValue_eq_ok_iff.mpr (h.skipped _ _ hvalue hrest)
    simp only [readMember, hcolon, hskip, bind, Except.bind]
    rfl
  | cons field fields ih =>
    obtain ⟨decode, decoders⟩ := decoders
    obtain ⟨slot, slots⟩ := slots
    simp only [readMember, enter]
    by_cases hname : name = field.name
    · rw [if_pos hname, if_pos hname]
      cases slot with
      | some x => rfl
      | none =>
        have hread := hfields.1 h hvalue hrest
        simp only [hcolon, toOption_bind, enterSlot]
        change (field.codec.read (s' ++ (t ++ rest))).toOption.bind _ = _
        rw [hread]
        cases decode v <;> rfl
    · rw [if_neg hname, if_neg hname, toOption_bind, ih hfields.2]
      cases fields.enter decoders name v slots <;> rfl

/-- The first member is entered, and the mark behind it tells whether there are more. -/
lemma readMembers_cons (hfields : fields.DecodedBy decoders) {m : Option Text × Tree}
    {t u more rest : Text} {mark : Char} (h : Spells (.member m) t) (hu : skipSpace u = t ++ more)
    (hends : EndsNumber more) (hmore : skipSpace more = mark :: rest) (bound : Nat)
    (slots : Slots types) :
    (fields.readMembers (bound + 1) slots u).toOption =
      (fields.enterMember decoders slots m).bind fun next =>
        if mark = '}' then some (next, rest)
        else if mark = ',' then (fields.readMembers bound next rest).toOption
        else none := by
  cases h with
  | @member name raw s s' v t hname hs hs' h =>
    simp only [List.append_assoc, List.cons_append] at hu
    rw [readMembers, toOption_bind, Codec.readName_spelled hname hu, Option.bind_map]
    cases name with
    | none => rfl
    | some name =>
      simp only [Option.bind_some, Function.comp_def, toOption_bind, Option.bind_map, enterMember,
        readMember_spelled hfields hs hs' h hends, hmore]
      refine Option.bind_congr fun next _ => ?_
      split
      · next hnil => cases hnil
      · next hclose =>
        cases hclose
        rfl
      · next hcomma =>
        cases hcomma
        rfl
      · next hbrace hcomma hother =>
        cases hother
        rw [if_neg hbrace, if_neg hcomma]
        rfl

/-- Members are read one after the other. The bound must be large enough for their number. -/
lemma readMembers_spelled (hfields : fields.DecodedBy decoders) {ms : List (Option Text × Tree)}
    {t : Text} (h : Spells (.members ms) t) {bound : Nat} (hbound : ms.length ≤ bound)
    {u rest : Text} (hu : skipSpace u = skipSpace (t ++ rest)) (slots : Slots types) :
    (fields.readMembers bound slots u).toOption =
      (ms.foldlM (fields.enterMember decoders) slots).map (·, rest) := by
  generalize hnode : Node.members ms = node at h
  induction h generalizing ms bound u slots with
  | @lastMember m _ _ _ hs h hs' =>
    cases hnode
    obtain ⟨hends, hmark⟩ := mark_behind hs' (Or.inr (Or.inr rfl)) rest
    simp only [List.append_assoc, List.cons_append, List.nil_append, skipSpace_append hs,
      h.skipSpace_member] at hu
    cases bound with
    | zero => simp at hbound
    | succ bound =>
      rw [readMembers_cons hfields h hu hends hmark, List.foldlM_cons]
      cases fields.enterMember decoders slots m <;> rfl
  | @nextMember m _ _ _ _ more hs h hs' hmore _ ih =>
    cases hnode
    obtain ⟨hends, hmark⟩ := mark_behind hs' (Or.inl rfl) (more ++ rest)
    simp only [List.append_assoc, List.cons_append, skipSpace_append hs, h.skipSpace_member] at hu
    cases bound with
    | zero => simp at hbound
    | succ bound =>
      have hrest := fun next => ih (Nat.le_of_succ_le_succ hbound) rfl next rfl
      rw [readMembers_cons hfields h hu hends hmark, List.foldlM_cons]
      cases fields.enterMember decoders slots m with
      | none => rfl
      | some next => exact hrest next
  | _ => cases hnode

/-- What follows the brace of an object is read into the slots. -/
lemma readObject_spelled (hfields : fields.DecodedBy decoders) (hnames : fields.names.Nodup)
    {ms : List (Option Text × Tree)} {t rest : Text}
    (h : Spells (.value (.object ms)) ('{' :: t)) :
    (fields.readObject (t ++ rest)).toOption =
      (if ms.all (·.1.isSome) then fields.collect decoders ms else none).map (·, rest) := by
  rw [← foldlM_enterMember hnames]
  cases h with
  | emptyObject hs =>
    have hclosing := skipSpace_spaces hs (by decide : isSpace '}' = false) rest
    rw [readObject, List.append_assoc, List.cons_append, List.nil_append, hclosing]
    rfl
  | object h =>
    have hread := readMembers_spelled hfields h (h.size_le rest) (skipSpace_skipSpace (t ++ rest))
      (Slots.empty types)
    rw [readObject]
    split
    · next r hr => exact absurd hr (h.ne_closing rest r)
    · exact hread

end Objects

section Lists

variable {fields : Fields types} {decoders : Decoders types}

/-- The slots of the first fields, each from the element in its place. -/
def elements : {types : List Type} → Fields types → Decoders types → List Tree →
    Option (Slots types)
  | types, _, _, [] => some (Slots.empty types)
  | _, nil, _, _ :: _ => none
  | _, cons _ rest, (decode, decoders), v :: vs =>
    (decode v).bind fun x => (rest.elements decoders vs).map (Slots.cons (some x))

lemma elements_nil : fields.elements decoders [] = some (Slots.empty types) := by
  rw [elements.eq_def]

lemma readElements_end (first : Bool) {u rest : Text} (hu : skipSpace u = ']' :: rest) :
    fields.readElements first u = .ok (Slots.empty types, rest) := by
  cases fields with
  | nil => exact readElements_nil_eq_ok_iff.mpr hu
  | cons => exact readElements_cons_eq_ok_iff.mpr (Or.inl ⟨rfl, hu⟩)

/-- A text that goes on with elements. There is a comma in front of all but the first one. -/
def GoesOn (first : Bool) (u t : Text) : Prop :=
  if first then skipSpace u = skipSpace t else skipSpace u = ',' :: t

lemma readElements_cons {α : Type} {field : Field α} {decode : Tree → Option α}
    (hfield : field.codec.Decodes decode) {first : Bool} {v : Tree} {u s t more : Text}
    (hs : IsSpaces s) (h : Spells (.value v) t) (hends : EndsNumber more)
    (hu : GoesOn first u (s ++ (t ++ more))) :
    ((cons field fields).readElements first u).toOption = (decode v).bind fun x =>
      (fields.readElements false more).toOption.map fun r => (Slots.cons (some x) r.1, r.2) := by
  have hrow : ∀ {w : Text}, skipSpace w = t ++ more →
      (field.codec.read w >>= fun a => fields.readElements false a.2 >>= fun r =>
        pure (Slots.cons (some a.1) r.1, r.2)).toOption =
        (decode v).bind fun x => (fields.readElements false more).toOption.map fun r =>
          (Slots.cons (some x) r.1, r.2) := by
    intro w hw
    simp only [toOption_bind, hfield h hw hends, Option.bind_map]
    refine Option.bind_congr fun x _ => ?_
    exact Option.map_eq_bind.symm
  obtain ⟨c, r, rfl, hspace, hclosing, -⟩ := h.head_value
  cases first with
  | true =>
    have hstart : skipSpace u = c :: (r ++ more) :=
      hu.trans ((skipSpace_append hs _).trans (h.skipSpace_value more))
    rw [← hrow (skipSpace_of_not_isSpace hspace (r ++ more))]
    simp only [readElements, hstart, if_true]
    rfl
  | false =>
    have hstart : skipSpace u = ',' :: (s ++ (c :: r ++ more)) := hu
    rw [← hrow ((skipSpace_append hs _).trans (h.skipSpace_value more))]
    simp only [readElements, hstart]
    rfl

lemma readElements_spelled (hfields : fields.DecodedBy decoders) {first : Bool} {vs : List Tree}
    {t u rest : Text} (h : Spells (.items vs) t) (hu : GoesOn first u (t ++ rest)) :
    (fields.readElements first u).toOption = (fields.elements decoders vs).map (·, rest) := by
  induction fields generalizing first vs t u with
  | nil =>
    have hmany : nil.elements decoders vs = none := by
      cases h <;> rfl
    rw [hmany]
    cases hread : nil.readElements first u with
    | error => rfl
    | ok r =>
      have hclosing := readElements_nil_eq_ok_iff.mp hread
      cases first with
      | true => exact absurd (hu.symm.trans hclosing) (h.ne_closing rest _)
      | false => cases Eq.trans (Eq.symm hu) hclosing
  | cons field fields ih =>
    obtain ⟨decode, decoders⟩ := decoders
    cases h with
    | lastItem hs h hs' =>
      obtain ⟨hends, hmark⟩ := mark_behind hs' (Or.inr (Or.inl rfl)) rest
      simp only [List.append_assoc, List.cons_append, List.nil_append] at hu
      rw [readElements_cons hfields.1 hs h hends hu, readElements_end false hmark, elements,
        elements_nil, Option.map_bind]
      rfl
    | @nextItem _ _ _ _ _ more hs h hs' hmore =>
      obtain ⟨hends, hmark⟩ := mark_behind hs' (Or.inl rfl) (more ++ rest)
      simp only [List.append_assoc, List.cons_append] at hu
      have hmore' : GoesOn false (_ ++ ',' :: (more ++ rest)) (more ++ rest) := hmark
      rw [readElements_cons hfields.1 hs h hends hu, ih hfields.2 hmore hmore', elements,
        Option.map_bind]
      refine Option.bind_congr fun x _ => ?_
      rw [Option.map_map, Function.comp_apply, Option.map_map]
      rfl

/-- Elements that are left out are filled like missing members. -/
lemma elements_bind_fill? {vs all : List Tree} {index : Nat} (hvs : all.drop index = vs)
    (hlength : vs.length ≤ fields.size) :
    (fields.elements decoders vs).bind fields.fill? = fields.row? decoders (.list all) index := by
  induction fields generalizing vs index with
  | nil =>
    obtain rfl : vs = [] := List.eq_nil_of_length_eq_zero (Nat.le_zero.mp hlength)
    rfl
  | cons field fields ih =>
    cases vs with
    | nil =>
      have hend : all.length ≤ index := List.drop_eq_nil_iff.mp hvs
      have hnone : all[index]? = none := List.getElem?_eq_none hend
      have hdrop : all.drop (index + 1) = [] := List.drop_eq_nil_of_le (Nat.le_succ_of_le hend)
      rw [elements_nil]
      obtain ⟨decode, decoders⟩ := decoders
      have hrest : (fields.elements decoders []).bind fields.fill? = _ := ih hdrop (Nat.zero_le _)
      rw [elements_nil] at hrest
      rw [row?, ← hrest]
      simp only [Tree.field?, Tree.fieldValues, hnone]
      exact fill?_cons field fields none _
    | cons v vs =>
      obtain ⟨decode, decoders⟩ := decoders
      have hsome : all[index]? = some v := by
        rw [← List.head?_drop, hvs, List.head?_cons]
      have hdrop : all.drop (index + 1) = vs := by
        rw [← List.drop_drop, hvs, List.drop_one, List.tail_cons]
      have hrest : (fields.elements decoders vs).bind fields.fill? = _ :=
        ih hdrop (Nat.le_of_succ_le_succ hlength)
      rw [row?, ← hrest, elements]
      simp only [Tree.field?, Tree.fieldValues, hsome, Option.toList]
      cases decode v with
      | none => rfl
      | some x =>
        cases fields.elements decoders vs with
        | none => rfl
        | some slots => simp [fill?_cons]

lemma complete?_cons {α : Type} (field : Field α) (fields : Fields types) (slot : Option α)
    (slots : Slots types) : (cons field fields).complete? (Slots.cons slot slots) =
      slot.bind fun x => (fields.complete? slots).map (Row.cons x) := by
  simp only [Option.map_eq_bind]
  rfl

/-- A row is complete if no element is left out. -/
lemma elements_bind_complete? {vs : List Tree} (hlength : vs.length ≤ fields.size) :
    (fields.elements decoders vs).bind fields.complete? =
      if vs.length = fields.size then (fields.elements decoders vs).bind fields.fill?
      else none := by
  induction fields generalizing vs with
  | nil =>
    obtain rfl : vs = [] := List.eq_nil_of_length_eq_zero (Nat.le_zero.mp hlength)
    rfl
  | cons field fields ih =>
    cases vs with
    | nil =>
      have hne : ([] : List Tree).length ≠ (cons field fields).size := (Nat.succ_ne_zero _).symm
      rw [elements_nil, if_neg hne]
      rfl
    | cons v vs =>
      obtain ⟨decode, decoders⟩ := decoders
      have hrest : (fields.elements decoders vs).bind fields.complete? = _ :=
        ih (Nat.le_of_succ_le_succ hlength)
      simp only [elements, size, List.length_cons, Nat.add_right_cancel_iff]
      cases decode v with
      | none => simp
      | some x =>
        cases helements : fields.elements decoders vs with
        | none => simp
        | some slots =>
          rw [helements] at hrest
          simp only [Option.bind_some, Option.map_some, complete?_cons, fill?_cons] at hrest ⊢
          rw [hrest]
          split <;> rfl

lemma elements_of_lt {vs : List Tree} (hlength : fields.size < vs.length) :
    fields.elements decoders vs = none := by
  induction fields generalizing vs with
  | nil =>
    obtain ⟨v, vs, rfl⟩ := List.exists_cons_of_length_pos hlength
    rfl
  | cons field fields ih =>
    obtain ⟨decode, decoders⟩ := decoders
    obtain ⟨v, vs, rfl⟩ := List.exists_cons_of_length_pos (Nat.zero_lt_of_lt hlength)
    rw [elements, ih (Nat.lt_of_succ_lt_succ hlength)]
    simp

end Lists

end Fields

section Rows

variable {types : List Type} {fields : Fields types} {decoders : Decoders types}

lemma toOption_present {α : Type} (slot : Option α) : (present slot).toOption = slot := by
  cases slot <;> rfl

/-- What is decoded from a record field by field, if it has the right size. -/
def Fields.record? (fields : Fields types) (decoders : Decoders types) (short : Bool) (v : Tree) :
    Option (Row types) :=
  if v.isRecord fields.size short then fields.row? decoders v 0 else none

lemma toOption_closed {β : Type} (slots : Option (Slots types)) (close : Slots types → Option β)
    (rest : Text) :
    ((slots.map (·, rest)).bind fun a => (present (close a.1) >>= fun x =>
      pure (x, a.2)).toOption) = (slots.bind close).map (·, rest) := by
  cases slots with
  | none => rfl
  | some slots =>
    simp only [Option.map_some, Option.bind_some, toOption_bind, toOption_present]
    exact Option.map_eq_bind.symm

lemma readRow_object (hfields : fields.DecodedBy decoders) (hnames : fields.names.Nodup)
    (short : Bool) {ms : List (Option Text × Tree)} {t u rest : Text}
    (h : Spells (.value (.object ms)) t) (hu : skipSpace u = t ++ rest) :
    (readRow fields short u).toOption =
      (fields.record? decoders short (.object ms)).map (·, rest) := by
  obtain ⟨t, rfl⟩ : ∃ r, t = '{' :: r := by
    cases h <;> exact ⟨_, rfl⟩
  rw [List.cons_append] at hu
  have hclosed : (if ms.all (·.1.isSome) then fields.collect decoders ms else none).bind
      fields.fill? = fields.record? decoders short (.object ms) := by
    rw [Fields.record?, Tree.isRecord]
    split
    · exact Fields.collect_bind_fill? ms 0
    · rfl
  rw [← hclosed, ← toOption_closed, ← Fields.readObject_spelled hfields hnames h]
  simp only [readRow, hu, toOption_bind]

/-- The elements of a list make a row if there is one for each field, or less of them in a list that
may be short. -/
lemma elements_bind_row (short : Bool) (vs : List Tree) :
    ((fields.elements decoders vs).bind fun slots =>
      if short then fields.fill? slots else fields.complete? slots) =
      fields.record? decoders short (.list vs) := by
  rw [Fields.record?, Tree.isRecord]
  rcases Nat.lt_or_ge fields.size vs.length with hlt | hle
  · have hsize : ¬ (vs.length == fields.size ||
        short && decide (vs.length < fields.size)) = true := by
      simp
      omega
    rw [Fields.elements_of_lt hlt, if_neg hsize]
    rfl
  · have hfill : (fields.elements decoders vs).bind fields.fill? =
        fields.row? decoders (.list vs) 0 := Fields.elements_bind_fill? rfl hle
    cases short with
    | true =>
      simp [hfill]
      omega
    | false =>
      simp [Fields.elements_bind_complete? hle, hfill]

lemma readRow_list (hfields : fields.DecodedBy decoders) (short : Bool) {vs : List Tree}
    {t u rest : Text} (h : Spells (.value (.list vs)) t) (hu : skipSpace u = t ++ rest) :
    (readRow fields short u).toOption =
      (fields.record? decoders short (.list vs)).map (·, rest) := by
  have helements : ∃ r, skipSpace u = '[' :: r ∧
      (fields.readElements true r).toOption = (fields.elements decoders vs).map (·, rest) := by
    cases h with
    | emptyList hs =>
      rw [List.cons_append, List.append_assoc] at hu
      refine ⟨_, hu, ?_⟩
      have hclosing := skipSpace_spaces hs (by decide : isSpace ']' = false) rest
      rw [List.cons_append, List.nil_append, Fields.readElements_end true hclosing,
        Fields.elements_nil]
      rfl
    | list h => exact ⟨_, hu, Fields.readElements_spelled hfields h rfl⟩
  obtain ⟨r, hu, helements⟩ := helements
  rw [← elements_bind_row, ← toOption_closed, ← helements]
  simp only [readRow, hu, toOption_bind]

end Rows

variable {α : Type} {types : List Type}

/-- A record is decoded field by field. -/
theorem Codec.Decodes.record {fields : Fields types} {decoders : Decoders types}
    (hfields : fields.DecodedBy decoders) (hnames : fields.names.Nodup) (short : Bool)
    (make : Row types → α) (parts : α → Row types) :
    (Codec.record fields short make parts).Decodes fun v =>
      (fields.record? decoders short v).map make := by
  intro v t u rest h hu hrest
  have hrow : (readRow fields short u).toOption =
      (fields.record? decoders short v).map (·, rest) := by
    cases v with
    | object ms => exact readRow_object hfields hnames short h hu
    | list vs => exact readRow_list hfields short h hu
    | number x =>
      cases h with
      | number h =>
        obtain ⟨c, r, rfl, -⟩ := h.head
        have hlist : c ≠ '[' := h.head_ne (by decide) (by decide)
        have hobject : c ≠ '{' := h.head_ne (by decide) (by decide)
        simp [readRow, hu, hlist, hobject]
        rfl
    | _ =>
      cases h
      all_goals
        simp [readRow, hu]
        rfl
  simp only [Codec.record, toOption_bind, hrow]
  cases fields.record? decoders short v <;> rfl

end EditingEngine.Json
