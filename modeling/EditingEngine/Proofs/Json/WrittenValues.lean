import EditingEngine.Proofs.Json.RespacedRecords
import EditingEngine.Proofs.Json.WrittenTokens

/-!
# Values as they are written

A value that was written is read back with what follows it left over. This goes from scalars to
values that may be null, to lists and to records. A null is told from the other values by its first
letter, an empty list from others by its bracket, so a value must not begin with these. The members
of a record are read one by one into the slots of the row, each into its own as long as no two have
the same name.
-/
namespace EditingEngine.Json

/-- A value is read back as it was written, whatever follows that does not go on with a number.
There is no space in front of it, and nothing in its place could be taken for the end of a list. -/
structure Codec.ReadsBack {α : Type} (codec : Codec α) (value : α) : Prop where
  head : ∃ c text, codec.write value = c :: text ∧ isSpace c = false ∧ c ≠ ']'
  read_write : ∀ rest, EndsNumber rest →
    codec.read (codec.write value ++ rest) = .ok (value, rest)

lemma skipSpace_writeQuoted (text rest : Text) :
    skipSpace (writeQuoted text ++ rest) = '"' :: (text.flatMap writeChar ++ '"' :: rest) := by
  have hwritten : writeQuoted text ++ rest = '"' :: (text.flatMap writeChar ++ '"' :: rest) := by
    simp [writeQuoted]
  rw [hwritten, skipSpace_of_not_isSpace (by decide)]

lemma commaSeparated_cons_cons (x y : Text) (more : List Text) (rest : Text) :
    commaSeparated (x :: y :: more) ++ rest = x ++ ',' :: (commaSeparated (y :: more) ++ rest) := by
  simp [commaSeparated, List.intercalate_cons_cons]

namespace Codec.ReadsBack

lemma skipSpace_write {α : Type} {codec : Codec α} {value : α} (h : codec.ReadsBack value)
    (rest : Text) : skipSpace (codec.write value ++ rest) = codec.write value ++ rest := by
  obtain ⟨c, text, hwrite, hc, -⟩ := h.head
  rw [hwrite, List.cons_append, skipSpace_of_not_isSpace hc]

/-- A whole text that holds nothing but the value. -/
theorem parse_write {α : Type} {codec : Codec α} {value : α} (h : codec.ReadsBack value) :
    codec.parse (codec.write value) = .ok value := by
  have hread := h.read_write [] endsNumber_nil
  rw [List.append_nil] at hread
  simp [Codec.parse, Reader.readAll, hread, readEnd, bind, Except.bind, pure, Except.pure]

section Scalars

theorem count {n : Nat} (hn : n ≤ maxCount) : Codec.count.ReadsBack n := by
  have hne : writeCount n ≠ [] := List.ne_nil_of_length_pos Nat.length_toDigits_pos
  obtain ⟨c, text, hwrite⟩ := List.exists_cons_of_ne_nil hne
  have hdigit : c.isDigit = true :=
    Nat.isDigit_of_mem_toDigits (b := 10) (n := n) (by decide) (by decide)
      (by rw [← writeCount, hwrite]; exact List.mem_cons_self)
  have hc : isSpace c = false ∧ c ≠ ']' := by
    refine ⟨isSpace_of_isDigit hdigit, ?_⟩
    rintro rfl
    exact absurd hdigit (by decide)
  refine ⟨⟨c, text, hwrite, hc⟩, ?_⟩
  intro rest hrest
  have hvalue : Nat.ofDigitChars 10 (writeCount n) 0 = n :=
    Nat.ofDigitChars_toDigits (by decide) (by decide)
  have hnumber := readNumber_writeCount hn hrest
  have hcount : Numeral.count? ⟨false, writeCount n, [], none⟩ = some n := by
    simp [Numeral.count?, hvalue, hn]
  change readCount (writeCount n ++ rest) = .ok (n, rest)
  rw [hwrite] at hnumber hcount ⊢
  rw [List.cons_append] at hnumber ⊢
  simp [readCount, skipSpace_of_not_isSpace hc.1, hdigit, hnumber, hcount, bind, Except.bind]

theorem text (value : Text) : Codec.text.ReadsBack value := by
  refine ⟨⟨'"', _, rfl, by decide, by decide⟩, ?_⟩
  intro rest _
  change readText (writeQuoted value ++ rest) = .ok (value, rest)
  rw [readText, skipSpace_writeQuoted]
  exact readChars_flatMap_writeChar value rest

theorem char (c : Char) : Codec.char.ReadsBack c := by
  refine ⟨⟨'"', _, rfl, by decide, by decide⟩, ?_⟩
  intro rest hrest
  have htext : readText (writeQuoted [c] ++ rest) = .ok ([c], rest) :=
    (text [c]).read_write rest hrest
  change readChar (writeQuoted [c] ++ rest) = .ok (c, rest)
  simp [readChar, htext, bind, Except.bind]

theorem flag (value : Bool) : Codec.flag.ReadsBack value := by
  cases value with
  | true => exact ⟨⟨'t', _, rfl, by decide, by decide⟩, fun rest _ => rfl⟩
  | false => exact ⟨⟨'f', _, rfl, by decide, by decide⟩, fun rest _ => rfl⟩

end Scalars

section Compounds

variable {α : Type} {codec : Codec α}

theorem option {value : Option α} (h : ∀ x ∈ value, codec.ReadsBack x)
    (hnull : ∀ x ∈ value, (codec.write x).head? ≠ some 'n') : codec.option.ReadsBack value := by
  cases value with
  | none => exact ⟨⟨'n', _, rfl, by decide, by decide⟩, fun rest _ => rfl⟩
  | some x =>
    have hx := h x rfl
    obtain ⟨c, text, hwrite, hc, hend⟩ := hx.head
    refine ⟨⟨c, text, hwrite, hc, hend⟩, ?_⟩
    intro rest hrest
    have hread := hx.read_write rest hrest
    have hskip := hx.skipSpace_write rest
    have hn : c ≠ 'n' := by
      rintro rfl
      exact hnull x rfl (by rw [hwrite]; rfl)
    change codec.option.read (codec.write x ++ rest) = .ok (some x, rest)
    rw [hwrite, List.cons_append] at hread hskip ⊢
    simp [Codec.option, hskip, hn, hread, bind, Except.bind, pure, Except.pure]

/-- A value with a name is found again if its name is not that of a value in front of it. -/
theorem named {values : List α} {name : α → Text} {value : α}
    (h : values.find? (name · == name value) = some value) :
    (Codec.named values name).ReadsBack value := by
  refine ⟨⟨'"', _, rfl, by decide, by decide⟩, ?_⟩
  intro rest _
  have hskip := skipSpace_writeQuoted (name value) rest
  have hchars := readChars_flatMap_writeChar (name value) rest
  change (Codec.named values name).read (writeQuoted (name value) ++ rest) = .ok (value, rest)
  exact read_named_eq_ok_iff.mpr ⟨name value, h, Or.inl ⟨_, hskip, hchars⟩⟩

/-- Items are read up to the bracket behind the last one. Every item takes a character at least, so
the length of the text is bound enough. -/
lemma readItems_write {values : List α} (h : ∀ x ∈ values, codec.ReadsBack x) (hne : values ≠ [])
    (rest : Text) {bound : Nat}
    (hbound : (commaSeparated (values.map codec.write) ++ ']' :: rest).length ≤ bound) :
    readItems codec.read bound (commaSeparated (values.map codec.write) ++ ']' :: rest) =
      .ok (values, rest) := by
  induction values generalizing bound with
  | nil => exact absurd rfl hne
  | cons x values ih =>
    rw [List.forall_mem_cons] at h
    obtain ⟨bound, rfl⟩ : ∃ m, bound = m + 1 := ⟨bound - 1, by
      rw [List.length_append, List.length_cons] at hbound
      omega⟩
    cases values with
    | nil =>
      have hx := h.1.read_write (']' :: rest) (endsNumber_cons rest (by decide))
      have hend : skipSpace (']' :: rest) = ']' :: rest := skipSpace_of_not_isSpace (by decide) _
      rw [List.map_singleton, commaSeparated, List.intercalate_singleton]
      simp [readItems, hx, hend, bind, Except.bind, pure, Except.pure]
    | cons y values =>
      have hmap : (x :: y :: values).map codec.write =
          codec.write x :: codec.write y :: values.map codec.write := rfl
      rw [hmap, commaSeparated_cons_cons] at hbound ⊢
      have hshort : (commaSeparated ((y :: values).map codec.write) ++ ']' :: rest).length ≤
          bound := by
        rw [List.length_append, List.length_cons] at hbound
        rw [List.map_cons]
        omega
      have hmore := ih h.2 (List.cons_ne_nil _ _) hshort
      rw [List.map_cons] at hmore
      generalize commaSeparated (codec.write y :: values.map codec.write) ++ ']' :: rest = tail
        at hmore ⊢
      have hx := h.1.read_write (',' :: tail) (endsNumber_cons tail (by decide))
      have hcomma : skipSpace (',' :: tail) = ',' :: tail :=
        skipSpace_of_not_isSpace (by decide) tail
      simp [readItems, hx, hcomma, hmore, bind, Except.bind, pure, Except.pure]

theorem list {values : List α} (h : ∀ x ∈ values, codec.ReadsBack x) :
    codec.list.ReadsBack values := by
  refine ⟨⟨'[', _, rfl, by decide, by decide⟩, ?_⟩
  intro rest _
  have hopen : codec.list.write values ++ rest =
      '[' :: (commaSeparated (values.map codec.write) ++ ']' :: rest) := by
    simp [Codec.list]
  change readList codec.read (codec.list.write values ++ rest) = .ok (values, rest)
  rw [hopen, readList, skipSpace_of_not_isSpace (by decide)]
  cases values with
  | nil =>
    have hend : skipSpace (']' :: rest) = ']' :: rest := skipSpace_of_not_isSpace (by decide) rest
    simp [commaSeparated, hend]
  | cons x values =>
    have hitems := readItems_write h (List.cons_ne_nil _ _) rest (Nat.le_refl _)
    obtain ⟨c, text, hwrite, hc, hend⟩ := (h x List.mem_cons_self).head
    obtain ⟨more, hmore⟩ : ∃ more, commaSeparated ((x :: values).map codec.write) ++ ']' :: rest =
        c :: more := by
      cases values with
      | nil => simp [commaSeparated, hwrite]
      | cons y values => simp [commaSeparated_cons_cons, hwrite]
    rw [hmore] at hitems ⊢
    simp only [skipSpace_of_not_isSpace hc]
    split
    · next hnil => cases hnil
    · next hclose => exact absurd (List.cons.inj hclose).1 hend
    · exact hitems

end Compounds

end Codec.ReadsBack

section Records

variable {types : List Type}

/-- The slots with every value of a row. -/
def Slots.ofRow : {types : List Type} → Row types → Slots types
  | [], () => ()
  | _ :: _, (value, row) => (some value, ofRow row)

namespace Fields

/-- The names of the fields, in order. -/
def names : {types : List Type} → Fields types → List Text
  | _, nil => []
  | _, cons field rest => field.name :: rest.names

/-- Every value of a row is read back by the codec of its field. -/
def ReadBack : {types : List Type} → Fields types → Row types → Prop
  | _, nil, () => True
  | _, cons field rest, (value, row) => field.codec.ReadsBack value ∧ rest.ReadBack row

/-- The name of each field with its value as it is written. -/
def members : {types : List Type} → Fields types → Row types → List (Text × Text)
  | _, nil, () => []
  | _, cons field rest, (value, row) =>
    (field.name, field.codec.write value) :: rest.members row

/-- A member as it is written. -/
def memberText (m : Text × Text) : Text := writeQuoted m.1 ++ ':' :: m.2

lemma writeMembers_eq_map (fields : Fields types) (row : Row types) :
    fields.writeMembers row = (fields.members row).map memberText := by
  induction fields with
  | nil => rfl
  | cons field rest ih => exact congrArg _ (ih row.2)

lemma map_fst_members (fields : Fields types) (row : Row types) :
    (fields.members row).map Prod.fst = fields.names := by
  induction fields with
  | nil => rfl
  | cons field rest ih => exact congrArg _ (ih row.2)

/-- Reading some members one after the other takes the first slots to the second ones. -/
inductive Takes (fields : Fields types) : Slots types → List (Text × Text) → Slots types →
    Prop where
  | nil (slots : Slots types) : fields.Takes slots [] slots
  | cons {slots next last : Slots types} {m : Text × Text} {more : List (Text × Text)}
      (hm : ∀ rest, EndsNumber rest →
        fields.readMember m.1 slots (':' :: (m.2 ++ rest)) = .ok (next, rest))
      (hmore : fields.Takes next more last) : fields.Takes slots (m :: more) last

/-- Members of other names leave a field in front alone. -/
lemma Takes.behind {α : Type} {field : Field α} {fields : Fields types} {slots last : Slots types}
    {ms : List (Text × Text)} (h : fields.Takes slots ms last) (slot : Option α)
    (hname : field.name ∉ ms.map Prod.fst) :
    (Fields.cons field fields).Takes (slot, slots) ms (slot, last) := by
  induction h with
  | nil slots => exact Takes.nil _
  | @cons slots next last m more hm _ ih =>
    rw [List.map_cons, List.mem_cons, not_or] at hname
    refine Takes.cons ?_ (ih hname.2)
    intro rest hrest
    have hrest := hm rest hrest
    simp only [readMember, if_neg (Ne.symm hname.1)]
    exact bind_eq_ok.mpr ⟨_, hrest, rfl⟩

/-- The members of a row fill the slots with its values. -/
lemma takes_members {fields : Fields types} {row : Row types} (hnames : fields.names.Nodup)
    (h : fields.ReadBack row) :
    fields.Takes (Slots.empty types) (fields.members row) (Slots.ofRow row) := by
  induction fields with
  | nil => exact Takes.nil _
  | @cons α types field fields ih =>
    obtain ⟨value, row⟩ := row
    obtain ⟨hname, hnames⟩ := List.nodup_cons.mp hnames
    rw [← map_fst_members fields row] at hname
    have hmore := (ih hnames h.2).behind (some value) hname
    refine Takes.cons ?_ hmore
    intro rest hrest
    have hcolon : readColon (':' :: (field.codec.write value ++ rest)) =
        .ok (field.codec.write value ++ rest) := by
      simp [readColon, skipSpace_of_not_isSpace (by decide : isSpace ':' = false)]
    have hvalue := h.1.read_write rest hrest
    simp only [readMember, Slots.empty, if_pos]
    exact bind_eq_ok.mpr ⟨_, hcolon, bind_eq_ok.mpr ⟨_, hvalue, rfl⟩⟩

/-- Members are read up to the brace behind the last one. Every member takes a character at least,
so the length of the text is bound enough. -/
lemma Takes.readMembers {fields : Fields types} {slots last : Slots types}
    {ms : List (Text × Text)} (h : fields.Takes slots ms last) (hne : ms ≠ []) (rest : Text)
    {bound : Nat}
    (hbound : (commaSeparated (ms.map memberText) ++ '}' :: rest).length ≤ bound) :
    fields.readMembers bound slots (commaSeparated (ms.map memberText) ++ '}' :: rest) =
      .ok (last, rest) := by
  have hname : ∀ (m : Text × Text) (tail : Text),
      readName (memberText m ++ tail) = .ok (m.1, ':' :: (m.2 ++ tail)) := by
    intro m tail
    have hquoted : memberText m ++ tail = writeQuoted m.1 ++ ':' :: (m.2 ++ tail) := by
      simp [memberText]
    rw [hquoted, readName, skipSpace_writeQuoted]
    exact readChars_flatMap_writeChar m.1 _
  induction h generalizing bound with
  | nil => exact absurd rfl hne
  | @cons slots next last m more hm hmore ih =>
    obtain ⟨bound, rfl⟩ : ∃ n, bound = n + 1 := ⟨bound - 1, by
      rw [List.length_append, List.length_cons] at hbound
      omega⟩
    cases more with
    | nil =>
      cases hmore
      have hvalue := hm ('}' :: rest) (endsNumber_cons rest (by decide))
      have hend : skipSpace ('}' :: rest) = '}' :: rest := skipSpace_of_not_isSpace (by decide) rest
      rw [List.map_singleton, commaSeparated, List.intercalate_singleton]
      simp [Fields.readMembers, hname, hvalue, hend, bind, Except.bind, pure, Except.pure]
    | cons m' more =>
      have hmap : (m :: m' :: more).map memberText =
          memberText m :: memberText m' :: more.map memberText := rfl
      rw [hmap, commaSeparated_cons_cons] at hbound ⊢
      have hshort : (commaSeparated ((m' :: more).map memberText) ++ '}' :: rest).length ≤
          bound := by
        rw [List.length_append, List.length_cons] at hbound
        rw [List.map_cons]
        omega
      have hrest := ih (List.cons_ne_nil _ _) hshort
      rw [List.map_cons] at hrest
      generalize commaSeparated (memberText m' :: more.map memberText) ++ '}' :: rest = tail
        at hrest ⊢
      have hvalue := hm (',' :: tail) (endsNumber_cons tail (by decide))
      have hcomma : skipSpace (',' :: tail) = ',' :: tail :=
        skipSpace_of_not_isSpace (by decide) tail
      simp [Fields.readMembers, hname, hvalue, hcomma, hrest, bind, Except.bind]

lemma Takes.readObject {fields : Fields types} {last : Slots types} {ms : List (Text × Text)}
    (h : fields.Takes (Slots.empty types) ms last) (rest : Text) :
    fields.readObject (commaSeparated (ms.map memberText) ++ '}' :: rest) = .ok (last, rest) := by
  cases ms with
  | nil =>
    cases h
    have hend : skipSpace ('}' :: rest) = '}' :: rest := skipSpace_of_not_isSpace (by decide) rest
    simp [Fields.readObject, commaSeparated, hend]
  | cons m ms =>
    have hmembers := h.readMembers (List.cons_ne_nil _ _) rest (Nat.le_refl _)
    obtain ⟨more, hmore⟩ : ∃ more, commaSeparated ((m :: ms).map memberText) ++ '}' :: rest =
        '"' :: more := by
      cases ms with
      | nil => simp [commaSeparated, memberText, writeQuoted]
      | cons m' ms => simp [commaSeparated_cons_cons, memberText, writeQuoted]
    rw [hmore] at hmembers ⊢
    rw [Fields.readObject, skipSpace_of_not_isSpace (by decide)]
    exact hmembers

/-- Slots that are all filled leave nothing to a default. -/
lemma fill?_ofRow (fields : Fields types) (row : Row types) :
    fields.fill? (Slots.ofRow row) = some row := by
  induction fields with
  | nil => rfl
  | cons field fields ih =>
    obtain ⟨value, row⟩ := row
    simp only [fill?, Slots.ofRow, ih row]
    rfl

end Fields

theorem Codec.ReadsBack.record {α : Type} {fields : Fields types} {short : Bool}
    {make : Row types → α} {parts : α → Row types} {value : α}
    (hmake : make (parts value) = value) (hnames : fields.names.Nodup)
    (h : fields.ReadBack (parts value)) :
    (Codec.record fields short make parts).ReadsBack value := by
  refine ⟨⟨'{', _, rfl, by decide, by decide⟩, ?_⟩
  intro rest _
  have hopen : (Codec.record fields short make parts).write value ++ rest = '{' ::
      (commaSeparated ((fields.members (parts value)).map Fields.memberText) ++ '}' :: rest) := by
    simp [Codec.record, Fields.writeMembers_eq_map]
  have hobject := (Fields.takes_members hnames h).readObject rest
  have hrow : readRow fields short ((Codec.record fields short make parts).write value ++ rest) =
      .ok (parts value, rest) := by
    rw [hopen]
    exact readRow_eq_ok_iff.mpr ⟨_, _, Or.inl ⟨skipSpace_of_not_isSpace (by decide) _, hobject,
      fields.fill?_ofRow (parts value)⟩⟩
  exact bind_eq_ok.mpr ⟨_, hrow, congrArg (fun x => Except.ok (x, rest)) hmake⟩

end Records

end EditingEngine.Json
