import EditingEngine.Proofs.Json.DecodedForms
import EditingEngine.Proofs.Json.WrittenForms

/-!
# Settings that are given in part

A host may give any of the settings and leave out the others. What is left out is taken from the
standard settings, and within a language that is given in part from the standard language, one field
at a time. Neither the order of the members nor members of other names make a difference. A field
that is given twice is refused, and so is a bracket pair without one of its brackets.
-/
namespace EditingEngine

open Json

/-- An object with texts for its names. -/
def Json.Tree.ofMembers (ms : List (Text × Tree)) : Tree :=
  .object (ms.map fun m => (some m.1, m.2))

section Members

variable {α : Type}

/-- A field that is given at most once, and then by a value of its kind. -/
structure GivenWell (ms : List (Text × Tree)) (name : Text) (decode : Tree → Option α) : Prop where
  once : (ms.filter fun m => m.1 = name).length ≤ 1
  valid : ∀ m ∈ ms, m.1 = name → (decode m.2).isSome

/-- The value that is given for a field, or else the standard value. -/
def valueOr (ms : List (Text × Tree)) (name : Text) (decode : Tree → Option α) (standard : α) : α :=
  ((ms.lookup name).bind decode).getD standard

variable {ms ms' : List (Text × Tree)} {name : Text} {decode : Tree → Option α}

lemma lookup_eq_head?_filter (ms : List (Text × Tree)) (name : Text) :
    ms.lookup name = (ms.filter fun m => m.1 = name).head?.map Prod.snd := by
  induction ms with
  | nil => rfl
  | cons m ms ih =>
    obtain ⟨key, v⟩ := m
    by_cases h : key = name
    · simp [h]
    · have hne : (name == key) = false := by simpa using Ne.symm h
      simp [List.lookup_cons, hne, h, ih]

lemma Json.Tree.isRecord_ofMembers (ms : List (Text × Tree)) (size : Nat) (short : Bool) :
    (Tree.ofMembers ms).isRecord size short = true := by
  simp [Tree.ofMembers, Tree.isRecord]

lemma Json.Tree.fieldValues_ofMembers (ms : List (Text × Tree)) (index : Nat) (name : Text) :
    (Tree.ofMembers ms).fieldValues index name = (ms.filter fun m => m.1 = name).map Prod.snd := by
  simp [Tree.ofMembers, Tree.fieldValues, valuesNamed, List.filter_map, Function.comp_def]

lemma GivenWell.filter_eq (h : GivenWell ms name decode) :
    (ms.filter fun m => m.1 = name) = [] ∨
      ∃ v x, (ms.filter fun m => m.1 = name) = [(name, v)] ∧ decode v = some x := by
  have honce := h.once
  match hgiven : ms.filter fun m => m.1 = name with
  | [] => exact Or.inl hgiven
  | [(key, v)] =>
    have hmem : (key, v) ∈ ms.filter fun m => m.1 = name := by
      rw [hgiven]
      exact List.mem_singleton_self _
    obtain ⟨hv, hname⟩ := List.mem_filter.mp hmem
    obtain rfl : key = name := of_decide_eq_true hname
    obtain ⟨x, hx⟩ := Option.isSome_iff_exists.mp (h.valid _ hv rfl)
    exact Or.inr ⟨v, x, hgiven, hx⟩
  | _ :: _ :: _ =>
    rw [hgiven] at honce
    simp at honce

lemma GivenWell.field?_ofMembers (h : GivenWell ms name decode) (index : Nat) (standard : α) :
    (Tree.ofMembers ms).field? index name decode (some standard) =
      some (valueOr ms name decode standard) := by
  rw [Tree.field?, Tree.fieldValues_ofMembers, valueOr, lookup_eq_head?_filter]
  rcases h.filter_eq with hnone | ⟨v, x, hv, hx⟩
  · rw [hnone]
    rfl
  · rw [hv]
    simp [hx]

lemma GivenWell.perm (h : GivenWell ms name decode) (hms : ms.Perm ms') :
    GivenWell ms' name decode where
  once := (hms.filter _).length_eq ▸ h.once
  valid m hm := h.valid m (hms.mem_iff.mpr hm)

lemma GivenWell.valueOr_perm (h : GivenWell ms name decode) (hms : ms.Perm ms') (standard : α) :
    valueOr ms' name decode standard = valueOr ms name decode standard := by
  have hperm := hms.symm.filter fun m => m.1 = name
  have hfilter : (ms'.filter fun m => m.1 = name) = ms.filter fun m => m.1 = name := by
    rcases h.filter_eq with hnone | ⟨v, x, hv, -⟩
    · rw [hnone] at hperm ⊢
      exact hperm.eq_nil
    · rw [hv] at hperm ⊢
      exact List.perm_singleton.mp hperm
  rw [valueOr, valueOr, lookup_eq_head?_filter, lookup_eq_head?_filter, hfilter]

end Members

/-- Comment markers of which each is given at most once, by a text or null. -/
structure CommentMarkers.IsPartial (ms : List (Text × Tree)) : Prop where
  line : GivenWell ms "line".toList (Tree.nullable? Tree.text?)
  blockStart : GivenWell ms "block_start".toList (Tree.nullable? Tree.text?)
  blockEnd : GivenWell ms "block_end".toList (Tree.nullable? Tree.text?)

/-- A marker that is not given is null, whatever the standard language has. -/
def CommentMarkers.overriding (ms : List (Text × Tree)) : CommentMarkers where
  line := valueOr ms "line".toList (Tree.nullable? Tree.text?) .none
  blockStart := valueOr ms "block_start".toList (Tree.nullable? Tree.text?) .none
  blockEnd := valueOr ms "block_end".toList (Tree.nullable? Tree.text?) .none

/-- A language of which each field is given at most once, by a value of its kind. -/
structure Language.IsPartial (ms : List (Text × Tree)) : Prop where
  comments : GivenWell ms "comments".toList CommentMarkers.ofTree?
  quotes : GivenWell ms "quotes".toList (Tree.list? Tree.char?)
  escape : GivenWell ms "escape".toList (Tree.nullable? Tree.char?)
  indentPairs : GivenWell ms "indent_pairs".toList (Tree.list? BracketPair.ofTree?)
  matchPairs : GivenWell ms "match_pairs".toList (Tree.list? BracketPair.ofTree?)

/-- The standard language with the fields that are given. -/
def Language.overriding (ms : List (Text × Tree)) : Language :=
  let std := Language.javaScript
  { comments := valueOr ms "comments".toList CommentMarkers.ofTree? std.comments
    quotes := valueOr ms "quotes".toList (Tree.list? Tree.char?) std.quotes
    escape := valueOr ms "escape".toList (Tree.nullable? Tree.char?) std.escape
    indentPairs := valueOr ms "indent_pairs".toList (Tree.list? BracketPair.ofTree?) std.indentPairs
    matchPairs := valueOr ms "match_pairs".toList (Tree.list? BracketPair.ofTree?) std.matchPairs }

/-- Settings of which each is given at most once, by a value of its kind. -/
structure Settings.IsPartial (ms : List (Text × Tree)) : Prop where
  tabWidth : GivenWell ms "tab_width".toList Tree.count?
  widthRule : GivenWell ms "width_mode".toList WidthRule.ofTree?
  undoLimit : GivenWell ms "history_limit".toList Tree.count?
  pause : GivenWell ms "debounce_ms".toList Tree.count?
  language : GivenWell ms "language".toList Language.ofTree?

/-- The standard settings with the fields that are given. -/
def Settings.overriding (ms : List (Text × Tree)) : Settings :=
  let std := Settings.standard
  { tabWidth := valueOr ms "tab_width".toList Tree.count? std.tabWidth
    widthRule := valueOr ms "width_mode".toList WidthRule.ofTree? std.widthRule
    undoLimit := valueOr ms "history_limit".toList Tree.count? std.undoLimit
    pause := valueOr ms "debounce_ms".toList Tree.count? std.pause
    language := valueOr ms "language".toList Language.ofTree? std.language }

section Records

variable {ms ms' : List (Text × Tree)}

lemma CommentMarkers.ofTree?_ofMembers (h : CommentMarkers.IsPartial ms) :
    CommentMarkers.ofTree? (.ofMembers ms) = some (CommentMarkers.overriding ms) := by
  simp only [ofTree?, Tree.isRecord_ofMembers, if_true, h.line.field?_ofMembers,
    h.blockStart.field?_ofMembers, h.blockEnd.field?_ofMembers, Option.bind_eq_bind,
    Option.bind_some]
  rfl

lemma Language.ofTree?_ofMembers (h : Language.IsPartial ms) :
    Language.ofTree? (.ofMembers ms) = some (Language.overriding ms) := by
  simp only [ofTree?, Tree.isRecord_ofMembers, if_true, h.comments.field?_ofMembers,
    h.quotes.field?_ofMembers, h.escape.field?_ofMembers, h.indentPairs.field?_ofMembers,
    h.matchPairs.field?_ofMembers, Option.bind_eq_bind, Option.bind_some]
  rfl

lemma Settings.ofTree?_ofMembers (h : Settings.IsPartial ms) :
    Settings.ofTree? (.ofMembers ms) = some (Settings.overriding ms) := by
  simp only [ofTree?, Tree.isRecord_ofMembers, if_true, h.tabWidth.field?_ofMembers,
    h.widthRule.field?_ofMembers, h.undoLimit.field?_ofMembers, h.pause.field?_ofMembers,
    h.language.field?_ofMembers, Option.bind_eq_bind, Option.bind_some]
  rfl

lemma CommentMarkers.overriding_perm (h : CommentMarkers.IsPartial ms) (hms : ms.Perm ms') :
    CommentMarkers.IsPartial ms' ∧
      CommentMarkers.overriding ms' = CommentMarkers.overriding ms := by
  refine ⟨⟨h.line.perm hms, h.blockStart.perm hms, h.blockEnd.perm hms⟩, ?_⟩
  simp only [overriding, h.line.valueOr_perm hms, h.blockStart.valueOr_perm hms,
    h.blockEnd.valueOr_perm hms]

lemma Language.overriding_perm (h : Language.IsPartial ms) (hms : ms.Perm ms') :
    Language.IsPartial ms' ∧ Language.overriding ms' = Language.overriding ms := by
  refine ⟨⟨h.comments.perm hms, h.quotes.perm hms, h.escape.perm hms, h.indentPairs.perm hms,
    h.matchPairs.perm hms⟩, ?_⟩
  simp only [overriding, h.comments.valueOr_perm hms, h.quotes.valueOr_perm hms,
    h.escape.valueOr_perm hms, h.indentPairs.valueOr_perm hms, h.matchPairs.valueOr_perm hms]

lemma Settings.overriding_perm (h : Settings.IsPartial ms) (hms : ms.Perm ms') :
    Settings.IsPartial ms' ∧ Settings.overriding ms' = Settings.overriding ms := by
  refine ⟨⟨h.tabWidth.perm hms, h.widthRule.perm hms, h.undoLimit.perm hms, h.pause.perm hms,
    h.language.perm hms⟩, ?_⟩
  simp only [overriding, h.tabWidth.valueOr_perm hms, h.widthRule.valueOr_perm hms,
    h.undoLimit.valueOr_perm hms, h.pause.valueOr_perm hms, h.language.valueOr_perm hms]

end Records

section Refusals

/-- The records that settings are made of. -/
inductive RecordKind where
  | settings
  | language
  | comments
  | pair

/-- The fields of a record, in their order. -/
def RecordKind.names : RecordKind → List Text
  | settings => ["tab_width".toList, "width_mode".toList, "history_limit".toList,
      "debounce_ms".toList, "language".toList]
  | language => ["comments".toList, "quotes".toList, "escape".toList, "indent_pairs".toList,
      "match_pairs".toList]
  | comments => ["line".toList, "block_start".toList, "block_end".toList]
  | pair => ["open".toList, "close".toList]

/-- The records in a tree that is read as settings. -/
inductive RecordIn (root : Tree) : RecordKind → Tree → Prop where
  | settings : RecordIn root .settings root
  | language {v w} (h : RecordIn root .settings v) (hw : w ∈ v.fieldValues 4 "language".toList) :
      RecordIn root .language w
  | comments {v w} (h : RecordIn root .language v) (hw : w ∈ v.fieldValues 0 "comments".toList) :
      RecordIn root .comments w
  | indentPair {v ps p} (h : RecordIn root .language v)
      (hps : .list ps ∈ v.fieldValues 3 "indent_pairs".toList) (hp : p ∈ ps) :
      RecordIn root .pair p
  | matchPair {v ps p} (h : RecordIn root .language v)
      (hps : .list ps ∈ v.fieldValues 4 "match_pairs".toList) (hp : p ∈ ps) :
      RecordIn root .pair p

/-- A record with two values for one of its fields, or a pair without a value for one of them. -/
def RecordKind.HasFault (kind : RecordKind) (v : Tree) : Prop :=
  ∃ f ∈ kind.names.zipIdx, 2 ≤ (v.fieldValues f.2 f.1).length ∨
    kind = .pair ∧ v.fieldValues f.2 f.1 = []

/-- A record that is decoded. -/
def RecordKind.Accepts : RecordKind → Tree → Prop
  | settings, v => ∃ s, Settings.ofTree? v = some s
  | language, v => ∃ l, Language.ofTree? v = some l
  | comments, v => ∃ m, CommentMarkers.ofTree? v = some m
  | pair, v => ∃ p, BracketPair.ofTree? v = some p

variable {α : Type} {v w : Tree} {index : Nat} {name : Text} {decode : Tree → Option α}
  {default? : Option α} {x : α}

lemma Json.Tree.length_le_of_field? (h : v.field? index name decode default? = some x) :
    (v.fieldValues index name).length ≤ 1 := by
  unfold Tree.field? at h
  split at h
  · next hvalues => simp [hvalues]
  · next hvalues => simp [hvalues]
  · cases h

lemma Json.Tree.decode_of_field? (h : v.field? index name decode default? = some x)
    (hw : w ∈ v.fieldValues index name) : decode w = some x := by
  unfold Tree.field? at h
  split at h
  · next hvalues =>
    rw [hvalues] at hw
    cases hw
  · next hvalues =>
    rw [hvalues] at hw
    obtain rfl := List.mem_singleton.mp hw
    exact h
  · cases h

lemma Json.Tree.ne_nil_of_field? (h : v.field? index name decode none = some x) :
    v.fieldValues index name ≠ [] := by
  intro hnil
  rw [Tree.field?, hnil] at h
  cases h

lemma exists_of_mapM {f : Tree → Option α} {vs : List Tree} {xs : List α}
    (h : vs.mapM f = some xs) (hw : w ∈ vs) : ∃ x, f w = some x := by
  induction vs generalizing xs with
  | nil => cases hw
  | cons v vs ih =>
    simp only [List.mapM_cons, Option.bind_eq_bind, Option.bind_eq_some_iff] at h
    obtain ⟨x, hx, xs', hxs, -⟩ := h
    rcases List.mem_cons.mp hw with rfl | hmem
    · exact ⟨x, hx⟩
    · exact ih hxs hmem

lemma BracketPair.fields_of_ofTree? {p : BracketPair} (h : BracketPair.ofTree? v = some p) :
    v.field? 0 "open".toList Tree.char? none = some p.opener ∧
    v.field? 1 "close".toList Tree.char? none = some p.closer := by
  unfold ofTree? at h
  split at h
  · simp only [Option.bind_eq_bind, Option.bind_eq_some_iff] at h
    obtain ⟨opener, h₀, closer, h₁, hp⟩ := h
    cases hp
    exact ⟨h₀, h₁⟩
  · cases h

lemma CommentMarkers.fields_of_ofTree? {m : CommentMarkers}
    (h : CommentMarkers.ofTree? v = some m) :
    let marker? := Tree.nullable? Tree.text?
    v.field? 0 "line".toList marker? (some .none) = some m.line ∧
    v.field? 1 "block_start".toList marker? (some .none) = some m.blockStart ∧
    v.field? 2 "block_end".toList marker? (some .none) = some m.blockEnd := by
  unfold ofTree? at h
  split at h
  · simp only [Option.bind_eq_bind, Option.bind_eq_some_iff] at h
    obtain ⟨line, h₀, blockStart, h₁, blockEnd, h₂, hm⟩ := h
    cases hm
    exact ⟨h₀, h₁, h₂⟩
  · cases h

lemma Language.fields_of_ofTree? {l : Language} (h : Language.ofTree? v = some l) :
    let std := Language.javaScript
    let pairs? := Tree.list? BracketPair.ofTree?
    v.field? 0 "comments".toList CommentMarkers.ofTree? (some std.comments) = some l.comments ∧
    v.field? 1 "quotes".toList (Tree.list? Tree.char?) (some std.quotes) = some l.quotes ∧
    v.field? 2 "escape".toList (Tree.nullable? Tree.char?) (some std.escape) = some l.escape ∧
    v.field? 3 "indent_pairs".toList pairs? (some std.indentPairs) = some l.indentPairs ∧
    v.field? 4 "match_pairs".toList pairs? (some std.matchPairs) = some l.matchPairs := by
  unfold ofTree? at h
  split at h
  · simp only [Option.bind_eq_bind, Option.bind_eq_some_iff] at h
    obtain ⟨comments, h₀, quotes, h₁, escape, h₂, indentPairs, h₃, matchPairs, h₄, hl⟩ := h
    cases hl
    exact ⟨h₀, h₁, h₂, h₃, h₄⟩
  · cases h

lemma Settings.fields_of_ofTree? {s : Settings} (h : Settings.ofTree? v = some s) :
    let std := Settings.standard
    v.field? 0 "tab_width".toList Tree.count? (some std.tabWidth) = some s.tabWidth ∧
    v.field? 1 "width_mode".toList WidthRule.ofTree? (some std.widthRule) = some s.widthRule ∧
    v.field? 2 "history_limit".toList Tree.count? (some std.undoLimit) = some s.undoLimit ∧
    v.field? 3 "debounce_ms".toList Tree.count? (some std.pause) = some s.pause ∧
    v.field? 4 "language".toList Language.ofTree? (some std.language) = some s.language := by
  unfold ofTree? at h
  split at h
  · simp only [Option.bind_eq_bind, Option.bind_eq_some_iff] at h
    obtain ⟨tabWidth, h₀, widthRule, h₁, undoLimit, h₂, pause, h₃, language, h₄, hs⟩ := h
    cases hs
    exact ⟨h₀, h₁, h₂, h₃, h₄⟩
  · cases h

/-- Settings are decoded only if every record in them is. -/
lemma RecordIn.accepted {root : Tree} {kind : RecordKind} (h : RecordIn root kind v)
    (hroot : RecordKind.settings.Accepts root) : kind.Accepts v := by
  induction h with
  | settings => exact hroot
  | language h hw ih =>
    obtain ⟨s, hs⟩ := ih
    obtain ⟨-, -, -, -, hlanguage⟩ := Settings.fields_of_ofTree? hs
    exact ⟨s.language, Tree.decode_of_field? hlanguage hw⟩
  | comments h hw ih =>
    obtain ⟨l, hl⟩ := ih
    obtain ⟨hcomments, -⟩ := Language.fields_of_ofTree? hl
    exact ⟨l.comments, Tree.decode_of_field? hcomments hw⟩
  | indentPair h hps hp ih =>
    obtain ⟨l, hl⟩ := ih
    obtain ⟨-, -, -, hpairs, -⟩ := Language.fields_of_ofTree? hl
    exact exists_of_mapM (Tree.decode_of_field? hpairs hps) hp
  | matchPair h hps hp ih =>
    obtain ⟨l, hl⟩ := ih
    obtain ⟨-, -, -, -, hpairs⟩ := Language.fields_of_ofTree? hl
    exact exists_of_mapM (Tree.decode_of_field? hpairs hps) hp

/-- A record that is decoded has no field twice. -/
lemma RecordKind.Accepts.length_le {kind : RecordKind} (h : kind.Accepts v) :
    ∀ f ∈ kind.names.zipIdx, (v.fieldValues f.2 f.1).length ≤ 1 := by
  cases kind with
  | settings =>
    obtain ⟨s, hs⟩ := h
    obtain ⟨h₀, h₁, h₂, h₃, h₄⟩ := Settings.fields_of_ofTree? hs
    simp only [names, List.zipIdx_cons, List.forall_mem_cons]
    exact ⟨Tree.length_le_of_field? h₀, Tree.length_le_of_field? h₁, Tree.length_le_of_field? h₂,
      Tree.length_le_of_field? h₃, Tree.length_le_of_field? h₄, by simp⟩
  | language =>
    obtain ⟨l, hl⟩ := h
    obtain ⟨h₀, h₁, h₂, h₃, h₄⟩ := Language.fields_of_ofTree? hl
    simp only [names, List.zipIdx_cons, List.forall_mem_cons]
    exact ⟨Tree.length_le_of_field? h₀, Tree.length_le_of_field? h₁, Tree.length_le_of_field? h₂,
      Tree.length_le_of_field? h₃, Tree.length_le_of_field? h₄, by simp⟩
  | comments =>
    obtain ⟨m, hm⟩ := h
    obtain ⟨h₀, h₁, h₂⟩ := CommentMarkers.fields_of_ofTree? hm
    simp only [names, List.zipIdx_cons, List.forall_mem_cons]
    exact ⟨Tree.length_le_of_field? h₀, Tree.length_le_of_field? h₁, Tree.length_le_of_field? h₂,
      by simp⟩
  | pair =>
    obtain ⟨p, hp⟩ := h
    obtain ⟨h₀, h₁⟩ := BracketPair.fields_of_ofTree? hp
    simp only [names, List.zipIdx_cons, List.forall_mem_cons]
    exact ⟨Tree.length_le_of_field? h₀, Tree.length_le_of_field? h₁, by simp⟩

/-- A pair that is decoded has both brackets. -/
lemma BracketPair.ne_nil_of_ofTree? {p : BracketPair} (h : BracketPair.ofTree? v = some p) :
    ∀ f ∈ RecordKind.pair.names.zipIdx, v.fieldValues f.2 f.1 ≠ [] := by
  obtain ⟨h₀, h₁⟩ := BracketPair.fields_of_ofTree? h
  simp only [RecordKind.names, List.zipIdx_cons, List.forall_mem_cons]
  exact ⟨Tree.ne_nil_of_field? h₀, Tree.ne_nil_of_field? h₁, by simp⟩

lemma RecordKind.Accepts.not_hasFault {kind : RecordKind} (h : kind.Accepts v) :
    ¬ kind.HasFault v := by
  rintro ⟨f, hf, htwice | ⟨rfl, hnone⟩⟩
  · have honce := h.length_le f hf
    omega
  · obtain ⟨p, hp⟩ := h
    exact BracketPair.ne_nil_of_ofTree? hp f hf hnone

end Refusals

lemma Settings.parse_of_decoded {v : Tree} {text : Text} (htext : v.IsText text) {s : Settings}
    (hs : Settings.ofTree? v = some s) : Settings.codec.parse text = .ok s := by
  have hparse := (Codec.Decodes.parse Settings.codec_decodes htext).trans hs
  cases hread : Settings.codec.parse text with
  | error f =>
    rw [hread] at hparse
    cases hparse
  | ok s' =>
    rw [hread] at hparse
    cases hparse
    rfl

lemma Settings.ofText_of_not_decoded {v : Tree} {text : Text} (htext : v.IsText text)
    (hnone : Settings.ofTree? v = none) :
    ∃ fault, Settings.ofText text = .error (.unreadable fault) := by
  have hparse := (Codec.Decodes.parse Settings.codec_decodes htext).trans hnone
  cases hread : Settings.codec.parse text with
  | error f => exact ⟨f, by rw [Settings.ofText, hread]⟩
  | ok s =>
    rw [hread] at hparse
    cases hparse

/-- Settings that are given in part override the standard settings field by field. -/
theorem settings_override_standard :
    (∀ ms text, Settings.IsPartial ms → (Tree.ofMembers ms).IsText text →
      Settings.ofText text =
        let s := Settings.overriding ms
        if s.tabWidth = 0 then .error (.invalid .zeroTabWidth)
        else if s.undoLimit = 0 then .error (.invalid .zeroUndoLimit)
        else .ok s) ∧
    (∀ ms, Language.IsPartial ms →
      Language.ofTree? (.ofMembers ms) = some (Language.overriding ms)) ∧
    (∀ ms, CommentMarkers.IsPartial ms →
      CommentMarkers.ofTree? (.ofMembers ms) = some (CommentMarkers.overriding ms)) ∧
    (∀ ms ms' : List (Text × Tree), ms.Perm ms' →
      (Settings.IsPartial ms →
        Settings.IsPartial ms' ∧ Settings.overriding ms' = Settings.overriding ms) ∧
      (Language.IsPartial ms →
        Language.IsPartial ms' ∧ Language.overriding ms' = Language.overriding ms) ∧
      (CommentMarkers.IsPartial ms →
        CommentMarkers.IsPartial ms' ∧
          CommentMarkers.overriding ms' = CommentMarkers.overriding ms)) ∧
    ∀ root text kind v, root.IsText text → RecordIn root kind v → kind.HasFault v →
      ∃ fault, Settings.ofText text = .error (.unreadable fault) := by
  refine ⟨?_, ?_, ?_, ?_, ?_⟩
  · exact fun ms text h htext => Settings.ofText_of_parse
      (Settings.parse_of_decoded htext (Settings.ofTree?_ofMembers h))
  · exact fun ms h => Language.ofTree?_ofMembers h
  · exact fun ms h => CommentMarkers.ofTree?_ofMembers h
  · exact fun ms ms' hms => ⟨fun h => Settings.overriding_perm h hms,
      fun h => Language.overriding_perm h hms, fun h => CommentMarkers.overriding_perm h hms⟩
  · intro root text kind v htext hv hfault
    refine Settings.ofText_of_not_decoded htext (Option.eq_none_iff_forall_ne_some.mpr ?_)
    exact fun s hs => (hv.accepted ⟨s, hs⟩).not_hasFault hfault

/-- Two settings with an unknown member between them, and a language with other comment markers. A
pair without its closing bracket is refused. -/
theorem settings_override_standard_nested :
    let markers : List (Text × Tree) := [("line".toList, .string (some ['#']))]
    let language : List (Text × Tree) := [("comments".toList, .ofMembers markers)]
    let ms : List (Text × Tree) := [("tab_width".toList, .number ⟨false, ['2'], [], none⟩),
      ("x".toList, .list [.flag true, .object []]), ("language".toList, .ofMembers language)]
    let text := "\x7b\"tab_width\": 2,\"x\":[true, \x7b\x7d],".toList ++
      "\"language\":\x7b\"comments\":\x7b\"line\":\"\\u0023\"\x7d\x7d \x7d".toList
    let pair : Tree := .ofMembers [("open".toList, .string (some ['<']))]
    let root : Tree :=
      .ofMembers [("language".toList, .ofMembers [("match_pairs".toList, .list [pair])])]
    let refused :=
      "\x7b\"language\":\x7b\"match_pairs\":[\x7b\"open\":\"<\"\x7d]\x7d\x7d".toList
    (Settings.IsPartial ms ∧ (Tree.ofMembers ms).IsText text ∧ Language.IsPartial language ∧
      CommentMarkers.IsPartial markers ∧ root.IsText refused ∧ RecordIn root .pair pair ∧
      RecordKind.pair.HasFault pair) ∧
    Settings.ofText text = .ok { Settings.standard with
      tabWidth := 2
      language := { Language.javaScript with comments := .lineOnly ['#'] } } ∧
    Language.ofTree? (.ofMembers language) =
      some { Language.javaScript with comments := .lineOnly ['#'] } ∧
    CommentMarkers.ofTree? (.ofMembers markers) = some (.lineOnly ['#']) ∧
    Settings.overriding ms.reverse = Settings.overriding ms ∧
    ∃ fault, Settings.ofText refused = .error (.unreadable fault) := by
  intro markers language ms text pair root refused
  obtain ⟨hread, hlanguage, hmarkers, horder, hrefused⟩ := settings_override_standard
  have hms : Settings.IsPartial ms :=
    ⟨⟨by decide, by decide⟩, ⟨by decide, by decide⟩, ⟨by decide, by decide⟩,
      ⟨by decide, by decide⟩, ⟨by decide, by decide⟩⟩
  have hpartial : Language.IsPartial language :=
    ⟨⟨by decide, by decide⟩, ⟨by decide, by decide⟩, ⟨by decide, by decide⟩,
      ⟨by decide, by decide⟩, ⟨by decide, by decide⟩⟩
  have hnull : CommentMarkers.IsPartial markers :=
    ⟨⟨by decide, by decide⟩, ⟨by decide, by decide⟩, ⟨by decide, by decide⟩⟩
  have hspace : IsSpaces [] := by decide
  have hblank : IsSpaces [' '] := by decide
  have hplain : ∀ raw : Text, isPlainText raw = true → SpellsChars (some raw) raw :=
    fun raw h => SpellsChars.of_isPlainText h
  have hnumber : SpellsNumeral ⟨false, ['2'], [], none⟩ _ :=
    .mk ⟨by decide, by simp⟩ (by decide) .none .none
  have hmarker : SpellsChars (some ['#']) _ :=
    .unit (by decide : unitOf? '0' '0' '2' '3' = some 35) (by decide) (by decide) .nil
  have hspelled : Spells (.value (Tree.ofMembers ms)) _ :=
    .object (.nextMember hspace (.member (hplain "tab_width".toList (by decide)) hspace hblank
        (.number hnumber)) hspace
      (.nextMember hspace (.member (hplain "x".toList (by decide)) hspace hspace
        (.list (.nextItem hspace .yes hspace
          (.lastItem hblank (.emptyObject hspace) hspace)))) hspace
      (.lastMember hspace (.member (hplain "language".toList (by decide)) hspace hspace
        (.object (.lastMember hspace (.member (hplain "comments".toList (by decide)) hspace hspace
          (.object (.lastMember hspace (.member (hplain "line".toList (by decide)) hspace hspace
            (.string hmarker)) hspace))) hspace))) hblank)))
  have htext : (Tree.ofMembers ms).IsText text := ⟨[], _, [], hspace, hspelled, hspace, by decide⟩
  have hpairSpelled : Spells (.value pair) _ :=
    .object (.lastMember hspace (.member (hplain "open".toList (by decide)) hspace hspace
      (.string (hplain ['<'] (by decide)))) hspace)
  have hrootSpelled : Spells (.value root) _ :=
    .object (.lastMember hspace (.member (hplain "language".toList (by decide)) hspace hspace
      (.object (.lastMember hspace (.member (hplain "match_pairs".toList (by decide)) hspace hspace
        (.list (.lastItem hspace hpairSpelled hspace))) hspace))) hspace)
  have hroot : root.IsText refused := ⟨[], _, [], hspace, hrootSpelled, hspace, by decide⟩
  have hpair : RecordIn root .pair pair :=
    .matchPair (.language .settings (List.mem_singleton_self _)) (List.mem_singleton_self _)
      (List.mem_singleton_self _)
  have hfault : RecordKind.pair.HasFault pair :=
    ⟨("close".toList, 1), by decide, Or.inr ⟨rfl, rfl⟩⟩
  refine ⟨⟨hms, htext, hpartial, hnull, hroot, hpair, hfault⟩, ?_, ?_, ?_, ?_, ?_⟩
  · exact hread ms text hms htext
  · exact hlanguage language hpartial
  · exact hmarkers markers hnull
  · exact ((horder ms ms.reverse (List.reverse_perm ms).symm).1 hms).2
  · exact hrefused root refused .pair pair hroot hpair hfault

end EditingEngine
