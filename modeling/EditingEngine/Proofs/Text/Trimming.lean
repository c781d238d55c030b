import EditingEngine.Text.Blank
import Mathlib.Data.List.DropRight

/-!
# Trimmed texts

Trimming is a projection: a trimmed text begins and ends in characters that are not
blank, so trimming it again changes nothing. Blanks in front of a text are invisible
to it. The characters of a trimmed text are among those of the text, so trimming a
line never brings a line feed into it.
-/
namespace EditingEngine.Text

lemma dropTrailing_concat (p : Char → Bool) (text : Text) (c : Char) :
    dropTrailing p (text ++ [c]) = if p c then dropTrailing p text else text ++ [c] := by
  induction text with
  | nil => simp [dropTrailing]
  | cons d rest ih =>
    rw [List.cons_append, dropTrailing, ih]
    by_cases hc : p c = true
    · simp [hc, dropTrailing]
    · cases rest <;> simp [hc]

/-- Dropping a trailing run is the library's `rdropWhile`. -/
lemma dropTrailing_eq_rdropWhile (p : Char → Bool) (text : Text) :
    dropTrailing p text = text.rdropWhile p := by
  induction text using List.reverseRecOn with
  | nil => rfl
  | append_singleton text c ih => rw [dropTrailing_concat, List.rdropWhile_concat, ih]

@[simp] theorem dropTrailing_dropTrailing (p : Char → Bool) (text : Text) :
    dropTrailing p (dropTrailing p text) = dropTrailing p text := by
  simp only [dropTrailing_eq_rdropWhile]
  exact List.rdropWhile_idempotent p text

/-- The trimmed text begins where its text does, so nothing is left to drop in front. -/
@[simp] theorem trimStart_trim (text : Text) : text.trim.trimStart = text.trim := by
  obtain ⟨run, hrun, _⟩ := dropTrailing_prefix isBlank text.trimStart
  change text.trimStart = text.trim ++ run at hrun
  cases htrim : text.trim with
  | nil => rfl
  | cons c rest =>
    have hc : isBlank c = false := by
      have h := List.head?_dropWhile_not isBlank text
      rw [show text.dropWhile isBlank = c :: (rest ++ run) by
        simpa [htrim, trimStart] using hrun] at h
      exact h
    simp [trimStart, hc]

@[simp] theorem trim_trim (text : Text) : text.trim.trim = text.trim := by
  change dropTrailing isBlank text.trim.trimStart = text.trim
  rw [trimStart_trim]
  exact dropTrailing_dropTrailing isBlank text.trimStart

/-- Trimming takes a run of blanks from each end. -/
theorem exists_blanks_trim (text : Text) : ∃ front back, text = front ++ (text.trim ++ back) ∧
    (∀ c ∈ front, isBlank c = true) ∧ ∀ c ∈ back, isBlank c = true := by
  obtain ⟨back, hback, hblank⟩ := dropTrailing_prefix isBlank text.trimStart
  refine ⟨text.takeWhile isBlank, back, ?_, fun c hc => List.mem_takeWhile_imp hc, hblank⟩
  calc
    text = text.takeWhile isBlank ++ text.trimStart := List.takeWhile_append_dropWhile.symm
    _ = text.takeWhile isBlank ++ (text.trim ++ back) := congrArg _ hback

/-- The first character of a trimmed text is the first of the text that is not blank. -/
theorem head?_trim (text : Text) : text.trim.head? = text.trimStart.head? := by
  obtain ⟨run, hrun, hblank⟩ := dropTrailing_prefix isBlank text.trimStart
  change text.trimStart = text.trim ++ run at hrun
  cases htrim : text.trim with
  | cons c rest => rw [hrun, htrim]; rfl
  | nil =>
    rw [htrim, List.nil_append] at hrun
    have hall : text.trimStart.trimStart = [] := by
      rw [hrun]
      exact List.dropWhile_eq_nil_iff.mpr hblank
    have hself : text.trimStart.trimStart = text.trimStart := List.dropWhile_idempotent isBlank text
    rw [← hself, hall]

lemma isBlank_of_head?_trimStart {text : Text} {c : Char} (h : text.trimStart.head? = some c) :
    isBlank c = false := by
  have hhead := List.head?_dropWhile_not isBlank text
  rw [show (text.dropWhile isBlank).head? = some c from h] at hhead
  exact hhead

/-- A text is not trimmed away if it has a character that is no blank. -/
lemma trim_ne_nil {text : Text} {c : Char} (hmem : c ∈ text) (hc : isBlank c = false) :
    text.trim ≠ [] := by
  intro hnil
  obtain ⟨front, back, htext, hfront, hback⟩ := exists_blanks_trim text
  rw [htext, hnil, List.nil_append, List.mem_append] at hmem
  have hblank : isBlank c = true := hmem.elim (hfront c) (hback c)
  simp [hc] at hblank

/-- Exactly the blank texts are trimmed away. -/
theorem trim_eq_nil_iff {text : Text} : text.trim = [] ↔ ∀ c ∈ text, isBlank c = true := by
  constructor
  · intro hnil c hmem
    by_contra hc
    exact trim_ne_nil hmem (Bool.eq_false_iff.mpr hc) hnil
  · intro hblank
    have hstart : text.trimStart = [] := List.dropWhile_eq_nil_iff.mpr hblank
    rw [trim, hstart, dropTrailing]

/-- A text without its blanks. -/
def visible (text : Text) : Text := text.filter (!isBlank ·)

@[simp] theorem visible_append (front back : Text) :
    visible (front ++ back) = front.visible ++ back.visible := List.filter_append front back

theorem visible_eq_nil_iff {text : Text} : text.visible = [] ↔ ∀ c ∈ text, isBlank c = true := by
  simp [visible, List.filter_eq_nil_iff]

/-- Trimming takes nothing but blanks off. -/
@[simp] theorem visible_trim (text : Text) : text.trim.visible = text.visible := by
  obtain ⟨front, back, htext, hfront, hback⟩ := exists_blanks_trim text
  calc
    text.trim.visible = front.visible ++ (text.trim.visible ++ back.visible) := by
      rw [visible_eq_nil_iff.mpr hfront, visible_eq_nil_iff.mpr hback, List.append_nil,
        List.nil_append]
    _ = visible (front ++ (text.trim ++ back)) := by simp
    _ = text.visible := by rw [← htext]

theorem trim_append_of_blank {blanks : Text} (h : ∀ c ∈ blanks, isBlank c = true) (text : Text) :
    (blanks ++ text).trim = text.trim := by
  simp only [trim, trimStart, List.dropWhile_append_of_pos h]

theorem mem_of_mem_trim {c : Char} {text : Text} (h : c ∈ text.trim) : c ∈ text := by
  obtain ⟨run, hrun, _⟩ := dropTrailing_prefix isBlank text.trimStart
  have hstart : c ∈ text.trimStart := by
    rw [hrun]
    exact List.mem_append_left run h
  exact (List.dropWhile_suffix isBlank).subset hstart

end EditingEngine.Text
