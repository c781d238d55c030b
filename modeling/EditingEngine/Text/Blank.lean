import EditingEngine.Text.Lines

/-!
# Blank characters and trimming

The blank characters are those with the Unicode property `White_Space`, given by
closed ranges of scalar values in increasing order. Trimming takes the blanks off the
two ends of a line and leaves those between its words.
-/
namespace EditingEngine

/-- The scalar values from `first` to `last`, both included. -/
structure CharRange where
  first : Nat
  last : Nat
  deriving DecidableEq, Repr

def CharRange.contains (r : CharRange) (c : Char) : Bool :=
  r.first ≤ c.toNat && c.toNat ≤ r.last

namespace Text

/-- The scalar values with the property `White_Space`. -/
def blankRanges : List CharRange :=
  [⟨0x9, 0xD⟩, ⟨0x20, 0x20⟩, ⟨0x85, 0x85⟩, ⟨0xA0, 0xA0⟩, ⟨0x1680, 0x1680⟩, ⟨0x2000, 0x200A⟩,
    ⟨0x2028, 0x2029⟩, ⟨0x202F, 0x202F⟩, ⟨0x205F, 0x205F⟩, ⟨0x3000, 0x3000⟩]

def isBlank (c : Char) : Bool := blankRanges.any (·.contains c)

/-- A text without the longest run of characters in `p` at its end. -/
def dropTrailing (p : Char → Bool) : Text → Text
  | [] => []
  | c :: rest =>
    match dropTrailing p rest with
    | [] => if p c then [] else [c]
    | kept => c :: kept

def trimStart (text : Text) : Text := text.dropWhile isBlank

def trim (text : Text) : Text := dropTrailing isBlank text.trimStart

/-- The number of blanks in front of a line. -/
def leadingBlanks (text : Text) : Nat := text.length - text.trimStart.length

@[simp] theorem trim_nil : trim [] = [] := rfl

theorem dropTrailing_prefix (p : Char → Bool) (text : Text) :
    ∃ run, text = dropTrailing p text ++ run ∧ ∀ c ∈ run, p c = true := by
  induction text with
  | nil => exact ⟨[], by simp [dropTrailing]⟩
  | cons c rest ih =>
    obtain ⟨run, hrest, hrun⟩ := ih
    cases hk : dropTrailing p rest with
    | nil =>
      rw [hk, List.nil_append] at hrest
      by_cases hc : p c = true
      · exact ⟨c :: run, by rw [dropTrailing, hk]; simp [hc, hrest], by simpa [hc] using hrun⟩
      · exact ⟨run, by rw [dropTrailing, hk]; simp [hc, hrest], hrun⟩
    | cons d kept =>
      refine ⟨run, ?_, hrun⟩
      rw [hk] at hrest
      simp [dropTrailing, hk, ← hrest]

end Text
end EditingEngine
