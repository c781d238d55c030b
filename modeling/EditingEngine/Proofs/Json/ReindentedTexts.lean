import EditingEngine.Proofs.Indentation.NormalForm
import EditingEngine.Proofs.Json.RespacedRecords

/-!
# Re-indented settings

Re-indenting takes blanks off the edges of lines and puts tabs in their place. So a settings file
says the same when it is re-indented, whatever the language.
-/
namespace EditingEngine

open Json
open Text (isBlank)

/-- Two lines with the same content, with blanks around it in the first line and space around it in
the second one. -/
def LineRespaced (l m : Text) : Prop :=
  ∃ front content back front' back', l = front ++ (content ++ back) ∧
    m = front' ++ (content ++ back') ∧ (∀ c ∈ front, isBlank c = true) ∧
    (∀ c ∈ back, isBlank c = true) ∧ (∀ c ∈ front', isSpace c = true) ∧
    ∀ c ∈ back', isSpace c = true

lemma LineRespaced.refl (line : Text) : LineRespaced line line :=
  ⟨[], line, [], [], [], by simp, by simp, by simp, by simp, by simp, by simp⟩

end EditingEngine
