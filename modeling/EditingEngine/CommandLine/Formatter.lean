import EditingEngine.CommandLine.Arguments
import EditingEngine.Indentation.Reindent
import EditingEngine.Json.Forms

/-!
# The formatter

The formatter re-indents a file, or its standard input, and prints the result. With
`--check` it prints nothing and its exit status is one if the text would change, and
with `--write` it writes the result into the file in place of printing it, if the
text changes. Only the language of the settings matters. The settings are read
before the input, and a fault in either of them ends the run with status two and
nothing done.
-/
namespace EditingEngine.CommandLine

/-- What a file holds, or the standard input. -/
inductive Contents where
  | text (text : Text)
  /-- Bytes that are not UTF-8. -/
  | binary (bytes : ByteArray)

/-- Why a file cannot be read. -/
inductive ReadError where
  | missing
  | isDirectory
  /-- A part of the path in front of its end names a file. -/
  | notDirectory
  /-- A name on the path, or the whole path, is too long. -/
  | nameTooLong
  | other (message : String)
  deriving DecidableEq, Repr

def ReadError.message : ReadError → String
  | missing => "No such file or directory (os error 2)"
  | isDirectory => "Is a directory (os error 21)"
  | notDirectory => "Not a directory (os error 20)"
  | nameTooLong => "File name too long (os error 36)"
  | other message => message

/-- Why a run ends with status two. -/
inductive Failure where
  | unclearArguments
  | unreadable (error : ReadError)
  | notText
  | invalidSettings (fault : SettingsFault)
  deriving DecidableEq, Repr

def Failure.message : Failure → String
  | unclearArguments => "unclear arguments"
  | unreadable error => error.message
  | notText => "stream did not contain valid UTF-8"
  | invalidSettings (.unreadable _) => "invalid configuration"
  | invalidSettings (.invalid error) => error.message

namespace Contents

def ofBytes (bytes : ByteArray) : Contents :=
  match String.fromUTF8? bytes with
  | some s => text s.toList
  | none => binary bytes

end Contents

/-- The text that was read. -/
def textOf : Except ReadError Contents → Except Failure Text
  | .error e => .error (.unreadable e)
  | .ok (.binary _) => .error .notText
  | .ok (.text t) => .ok t

/-- The language of the settings that were read, or of the standard settings if there is no
settings file. -/
def languageOf : Option (Except ReadError Contents) → Except Failure Language
  | none => .ok Settings.standard.language
  | some file => do
    match Settings.ofText (← textOf file) with
    | .ok s => .ok s.language
    | .error f => .error (.invalidSettings f)

/-- What is to be done with a re-indented text. -/
structure Verdict where
  status : Nat
  output : Text
  /-- The new text of the input file, if it is to be written. -/
  replacement : Option Text
  deriving DecidableEq, Repr

/-- Re-indent a text and decide what to do. -/
def format (options : Options) (lang : Language) (text : Text) : Verdict :=
  let result := reindent lang text
  if options.check then ⟨if result = text then 0 else 1, [], none⟩
  else if options.write && options.input.isSome then
    ⟨0, [], if result = text then none else some result⟩
  else ⟨0, result, none⟩

/-- What the version option prints. -/
def versionText : Text := "snippet-beautify 0.1.0\n".toList

end EditingEngine.CommandLine
