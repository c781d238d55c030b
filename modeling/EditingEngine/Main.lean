import EditingEngine.CommandLine.Formatter

/-!
# The command line

Reads the files that the arguments name, lets the formatter decide, and prints or
writes what it decided.
-/
namespace EditingEngine.CommandLine

/-- Why the system refuses to read a file. -/
def ReadError.ofSystem : IO.Error → ReadError
  | .noFileOrDirectory _ _ _ => .missing
  | .inappropriateType _ code _ => if code = 21 then .isDirectory else .notDirectory
  | .invalidArgument (some _) _ _ => .nameTooLong
  | .permissionDenied _ _ _ => .other "Permission denied (os error 13)"
  | e => .other (toString e)

/-- Read a file. -/
def readPath (path : String) : IO (Except ReadError Contents) := do
  try
    return .ok (.ofBytes (← IO.FS.readBinFile path))
  catch e => return .error (.ofSystem e)

/-- Read the standard input to its end. -/
def readInput : IO (Except ReadError Contents) := do
  return .ok (.ofBytes (← (← IO.getStdin).readBinToEnd))

/-- Report a failure and give the exit status for it. -/
def report (failure : Failure) : IO UInt32 := do
  IO.eprintln ("error: " ++ failure.message)
  return 2

/-- Write the input file if that is to be done, and print the output. -/
def carryOut (options : Options) (verdict : Verdict) : IO UInt32 := do
  if let (some path, some result) := (options.input, verdict.replacement) then
    try IO.FS.writeFile path (String.ofList result)
    catch e => return ← report (.unreadable (.ofSystem e))
  IO.print (String.ofList verdict.output)
  return verdict.status.toUInt32

/-- Format with options, and give the exit status. -/
def formatFiles (options : Options) : IO UInt32 := do
  let config ← options.config.mapM readPath
  match languageOf config with
  | .error failure => report failure
  | .ok lang =>
    let file ← match options.input with
      | some path => readPath path
      | none => readInput
    match textOf file with
    | .error failure => report failure
    | .ok text => carryOut options (format options lang text)

end EditingEngine.CommandLine

open EditingEngine.CommandLine in
def main (args : List String) : IO UInt32 := do
  match Request.ofArguments args with
  | .help =>
    IO.print helpText
    return 0
  | .version =>
    IO.print (String.ofList versionText)
    return 0
  | .unclear => report .unclearArguments
  | .format options => formatFiles options
