/-!
# Command-line arguments

Arguments are read from left to right. The option `-w` or `--write` asks for the
result to be written into the input file, `--check` only for word whether it would
change, and `-c` or `--config` names a settings file, in the next argument, behind
an equals sign or right behind the letter. Short options may be joined. What is no
option is the input path, as is everything behind `--`. The first fault ends the
reading, and so does a request for help or for the version. Options that exclude
each other are found only when all arguments have been read.
-/
namespace EditingEngine.CommandLine

structure Options where
  /-- The path of the settings file. -/
  config : Option String
  /-- The path of the input; without one it is read from the standard input. -/
  input : Option String
  check : Bool
  write : Bool
  deriving DecidableEq, Repr

/-- What the arguments ask for. -/
inductive Request where
  | help
  | version
  /-- The arguments cannot be understood. -/
  | unclear
  | format (options : Options)
  deriving DecidableEq, Repr

/-- What one argument leads to. -/
inductive Progress where
  | stop (request : Request)
  | go (options : Options)
  /-- The next argument is the path of the settings file. -/
  | wantsConfig (options : Options)
  /-- Every later argument is a path. -/
  | onlyPaths (options : Options)
  deriving DecidableEq, Repr

namespace Options

def none : Options := ⟨.none, .none, false, false⟩

/-- Go on with options, if there are any. -/
def orUnclear : Option Options → Progress
  | some o => .go o
  | .none => .stop .unclear

/-- Options are given once. -/
def setCheck? (o : Options) : Option Options :=
  if o.check then .none else some { o with check := true }

def setWrite? (o : Options) : Option Options :=
  if o.write then .none else some { o with write := true }

/-- Paths are not empty. -/
def setConfig? (o : Options) (path : String) : Option Options :=
  if o.config.isSome || path.isEmpty then .none else some { o with config := some path }

def setInput? (o : Options) (path : String) : Option Options :=
  if o.input.isSome || path.isEmpty then .none else some { o with input := some path }

/-- Checking and writing exclude each other, and only a file can be written. -/
def complete (o : Options) : Request :=
  if o.write && (o.check || o.input.isNone) then .unclear else .format o

/-- Read joined short options. -/
def readShort (o : Options) : List Char → Progress
  | [] => .go o
  | 'h' :: _ => .stop .help
  | 'V' :: _ => .stop .version
  | 'w' :: rest =>
    match o.setWrite? with
    | some o => o.readShort rest
    | .none => .stop .unclear
  | ['c'] => .wantsConfig o
  | 'c' :: '=' :: path => orUnclear (o.setConfig? (String.ofList path))
  | 'c' :: path => orUnclear (o.setConfig? (String.ofList path))
  | _ :: _ => .stop .unclear

/-- Read a long option without its dashes. -/
def readLong (o : Options) (option : String) : Progress :=
  if option = "help" then .stop .help
  else if option = "version" then .stop .version
  else if option = "check" then orUnclear o.setCheck?
  else if option = "write" then orUnclear o.setWrite?
  else if option = "config" then .wantsConfig o
  else
    match "config=".toList.isPrefixOf option.toList with
    | true => orUnclear (o.setConfig? (String.ofList (option.toList.drop 7)))
    | false => .stop .unclear

/-- Read one argument. A single dash is a path. -/
def readArgument (o : Options) (arg : String) : Progress :=
  match arg.toList with
  | ['-', '-'] => .onlyPaths o
  | '-' :: '-' :: option => o.readLong (String.ofList option)
  | '-' :: c :: rest => o.readShort (c :: rest)
  | _ => orUnclear (o.setInput? arg)

/-- Read arguments that are all paths. -/
def readPaths (o : Options) : List String → Request
  | [] => o.complete
  | path :: rest =>
    match o.setInput? path with
    | some o => o.readPaths rest
    | .none => .unclear

/-- Whether an argument cannot be the value of the option in front of it. -/
def looksLikeOption (arg : String) : Bool :=
  match arg.toList with
  | '-' :: _ :: _ => true
  | _ => false

/-- Read the arguments that are left. -/
def readAll (o : Options) : List String → Request
  | [] => o.complete
  | arg :: rest =>
    match o.readArgument arg with
    | .stop request => request
    | .go o => o.readAll rest
    | .onlyPaths o => o.readPaths rest
    | .wantsConfig o =>
      match rest with
      | [] => .unclear
      | path :: rest =>
        if looksLikeOption path then .unclear
        else
          match o.setConfig? path with
          | some o => o.readAll rest
          | .none => .unclear

end Options

/-- What the help option prints. -/
def helpText : String :=
  "Usage: snippet-beautify [--config FILE] [--check | --write] [FILE]\n"

/-- Read all arguments. -/
def Request.ofArguments (args : List String) : Request := Options.none.readAll args

end EditingEngine.CommandLine
