/-!
# Arguments of the command line

Arguments are a script, or with `--file` the path of one, and flags that choose what is shown instead of
the printed values. They are taken from left to right: a request for the version ends the reading, and an
argument that cannot be taken makes the whole line a usage error.
-/

namespace ScriptLang.CommandLine

structure Options where
  file : Bool := false
  tokens : Bool := false
  ast : Bool := false
  dot : Bool := false
  json : Bool := false
  /-- The script or the path. -/
  contents : Option String := none

inductive Flag where
  | file
  | tokens
  | ast
  | dot
  | json
  | version

def Flag.ofLong? (name : String) : Option Flag :=
  match name with
  | "--file" => some .file
  | "--tokens" => some .tokens
  | "--ast" => some .ast
  | "--dot" => some .dot
  | "--json" => some .json
  | "--version" => some .version
  | _ => none

def Flag.ofShort? (char : Char) : Option Flag :=
  match char with
  | 'f' => some .file
  | 'V' => some .version
  | _ => none

/-- What a line asks for. -/
inductive Request where
  | version
  | script (options : Options) (contents : String)

/-- The path of the file that has to be read first, if there is one. -/
def Request.path? : Request → Option String
  | .script options contents => if options.file then some contents else none
  | .version => none

/-- What is known after some of the arguments. -/
inductive Reading where
  | options (options : Options)
  | version

/-- Takes one flag. A flag that was given before is refused. -/
def takeFlag (options : Options) (flag : Flag) : Option Reading :=
  match flag with
  | .file => if options.file then none else some (.options { options with file := true })
  | .tokens => if options.tokens then none else some (.options { options with tokens := true })
  | .ast => if options.ast then none else some (.options { options with ast := true })
  | .dot => if options.dot then none else some (.options { options with dot := true })
  | .json => if options.json then none else some (.options { options with json := true })
  | .version => some .version

/-- Takes the letters behind a single hyphen, each of which is a flag. -/
def takeShort (options : Options) : List Char → Option Reading
  | [] => some (.options options)
  | char :: rest => do
    match ← takeFlag options (← Flag.ofShort? char) with
    | .options options => takeShort options rest
    | .version => some .version

/-- Takes a script or path, of which there is only one. -/
def takePositional (options : Options) (argument : String) : Option Reading :=
  match options.contents with
  | none => some (.options { options with contents := some argument })
  | some _ => none

/-- Takes one argument before a bare double hyphen. -/
def takeArgument (options : Options) (argument : String) : Option Reading :=
  match argument.toList with
  | '-' :: '-' :: _ => do takeFlag options (← Flag.ofLong? argument)
  | '-' :: char :: rest => takeShort options (char :: rest)
  | _ => takePositional options argument

/-- Reads the arguments; `none` is a usage error. Behind a bare double hyphen there are no flags. -/
def read (options : Options) (flagsAllowed : Bool) : List String → Option Request
  | [] => options.contents.map (Request.script options)
  | argument :: rest => do
    if flagsAllowed && argument == "--" then read options false rest
    else
      match ← if flagsAllowed then takeArgument options argument else takePositional options argument with
      | .options options => read options flagsAllowed rest
      | .version => some .version

def request? (arguments : List String) : Option Request :=
  read {} true arguments

end ScriptLang.CommandLine
