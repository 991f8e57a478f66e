import ScriptLang.CommandLine.Arguments
import ScriptLang.Diagram
import ScriptLang.Program.Json
import ScriptLang.Script
import ScriptLang.Token.Json
/-!
# Answers of the command line

An answer is what goes to the two output streams, and an exit code: zero for success, one for a script with
an error, two for a script that could not be had at all. With `--json` an error is part of the output.
-/

namespace ScriptLang.CommandLine

/-- What a line leads to: the two output texts and the exit code. -/
structure Answer where
  exitCode : UInt8
  stdout : String
  stderr : String

def versionAnswer : Answer := ⟨0, "pisc 0.1.0\n", ""⟩

def usageAnswer : Answer :=
  ⟨2, "", "Usage: pisc [--file] [--tokens] [--ast] [--dot] [--json] [--] <CONTENTS>\n"⟩

/-- Why a file cannot be read. -/
inductive ReadFailure where
  | missing
  | notText
  | other (reason : String)

def ReadFailure.reason : ReadFailure → String
  | missing => "No such file or directory (os error 2)"
  | notText => "stream did not contain valid UTF-8"
  | other reason => reason

/-- The text that the bytes of a file stand for. -/
def decodeFile (bytes : ByteArray) : Except ReadFailure String :=
  match String.fromUTF8? bytes with
  | some text => .ok text
  | none => .error .notText

def readFailureAnswer (path : String) (failure : ReadFailure) : Answer :=
  let reason := failure.reason
  ⟨2, "", s!"Failed to read the input file '{path}'. Perhaps this file does not exist? ({reason})\n"⟩

/-- Tells of an error, after what was printed before it. -/
def errorAnswer (options : Options) (printed : String) (error : ScriptError) : Answer :=
  if options.json then
    let errors := Json.object [("errors", .array (error.messages.map .string))]
    ⟨1, printed ++ errors.render ++ "\n", ""⟩
  else ⟨1, printed, error.message ++ "\n"⟩

/-- A printed value on a line of its own. -/
def printedLines (output : Array Value) : String :=
  String.join (output.toList.map fun value => value.text ++ "\n")

/-- Executes a program and tells what it printed. -/
def runAnswer (limit : Nat) (options : Options) (program : Program) : Answer :=
  match program.run limit with
  | .done state =>
    if options.json then ⟨0, (reportJson program state.output).render ++ "\n", ""⟩
    else ⟨0, printedLines state.output, ""⟩
  | .failed error state =>
    errorAnswer options (if options.json then "" else printedLines state.output) (.runtime error)
  | .unfinished state => ⟨1, printedLines state.output, "The script did not end\n"⟩

/-- Does with a script what the options ask for. Tokens are shown rather than the tree, the tree rather
than its diagram, and the diagram rather than the result. -/
def scriptAnswer (limit : Nat) (options : Options) (script : String) : Answer :=
  if options.tokens then
    match scan script with
    | .error characters => errorAnswer options "" (.illegal characters)
    | .ok tokens => ⟨0, (tokensJson tokens).render ++ "\n", ""⟩
  else
    match Program.ofSource script with
    | .error error => errorAnswer options "" error
    | .ok program =>
      if options.ast then ⟨0, program.toJson.renderLines 0 ++ "\n", ""⟩
      else if options.dot then ⟨0, program.diagram.render, ""⟩
      else runAnswer limit options program

/-- Answers a request. The file is what reading the path has given, where the request has one. -/
def Request.answer (limit : Nat) (request : Request) (file : Except ReadFailure String) : Answer :=
  match request with
  | .version => versionAnswer
  | .script options contents =>
    if options.file then
      match file with
      | .error failure => readFailureAnswer contents failure
      | .ok text => scriptAnswer limit options text
    else scriptAnswer limit options contents

end ScriptLang.CommandLine
