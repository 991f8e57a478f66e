import ScriptLang.CommandLine.Answer
/-!
# The program

Reads the arguments and the file, and writes the answer.
-/

namespace ScriptLang.CommandLine

/-- The text of a file. -/
def readScript (path : String) : IO (Except ReadFailure String) := do
  try
    return decodeFile (← IO.FS.readBinFile path)
  catch error =>
    match error with
    | .noFileOrDirectory .. => return .error .missing
    | _ => return .error (.other error.toString)

/-- A loop may test its condition more often than any machine can. -/
def noLimit : Nat := Nat.pow 2 62

def answerArguments (arguments : List String) : IO Answer := do
  match request? arguments with
  | none => return usageAnswer
  | some request =>
    let file ← match request.path? with
      | some path => readScript path
      | none => pure (.error .missing)
    return request.answer noLimit file

end ScriptLang.CommandLine

def main (arguments : List String) : IO UInt32 := do
  let answer ← ScriptLang.CommandLine.answerArguments arguments
  (← IO.getStdout).putStr answer.stdout
  (← IO.getStderr).putStr answer.stderr
  return answer.exitCode.toUInt32
