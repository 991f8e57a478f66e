import ScriptLang.Script
/-!
# The log of a run

What happens while a source is scanned, read and executed is told step by step. All of it can be seen in the
results of the stages, so the log is made from these.
-/

namespace ScriptLang

inductive LogLevel where
  | warn
  | debug
  | trace
  deriving DecidableEq

def LogLevel.name : LogLevel → String
  | warn => "WARN"
  | debug => "DEBUG"
  | trace => "TRACE"

structure LogEntry where
  level : LogLevel
  message : String
  deriving DecidableEq

namespace Log

def ofScan (source : String) : List LogEntry :=
  let tokens := tokensOf source
  let illegals := illegalCharactersOf source
  illegals.map (fun illegal => ⟨.warn, illegal.message⟩) ++
    [⟨.debug, s!"lexed {tokens.length} tokens with {illegals.length} errors"⟩]

def ofClosedLines (cursor : Grammar.Cursor) : List LogEntry :=
  cursor.closedLines.toList.map fun line => ⟨.trace, s!"parsed statement at line {line}"⟩

def ofOutput (state : State) : List LogEntry :=
  state.output.toList.map fun value => ⟨.trace, s!"print {value.text}"⟩

/-- The entries of an execution, and whether it succeeded. -/
def ofOutcome : Outcome → List LogEntry × Bool
  | .done state =>
    let printed := state.output.size
    let bound := state.environment.size
    (ofOutput state ++
      [⟨.debug, s!"run finished: {printed} value(s) printed, {bound} variable(s) bound"⟩], true)
  | .failed _ state => (ofOutput state, false)
  | .unfinished state => (ofOutput state, false)

/-- The entries of reading a program from tokens and of executing it. -/
def ofProgram (limit : Nat) (tokens : List Token) : List LogEntry × Bool :=
  match Program.readTokens tokens with
  | .error _ cursor => (ofClosedLines cursor, false)
  | .ok program cursor =>
    let (executed, succeeded) := ofOutcome (program.run limit)
    let count := program.statements.length
    (ofClosedLines cursor ++ ⟨.debug, s!"parsed {count} top-level statements"⟩ :: executed, succeeded)

/-- The entries of a run of a source, and whether it succeeded. -/
def ofRun (limit : Nat) (source : String) : List LogEntry × Bool :=
  match scan source with
  | .error _ => (ofScan source, false)
  | .ok tokens =>
    let (entries, succeeded) := ofProgram limit tokens
    (ofScan source ++ entries, succeeded)

end Log

end ScriptLang
