import ScriptLang.Execution
import ScriptLang.Grammar.Statement
import ScriptLang.Token.Scan
/-!
# From a source to its outcome

A source is scanned, its tokens without the comments are read as a program, and the program is executed.
Each stage can fail in its own way.
-/

namespace ScriptLang

inductive ScriptError where
  | illegal (characters : List IllegalCharacter)
  | malformed (error : SyntaxError)
  | runtime (error : RuntimeError)
  deriving DecidableEq

namespace ScriptError

/-- One message for each thing that is wrong. -/
def messages : ScriptError → List String
  | illegal characters => characters.map IllegalCharacter.message
  | malformed error => [error.message]
  | runtime error => [error.message]

def message (error : ScriptError) : String :=
  "\n".intercalate error.messages

end ScriptError

/-- The tokens that a program is read from. -/
def withoutComments (tokens : List Token) : List Token :=
  tokens.filter fun token => token.kind ≠ .comment

namespace Program

/-- Reads a program and keeps what the rule leaves behind. -/
def readTokens (tokens : List Token) : EStateM.Result SyntaxError Grammar.Cursor Program :=
  Grammar.program (Grammar.Cursor.start (withoutComments tokens))

def ofTokens (tokens : List Token) : Except SyntaxError Program :=
  match readTokens tokens with
  | .ok program _ => .ok program
  | .error error _ => .error error

def ofSource (source : String) : Except ScriptError Program :=
  match scan source with
  | .error characters => .error (.illegal characters)
  | .ok tokens =>
    match ofTokens tokens with
    | .error error => .error (.malformed error)
    | .ok program => .ok program

end Program

/-- An expression read from the front of a source, whatever follows it. -/
def Expr.ofSource (source : String) : Except ScriptError Expr :=
  match scan source with
  | .error characters => .error (.illegal characters)
  | .ok tokens =>
    match Grammar.expr (Grammar.roomAt 1) .comparison (Grammar.Cursor.start tokens) with
    | .error error _ => .error (.malformed error)
    | .ok expr _ => .ok expr

end ScriptLang
