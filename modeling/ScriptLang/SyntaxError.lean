import ScriptLang.Token
/-!
# What can be wrong with a list of tokens

Every error but the end of the input points at the token that caused it.
-/

namespace ScriptLang

inductive SyntaxError where
  | unexpectedToken (token : Token)
  | endOfInput
  | literalTooLarge (token : Token)
  | invalidLoopCount (token : Token)
  | nestingTooDeep (token : Token)
  deriving DecidableEq

namespace SyntaxError

/-- The place of a token as messages tell it: its line, and its byte offset. -/
def place (token : Token) : String :=
  s!"line {token.position.line}, pos {token.position.offset}"

def message : SyntaxError → String
  | unexpectedToken token =>
    s!"Syntax error at token '{token.kind.name}', value '{token.text}', {place token}"
  | endOfInput => "Unexpected end of input"
  | literalTooLarge token => s!"Literal '{token.text}' is too large, {place token}"
  | invalidLoopCount token => s!"Loop count '{token.text}' must be a whole number, {place token}"
  | nestingTooDeep token => s!"Nesting too deep, {place token}"

end SyntaxError

end ScriptLang
