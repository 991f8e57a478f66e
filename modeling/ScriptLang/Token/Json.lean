import ScriptLang.Json
import ScriptLang.Token
/-!
# Tokens as JSON
-/

namespace ScriptLang

/-- A token as the pair of its kind and its text. -/
def Token.toJson (token : Token) : Json :=
  .array [.string token.kind.name, .string token.text]

def tokensJson (tokens : List Token) : Json :=
  .array (tokens.map Token.toJson)

end ScriptLang
