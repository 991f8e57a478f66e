import ScriptLang.SyntaxError
/-!
# Rules

A rule of the grammar takes tokens from the front of a list. It succeeds with what it has read or fails with
an error, and in both cases leaves the tokens that it has not taken. A token that was only looked at is not
taken; a token that a rule has refused is.
-/

namespace ScriptLang.Grammar

/-- The tokens that are left, and the lines on which the statements read so far begin, in the order in which
they were completed. -/
structure Cursor where
  rest : List Token
  closedLines : Array Nat

/-- A cursor before the first token. -/
def Cursor.start (tokens : List Token) : Cursor := ⟨tokens, #[]⟩

abbrev Rule := EStateM SyntaxError Cursor

namespace Rule

/-- Takes a token. -/
def next : Rule Token := fun cursor =>
  match cursor.rest with
  | [] => .error .endOfInput cursor
  | token :: rest => .ok token { cursor with rest }

/-- Takes a token, which has to be of this kind. -/
def expect (kind : Kind) : Rule Token := do
  let token ← next
  if token.kind = kind then return token else throw (.unexpectedToken token)

/-- Takes a token if its kind is one that the function knows. -/
def takeIf {α : Type} (known : Kind → Option α) : Rule (Option (α × Token)) := fun cursor =>
  match cursor.rest with
  | [] => .ok none cursor
  | token :: rest =>
    match known token.kind with
    | some found => .ok (some (found, token)) { cursor with rest }
    | none => .ok none cursor

/-- Takes a token and fails, because there is no level left for what it begins. -/
def tooDeep {α : Type} : Rule α := do
  let token ← next
  throw (.nestingTooDeep token)

/-- Succeeds at the end of the tokens. -/
def atEnd : Rule Unit := fun cursor =>
  match cursor.rest with
  | [] => .ok () cursor
  | token :: rest => .error (.unexpectedToken token) { cursor with rest }

/-- Notes that the statement that begins with this token is complete. -/
def close (token : Token) : Rule Unit := fun cursor =>
  .ok () { cursor with closedLines := cursor.closedLines.push token.position.line }

end Rule

end ScriptLang.Grammar
