import ScriptLang.Grammar.Expr
/-!
# Statements and programs

A statement's expression and the statements in its blocks have one level less than the statement itself. An
`elseif` reads as a conditional in the alternative of the one before, one level further down.
-/

namespace ScriptLang.Grammar

/-- The rules for one level: a statement, and what follows the keyword of a conditional. -/
structure Level where
  statement : Rule Statement
  conditional : Token → Rule Statement

/-- Whether a block or a program has no further statement here. -/
def Cursor.atBlockEnd (cursor : Cursor) : Bool :=
  match cursor.rest with
  | [] => true
  | token :: _ => token.kind = .closeBrace

/-- Statements up to a closing brace or the end, but no more than the bound. -/
def statementsWithin (item : Rule Statement) : Nat → Rule (List Statement)
  | 0 => return []
  | bound + 1 => do
    if (← get).atBlockEnd then return []
    else
      let first ← item
      return first :: (← statementsWithin item bound)

/-- Statements up to a closing brace or the end. Every statement takes a token, so there are never more of
them than tokens. -/
def statements (item : Rule Statement) : Rule (List Statement) := do
  statementsWithin item (← get).rest.length

/-- Statements in braces. -/
def block (item : Rule Statement) : Rule (List Statement) := do
  let _ ← Rule.expect .openBrace
  let body ← statements item
  let _ ← Rule.expect .closeBrace
  return body

/-- The whole number of rounds of a counted loop. -/
def loopCount : Rule Int64 := do
  let token ← Rule.expect .number
  match ← number token with
  | .int count => return count
  | _ => throw (.invalidLoopCount token)

/-- A condition, a block, and an alternative if there is one. -/
def conditional (room : Nat) (below : Level) : Rule Statement := do
  let condition ← expr room .comparison
  let body ← block below.statement
  match ← Rule.takeIf fun kind => if kind = .elseifWord ∨ kind = .elseWord then some kind else none with
  | none => return .ifElse condition body none
  | some (.elseifWord, token) => return .ifElse condition body (some [← below.conditional token])
  | some _ => return .ifElse condition body (some (← block below.statement))

/-- What follows the first token of a statement. -/
def afterFirst (room : Nat) (below : Level) (first : Token) : Rule Statement :=
  match first.kind with
  | .identifier => do
    let _ ← Rule.expect .assign
    return .assign first.text (← expr room .comparison)
  | .printWord => do
    let _ ← Rule.expect .openParen
    let value ← expr room .comparison
    let _ ← Rule.expect .closeParen
    return .print value
  | .ifWord => conditional room below
  | .whileWord => do
    let condition ← expr room .comparison
    return .whileLoop condition (← block below.statement)
  | .forWord => do
    let name ← Rule.expect .identifier
    let _ ← Rule.expect .inWord
    let _ ← Rule.expect .rangeWord
    let _ ← Rule.expect .openParen
    let count ← loopCount
    let _ ← Rule.expect .closeParen
    return .forRange name.text count (← block below.statement)
  | _ => throw (.unexpectedToken first)

def statement (room : Nat) (below : Level) : Rule Statement := do
  let first ← Rule.next
  let result ← afterFirst room below first
  Rule.close first
  return result

/-- The rules for a level with this much room. A conditional without room fails at its keyword. -/
def level : Nat → Level
  | 0 => ⟨Rule.tooDeep, fun keyword => throw (.nestingTooDeep keyword)⟩
  | room + 1 => ⟨statement room (level room), fun _ => conditional room (level room)⟩

/-- The number of levels that may be nested in each other. -/
def levelLimit : Nat := 128

/-- The room that is left at a depth, where the statements of a program have depth one. -/
def roomAt (depth : Nat) : Nat :=
  levelLimit + 1 - depth

def program : Rule Program := do
  let body ← statements (level (roomAt 1)).statement
  Rule.atEnd
  return ⟨body⟩

end ScriptLang.Grammar
