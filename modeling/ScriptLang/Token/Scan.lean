import ScriptLang.Token
/-!
# Scanning a source

A source is cut into pieces from left to right: blanks, tokens, and characters that begin no token. A token
takes as many characters as it can. After an illegal character scanning goes on with the next one, so the
text behind an unclosed quote is scanned afresh. Nothing is lost: the pieces make up the source.
-/

namespace ScriptLang

/-! ### The token at the front of a text -/

/-- A kind of token and the text it takes. -/
structure Lexeme where
  kind : Kind
  text : List Char
  deriving DecidableEq

def isBlank (char : Char) : Bool :=
  char == ' ' || char == '\t' || char == '\r' || char == '\n'

def isWordStart (char : Char) : Bool :=
  char.isAlpha || char == '_'

def isWordPart (char : Char) : Bool :=
  char.isAlphanum || char == '_'

namespace Lexeme

/-- A letter or underscore, and all letters, digits and underscores behind it. -/
def word (text : List Char) : Lexeme :=
  let letters := text.takeWhile isWordPart
  ⟨Kind.ofWord (String.ofList letters), letters⟩

/-- Digits, and a fraction if a digit follows the point. -/
def number (text : List Char) : Lexeme :=
  let whole := text.takeWhile Char.isDigit
  match text.dropWhile Char.isDigit with
  | '.' :: digit :: rest =>
    if digit.isDigit then ⟨.number, whole ++ '.' :: digit :: rest.takeWhile Char.isDigit⟩
    else ⟨.number, whole⟩
  | _ => ⟨.number, whole⟩

/-- All characters up to the end of the line. -/
def comment (text : List Char) : Lexeme :=
  ⟨.comment, text.takeWhile (· ≠ '\n')⟩

/-- What stands behind an opening quote, up to and with the closing one. A backslash takes the character
behind it along, whatever it is but the end of the line. -/
def quotedTail? : List Char → Option (List Char)
  | [] => none
  | '"' :: _ => some ['"']
  | ['\\'] => none
  | '\\' :: escaped :: rest =>
    if escaped = '\n' then none else (quotedTail? rest).map fun tail => '\\' :: escaped :: tail
  | char :: rest => (quotedTail? rest).map fun tail => char :: tail

/-- The longest operator or bracket at the front of a text. -/
def symbol? : List Char → Option Lexeme
  | '=' :: '=' :: _ => some ⟨.equal, ['=', '=']⟩
  | '!' :: '=' :: _ => some ⟨.notEqual, ['!', '=']⟩
  | '<' :: '=' :: _ => some ⟨.lessEqual, ['<', '=']⟩
  | '>' :: '=' :: _ => some ⟨.greaterEqual, ['>', '=']⟩
  | '=' :: _ => some ⟨.assign, ['=']⟩
  | '<' :: _ => some ⟨.less, ['<']⟩
  | '>' :: _ => some ⟨.greater, ['>']⟩
  | '+' :: _ => some ⟨.plus, ['+']⟩
  | '-' :: _ => some ⟨.minus, ['-']⟩
  | '*' :: _ => some ⟨.times, ['*']⟩
  | '/' :: _ => some ⟨.divide, ['/']⟩
  | '(' :: _ => some ⟨.openParen, ['(']⟩
  | ')' :: _ => some ⟨.closeParen, [')']⟩
  | '[' :: _ => some ⟨.openBracket, ['[']⟩
  | ']' :: _ => some ⟨.closeBracket, [']']⟩
  | '{' :: _ => some ⟨.openBrace, ['{']⟩
  | '}' :: _ => some ⟨.closeBrace, ['}']⟩
  | '.' :: _ => some ⟨.dot, ['.']⟩
  | ';' :: _ => some ⟨.semicolon, [';']⟩
  | ',' :: _ => some ⟨.comma, [',']⟩
  | ':' :: _ => some ⟨.colon, [':']⟩
  | _ => none

/-- The token at the front of a text. Its first character tells what it can be. -/
def atFront? : List Char → Option Lexeme
  | [] => none
  | first :: rest =>
    if isWordStart first then some (word (first :: rest))
    else if first.isDigit then some (number (first :: rest))
    else if first = '#' then some (comment (first :: rest))
    else if first = '"' then (quotedTail? rest).map fun tail => ⟨.string, first :: tail⟩
    else symbol? (first :: rest)

end Lexeme

/-! ### The pieces of a source -/

inductive Piece where
  | blank (char : Char)
  | token (found : Token)
  | illegal (found : IllegalCharacter)
  deriving DecidableEq

namespace Piece

/-- The part of the source that a piece covers. -/
def text : Piece → List Char
  | .blank char => [char]
  | .token found => found.text.toList
  | .illegal found => [found.char]

def token? : Piece → Option Token
  | .token found => some found
  | _ => none

def illegal? : Piece → Option IllegalCharacter
  | .illegal found => some found
  | _ => none

/-- Cuts a text that starts at the given place. -/
def cut (position : Position) : List Char → List Piece
  | [] => []
  | first :: rest =>
    if isBlank first then .blank first :: cut (position.advance first) rest
    else
      match Lexeme.atFront? (first :: rest) with
      | some lexeme =>
        .token ⟨lexeme.kind, String.ofList lexeme.text, position⟩ ::
          cut (position.after lexeme.text) (rest.drop (lexeme.text.length - 1))
      | none => .illegal ⟨first, position⟩ :: cut (position.advance first) rest
termination_by text => text.length
decreasing_by
  all_goals simp only [List.length_cons, List.length_drop]; omega

end Piece

/-- The pieces of a source, in order. -/
def pieces (source : String) : List Piece :=
  Piece.cut Position.start source.toList

/-- The tokens of a source, comments among them. -/
def tokensOf (source : String) : List Token :=
  (pieces source).filterMap Piece.token?

/-- The characters of a source that begin no token. -/
def illegalCharactersOf (source : String) : List IllegalCharacter :=
  (pieces source).filterMap Piece.illegal?

/-- The tokens of a source that has no illegal character. -/
def scan (source : String) : Except (List IllegalCharacter) (List Token) :=
  match illegalCharactersOf source with
  | [] => .ok (tokensOf source)
  | illegals => .error illegals

end ScriptLang
