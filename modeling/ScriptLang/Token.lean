/-!
# Tokens

A token is a kind, the text it was cut from the source with, and the place of that text. Lines and columns
count characters from one, offsets count bytes from zero.
-/

namespace ScriptLang

/-- The kinds of tokens. `assign` is `=` and `equal` is `==`. -/
inductive Kind where
  | plus
  | minus
  | times
  | divide
  | assign
  | equal
  | notEqual
  | less
  | greater
  | lessEqual
  | greaterEqual
  | openParen
  | closeParen
  | openBracket
  | closeBracket
  | openBrace
  | closeBrace
  | dot
  | semicolon
  | comma
  | colon
  | comment
  | number
  | string
  | identifier
  | boolean
  | null
  | ifWord
  | elseifWord
  | elseWord
  | whileWord
  | forWord
  | inWord
  | rangeWord
  | printWord
  deriving DecidableEq

namespace Kind

/-- The name under which a kind appears in messages and token lists. -/
def name : Kind → String
  | plus => "PLUS"
  | minus => "MINUS"
  | times => "TIMES"
  | divide => "DIVIDE"
  | assign => "EQUALS"
  | equal => "EQ"
  | notEqual => "NEQ"
  | less => "LT"
  | greater => "GT"
  | lessEqual => "LEQ"
  | greaterEqual => "GEQ"
  | openParen => "LPAREN"
  | closeParen => "RPAREN"
  | openBracket => "LBRACE"
  | closeBracket => "RBRACE"
  | openBrace => "BLOCK_START"
  | closeBrace => "BLOCK_END"
  | dot => "DOT"
  | semicolon => "SEMICOLON"
  | comma => "COMMA"
  | colon => "COLON"
  | comment => "COMMENT"
  | number => "NUMBER"
  | string => "STRING"
  | identifier => "IDENTIFIER"
  | boolean => "BOOLEAN"
  | null => "NULL"
  | ifWord => "IF"
  | elseifWord => "ELSEIF"
  | elseWord => "ELSE"
  | whileWord => "WHILE"
  | forWord => "FOR"
  | inWord => "IN"
  | rangeWord => "RANGE"
  | printWord => "PRINT"

def all : List Kind :=
  [plus, minus, times, divide, assign, equal, notEqual, less, greater, lessEqual, greaterEqual,
    openParen, closeParen, openBracket, closeBracket, openBrace, closeBrace, dot, semicolon, comma,
    colon, comment, number, string, identifier, boolean, null, ifWord, elseifWord, elseWord,
    whileWord, forWord, inWord, rangeWord, printWord]

def ofName? (text : String) : Option Kind :=
  all.find? (·.name == text)

/-- The kind of a word: a keyword's own kind, and `identifier` for every other word. -/
def ofWord (word : String) : Kind :=
  match word with
  | "true" => boolean
  | "false" => boolean
  | "null" => null
  | "if" => ifWord
  | "elseif" => elseifWord
  | "else" => elseWord
  | "while" => whileWord
  | "for" => forWord
  | "in" => inWord
  | "range" => rangeWord
  | "print" => printWord
  | _ => identifier

end Kind

/-- A place in a source. -/
structure Position where
  line : Nat
  column : Nat
  offset : Nat
  deriving DecidableEq

namespace Position

/-- The first place of every source. -/
def start : Position := ⟨1, 1, 0⟩

/-- The place after a character. -/
def advance (position : Position) (char : Char) : Position :=
  if char = '\n' then ⟨position.line + 1, 1, position.offset + char.utf8Size⟩
  else ⟨position.line, position.column + 1, position.offset + char.utf8Size⟩

/-- The place after a text. -/
def after (position : Position) (text : List Char) : Position :=
  text.foldl advance position

end Position

structure Token where
  kind : Kind
  text : String
  position : Position
  deriving DecidableEq

/-- A character that begins no token. -/
structure IllegalCharacter where
  char : Char
  position : Position
  deriving DecidableEq

def IllegalCharacter.message (illegal : IllegalCharacter) : String :=
  s!"Illegal character '{illegal.char}' at line {illegal.position.line}, col {illegal.position.column}"

end ScriptLang
