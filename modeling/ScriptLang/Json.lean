import ScriptLang.Value
/-!
# JSON

Documents are written in two forms, without any space or with one item a line. Fields keep the order in
which they are listed. Texts escape only what they must, and a float that is no finite number is `null`.
-/

namespace ScriptLang

inductive Json where
  | null
  | bool (value : Bool)
  | int (value : Int)
  | float (value : Float)
  | string (value : String)
  | array (items : List Json)
  | object (fields : List (String × Json))

namespace Json

/-- A numeral in plain notation always has a fraction, and one whose leading digit is beyond `10 ^ 15` or
below `10 ^ (-5)` has an exponent. -/
def numeral (d : Decimal) : List Char :=
  if -5 ≤ d.leadingPower ∧ d.leadingPower ≤ 15 then
    if 0 ≤ d.exponent then d.positional ++ ['.', '0'] else d.positional
  else d.scientific

/-- The text of a float: the shortest digits that read back, and of two shortest numerals that are equally
near the even one. -/
def renderFloat (x : Float) : String :=
  match Binary64.ofFloat x with
  | .finite negative significand shift =>
    let digits := numeral (Decimal.shortest .even significand shift)
    String.ofList (if negative then '-' :: digits else digits)
  | _ => "null"

/-- A character inside a text. -/
def escape (char : Char) : List Char :=
  match char with
  | '"' => ['\\', '"']
  | '\\' => ['\\', '\\']
  | '\x08' => ['\\', 'b']
  | '\x0c' => ['\\', 'f']
  | '\n' => ['\\', 'n']
  | '\r' => ['\\', 'r']
  | '\t' => ['\\', 't']
  | other =>
    if other.toNat < 0x20 then
      ['\\', 'u', '0', '0', (other.toNat / 16).digitChar, (other.toNat % 16).digitChar]
    else [other]

def quote (text : String) : String :=
  String.ofList ('"' :: text.toList.flatMap escape ++ ['"'])

/-- Items between brackets, with commas. -/
def enclose (opening closing : String) (items : List String) : String :=
  opening ++ ",".intercalate items ++ closing

mutual

/-- The document without any space. -/
def render : Json → String
  | .null => "null"
  | .bool value => if value then "true" else "false"
  | .int value => value.repr
  | .float value => renderFloat value
  | .string value => quote value
  | .array items => enclose "[" "]" (renderItems items)
  | .object fields => enclose "\x7b" "\x7d" (renderFields fields)

def renderItems : List Json → List String
  | [] => []
  | item :: rest => item.render :: renderItems rest

def renderFields : List (String × Json) → List String
  | [] => []
  | (name, value) :: rest => (quote name ++ ":" ++ value.render) :: renderFields rest

end

/-- The start of a line at a depth, two spaces for each level. -/
def margin (depth : Nat) : String :=
  String.ofList ('\n' :: List.replicate (2 * depth) ' ')

/-- Items between brackets, each on a line of its own. -/
def encloseLines (opening closing : String) (depth : Nat) (items : List String) : String :=
  match items with
  | [] => opening ++ closing
  | items =>
    opening ++ ",".intercalate (items.map (margin (depth + 1) ++ ·)) ++ margin depth ++ closing

mutual

/-- The document with one item a line, for a place at this depth. -/
def renderLines (depth : Nat) : Json → String
  | .null => "null"
  | .bool value => if value then "true" else "false"
  | .int value => value.repr
  | .float value => renderFloat value
  | .string value => quote value
  | .array items => encloseLines "[" "]" depth (renderItemLines (depth + 1) items)
  | .object fields => encloseLines "\x7b" "\x7d" depth (renderFieldLines (depth + 1) fields)

def renderItemLines (depth : Nat) : List Json → List String
  | [] => []
  | item :: rest => item.renderLines depth :: renderItemLines depth rest

def renderFieldLines (depth : Nat) : List (String × Json) → List String
  | [] => []
  | (name, value) :: rest =>
    (quote name ++ ": " ++ value.renderLines depth) :: renderFieldLines depth rest

end

end Json

/-- A value as JSON. -/
def Value.toJson : Value → Json
  | .int n => .int n.toInt
  | .float x => .float x
  | .bool b => .bool b
  | .string text => .string text
  | .null => .null

end ScriptLang
