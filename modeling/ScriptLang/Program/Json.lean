import ScriptLang.Json
import ScriptLang.Program
/-!
# Programs as JSON

Every node is an object with one field, named for the kind of node, that holds the parts of the node in
alphabetical order.
-/

namespace ScriptLang

namespace Json

/-- A node with its parts. -/
def node (name : String) (parts : List (String × Json)) : Json :=
  .object [(name, .object parts)]

/-- A literal is a node named for its kind, and both kinds of numbers share one. -/
def ofLiteral (value : Value) : Json :=
  match value with
  | .int _ => node "Number" [("value", value.toJson)]
  | .float _ => node "Number" [("value", value.toJson)]
  | .bool _ => node "Boolean" [("value", value.toJson)]
  | .string _ => node "String" [("value", value.toJson)]
  | .null => node "Null" []

end Json

def Expr.toJson : Expr → Json
  | .literal value => Json.ofLiteral value
  | .var name => Json.node "Var" [("name", .string name)]
  | .negate operand => Json.node "UnaryOp" [("op", .string "-"), ("operand", operand.toJson)]
  | .binary operator left right =>
    Json.node "BinOp"
      [("left", left.toJson), ("op", .string operator.symbol), ("right", right.toJson)]

mutual

def Statement.toJson : Statement → Json
  | .assign name value => Json.node "Assign" [("expr", value.toJson), ("name", .string name)]
  | .print value => Json.node "Print" [("expr", value.toJson)]
  | .ifElse condition body alternative =>
    Json.node "If"
      [("condition", condition.toJson), ("else_branch", alternativeToJson alternative),
        ("then_branch", .array (blockToJson body))]
  | .whileLoop condition body =>
    Json.node "While" [("body", .array (blockToJson body)), ("condition", condition.toJson)]
  | .forRange name count body =>
    Json.node "For"
      [("body", .array (blockToJson body)), ("count", .int count.toInt), ("var", .string name)]

def blockToJson : List Statement → List Json
  | [] => []
  | statement :: rest => statement.toJson :: blockToJson rest

def alternativeToJson : Option (List Statement) → Json
  | none => .null
  | some body => .array (blockToJson body)

end

def Program.toJson (program : Program) : Json :=
  Json.node "Program" [("statements", .array (blockToJson program.statements))]

/-- A program together with what it printed. -/
def reportJson (program : Program) (output : Array Value) : Json :=
  .object [("ast", program.toJson), ("output", .array (output.toList.map Value.toJson))]

end ScriptLang
