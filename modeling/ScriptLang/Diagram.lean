import ScriptLang.Program
/-!
# Diagrams

A program is drawn as a tree: a node for the program, one for each statement and expression, and one for
each block of a compound statement. The tree is written in the language of graph drawing tools. Nodes are
numbered in the order in which they are written, which is the pre-order of the tree, and the edge into a
node follows its declaration.
-/

namespace ScriptLang

/-- What a node of a diagram stands for, which decides how it is drawn. -/
inductive NodeStyle where
  | program
  | assignment
  | print
  | control
  | block
  | operator
  | var
  | literal
  deriving DecidableEq

namespace NodeStyle

def shape : NodeStyle → String
  | program => "oval"
  | assignment => "parallelogram"
  | print => "diamond"
  | control => "hexagon"
  | block => "box"
  | operator => "box"
  | var => "ellipse"
  | literal => "ellipse"

def color : NodeStyle → String
  | program => "white"
  | assignment => "#f9e79f"
  | print => "#c39bd3"
  | control => "#aed6f1"
  | block => "#eaeded"
  | operator => "#a9dfbf"
  | var => "#a3e4d7"
  | literal => "#ffb3b3"

end NodeStyle

inductive Diagram where
  | node (style : NodeStyle) (label : String) (children : List Diagram)

/-! ### Drawing a program -/

/-- A literal's text, in quotes if it is a text itself. -/
def Value.diagramLabel : Value → String
  | .string text => "Literal = \"" ++ text ++ "\""
  | other => "Literal = " ++ other.text

def Expr.diagram : Expr → Diagram
  | .literal value => .node .literal value.diagramLabel []
  | .var name => .node .var s!"Identifier ({name})" []
  | .negate operand => .node .operator "UnaryExpression (-)" [operand.diagram]
  | .binary operator left right =>
    .node .operator s!"BinaryExpression ({operator.symbol})" [left.diagram, right.diagram]

mutual

def Statement.diagram : Statement → Diagram
  | .assign name value => .node .assignment s!"Assignment ({name})" [value.diagram]
  | .print value => .node .print "FunctionCall (print)" [value.diagram]
  | .ifElse condition body alternative =>
    .node .control "If"
      (condition.diagram :: .node .block "then" (blockDiagrams body) ::
        alternativeDiagrams alternative)
  | .whileLoop condition body =>
    .node .control "While" [condition.diagram, .node .block "body" (blockDiagrams body)]
  | .forRange name count body =>
    .node .control s!"For ({name} in range({count.toInt.repr}))"
      [.node .block "body" (blockDiagrams body)]

def blockDiagrams : List Statement → List Diagram
  | [] => []
  | statement :: rest => statement.diagram :: blockDiagrams rest

def alternativeDiagrams : Option (List Statement) → List Diagram
  | none => []
  | some body => [.node .block "else" (blockDiagrams body)]

end

def Program.diagram (program : Program) : Diagram :=
  .node .program "Program" (blockDiagrams program.statements)

/-! ### Writing a diagram -/

namespace Diagram

/-- A character inside a quoted label. -/
def escape : Char → List Char
  | '"' => ['\\', '"']
  | '\\' => ['\\', '\\']
  | '\n' => ['\\', 'n']
  | other => [other]

def escapeLabel (label : String) : String :=
  String.ofList (label.toList.flatMap escape)

mutual

/-- The number of nodes. -/
def size : Diagram → Nat
  | .node _ _ children => sizes children + 1

def sizes : List Diagram → Nat
  | [] => 0
  | child :: rest => child.size + sizes rest

end

def declaration (number : Nat) (style : NodeStyle) (label : String) : String :=
  s!"    n{number} [label=\"" ++ escapeLabel label ++
    s!"\", shape={style.shape}, style=filled, fillcolor=\"{style.color}\", color=black];\n"

def edge (parent child : Nat) : String :=
  s!"    n{parent} -> n{child} [color=\"gray50\"];\n"

mutual

/-- The lines of a diagram whose root has this number. -/
def lines (number : Nat) (arrow : String) : Diagram → List String
  | .node style label children =>
    (declaration number style label ++ arrow) :: childLines number (number + 1) children

/-- The lines of diagrams under one parent, the first of which has this number. -/
def childLines (parent number : Nat) : List Diagram → List String
  | [] => []
  | child :: rest =>
    lines number (edge parent number) child ++ childLines parent (number + child.size) rest

end

def header : String :=
  "digraph AST \x7b\n    bgcolor=\"white\";\n    rankdir=TB;\n    node [fontname=\"Helvetica\"];\n"

/-- The text of a diagram. -/
def render (diagram : Diagram) : String :=
  header ++ String.join (diagram.lines 0 "") ++ "\x7d\n"

end Diagram

end ScriptLang
