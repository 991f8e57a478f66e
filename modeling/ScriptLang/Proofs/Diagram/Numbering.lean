import Mathlib
import ScriptLang.Diagram
/-!
# Drawing with a running number

The text of a program's diagram can be written without the diagram. One passes through the program from left to right. A
node takes the next free number and is written down at once, with the edge into it, and then its parts are drawn below
it. No number is worked out from the sizes of subtrees.

What is written below a node are the lines of the diagrams of its parts, and a diagram uses up as many numbers as it has
nodes. So the numbers that are counted are those that the lines have.
-/

namespace ScriptLang

/-- What is written of a graph, and the next free number. -/
structure Graph where
  out : String
  next : Nat

abbrev Drawing := StateM Graph

namespace Drawing

def write (text : String) : Drawing Unit :=
  modify fun graph => { graph with out := graph.out ++ text }

/-- Writes down a node with the next free number. -/
def node (style : NodeStyle) (label : String) : Drawing Nat := do
  let number := (← get).next
  modify fun graph => { graph with next := graph.next + 1 }
  write (Diagram.declaration number style label)
  return number

def child (parent : Nat) (style : NodeStyle) (label : String) : Drawing Nat := do
  let number ← node style label
  write (Diagram.edge parent number)
  return number

def ofExpr (parent : Nat) : Expr → Drawing Unit
  | .literal value => discard (child parent .literal value.diagramLabel)
  | .var name => discard (child parent .var s!"Identifier ({name})")
  | .negate operand => do
    let number ← child parent .operator "UnaryExpression (-)"
    ofExpr number operand
  | .binary operator left right => do
    let number ← child parent .operator s!"BinaryExpression ({operator.symbol})"
    ofExpr number left
    ofExpr number right

/-- A block is drawn below a node of its own. -/
def block (parent : Nat) (label : String) (body : Nat → Drawing Unit) : Drawing Unit := do
  let number ← child parent .block label
  body number

mutual

def ofStatement (parent : Nat) : Statement → Drawing Unit
  | .assign name value => do
    let number ← child parent .assignment s!"Assignment ({name})"
    ofExpr number value
  | .print value => do
    let number ← child parent .print "FunctionCall (print)"
    ofExpr number value
  | .ifElse condition body alternative => do
    let number ← child parent .control "If"
    ofExpr number condition
    block number "then" fun inner => ofBlock inner body
    ofAlternative number alternative
  | .whileLoop condition body => do
    let number ← child parent .control "While"
    ofExpr number condition
    block number "body" fun inner => ofBlock inner body
  | .forRange name count body => do
    let number ← child parent .control s!"For ({name} in range({count.toInt.repr}))"
    block number "body" fun inner => ofBlock inner body

def ofBlock (parent : Nat) : List Statement → Drawing Unit
  | [] => pure ()
  | first :: rest => do
    ofStatement parent first
    ofBlock parent rest

def ofAlternative (parent : Nat) : Option (List Statement) → Drawing Unit
  | none => pure ()
  | some body => block parent "else" fun inner => ofBlock inner body

end

def ofProgram (program : Program) : Drawing Unit := do
  write Diagram.header
  let root ← node .program "Program"
  ofBlock root program.statements
  write "\x7d\n"

/-! ### Diagrams below a node -/

/-- Writes the lines of diagrams with one parent, and passes over their numbers. -/
def below (parent : Nat) (diagrams : List Diagram) : Drawing Unit :=
  modify fun graph =>
    { out := graph.out ++ String.join (Diagram.childLines parent graph.next diagrams)
      next := graph.next + Diagram.sizes diagrams }

theorem below_apply (parent : Nat) (diagrams : List Diagram) (graph : Graph) :
    below parent diagrams graph =
      ((), ⟨graph.out ++ String.join (Diagram.childLines parent graph.next diagrams),
        graph.next + Diagram.sizes diagrams⟩) :=
  rfl

theorem child_apply (parent : Nat) (style : NodeStyle) (label : String) (graph : Graph) :
    child parent style label graph =
      (graph.next, ⟨graph.out ++ Diagram.declaration graph.next style label ++ Diagram.edge parent graph.next,
        graph.next + 1⟩) :=
  rfl

theorem below_nil (parent : Nat) : below parent [] = pure () := by
  funext graph
  rw [below_apply, Diagram.childLines, Diagram.sizes, String.join_nil, String.append_empty, Nat.add_zero]
  rfl

theorem below_cons (parent : Nat) (first : Diagram) (rest : List Diagram) :
    below parent (first :: rest) = (do below parent [first]; below parent rest) := by
  funext graph
  show _ = below parent rest (below parent [first] graph).2
  rw [below_apply, below_apply, below_apply]
  simp only [Diagram.childLines, Diagram.sizes, String.join_append, String.join_nil, String.append_empty,
    String.append_assoc, Nat.add_zero, Nat.add_assoc]

theorem below_node (parent : Nat) (style : NodeStyle) (label : String) (children : List Diagram) :
    below parent [.node style label children] = (do below (← child parent style label) children) := by
  funext graph
  show _ = below graph.next children (child parent style label graph).2
  rw [below_apply, child_apply, below_apply]
  simp only [Diagram.childLines, Diagram.lines, Diagram.sizes, Diagram.size, List.append_nil, String.join_cons,
    String.append_assoc, Nat.add_zero, Nat.add_assoc, Nat.add_comm 1]

theorem below_leaf (parent : Nat) (style : NodeStyle) (label : String) :
    below parent [.node style label []] = discard (child parent style label) := by
  rw [below_node]
  simp only [below_nil]
  rfl

/-! ### What is drawn -/

theorem ofExpr_eq (parent : Nat) (expr : Expr) : ofExpr parent expr = below parent [expr.diagram] := by
  induction expr generalizing parent with
  | literal value => rw [ofExpr, Expr.diagram, below_leaf]
  | var name => rw [ofExpr, Expr.diagram, below_leaf]
  | negate operand ih =>
      rw [ofExpr, Expr.diagram, below_node]
      simp only [ih]
  | binary operator left right ihleft ihright =>
      rw [ofExpr, Expr.diagram, below_node]
      simp only [ihleft, ihright, ← below_cons]

theorem block_eq (parent : Nat) (label : String) (diagrams : List Diagram) :
    (block parent label fun inner => below inner diagrams) = below parent [.node .block label diagrams] := by
  rw [block, below_node]

mutual

theorem ofStatement_eq (parent : Nat) : ∀ statement : Statement,
    ofStatement parent statement = below parent [statement.diagram]
  | .assign name value => by
      rw [ofStatement, Statement.diagram, below_node]
      simp only [ofExpr_eq]
  | .print value => by
      rw [ofStatement, Statement.diagram, below_node]
      simp only [ofExpr_eq]
  | .ifElse condition body alternative => by
      rw [ofStatement, Statement.diagram, below_node]
      simp only [ofExpr_eq, ofBlock_eq, ofAlternative_eq, block_eq, ← below_cons]
  | .whileLoop condition body => by
      rw [ofStatement, Statement.diagram, below_node]
      simp only [ofExpr_eq, ofBlock_eq, block_eq, ← below_cons]
  | .forRange name count body => by
      rw [ofStatement, Statement.diagram, below_node]
      simp only [ofBlock_eq, block_eq]

theorem ofBlock_eq (parent : Nat) : ∀ body : List Statement,
    ofBlock parent body = below parent (blockDiagrams body)
  | [] => by rw [ofBlock, blockDiagrams, below_nil]
  | first :: rest => by rw [ofBlock, ofStatement_eq, ofBlock_eq, ← below_cons, blockDiagrams]

theorem ofAlternative_eq (parent : Nat) : ∀ alternative : Option (List Statement),
    ofAlternative parent alternative = below parent (alternativeDiagrams alternative)
  | none => by rw [ofAlternative, alternativeDiagrams, below_nil]
  | some body => by
      rw [ofAlternative, alternativeDiagrams]
      simp only [ofBlock_eq, block_eq]

end

/-- A running number leads to the text of the program's diagram, and ends at the number of its nodes. -/
theorem ofProgram_eq (program : Program) :
    (ofProgram program).run ⟨"", 0⟩ = ((), ⟨program.diagram.render, program.diagram.size⟩) := by
  have hdrawn : (ofProgram program).run ⟨"", 0⟩ =
      ((), ⟨"" ++ Diagram.header ++ Diagram.declaration 0 .program "Program" ++
          String.join (Diagram.childLines 0 1 (blockDiagrams program.statements)) ++ "\x7d\n",
        1 + Diagram.sizes (blockDiagrams program.statements)⟩) := by
    rw [ofProgram]
    simp only [ofBlock_eq]
    rfl
  rw [hdrawn, Program.diagram, Diagram.render, Diagram.lines, Diagram.size, String.join_cons, String.append_empty,
    String.empty_append, ← String.append_assoc, Nat.add_comm 1]

end Drawing

end ScriptLang
