import Mathlib
import ScriptLang.Proofs.Diagram.Lines
import ScriptLang.Proofs.Program.Height
/-!
# Positions in the tree of a program

A part of a program is found by the path that leads to it: at each step the number of the child to go to. Paths in
lexicographic order are the parts in pre-order, since a part comes before those below it and these before the parts
below the next sibling. The nodes of a diagram are numbered in this order, so the node with some number stands for the
part whose path is at that place among all paths, and its parent for the part whose path is one step shorter.
-/

namespace ScriptLang

/-! ### Parts of a program -/

/-- What a diagram has nodes for. -/
inductive Part where
  | ofProgram (program : Program)
  | ofStatement (statement : Statement)
  | ofBlock (title : String) (body : List Statement)
  | ofExpr (expr : Expr)

namespace Part

/-- The parts directly below a part, in the order of the program. -/
def children : Part → List Part
  | .ofProgram program => program.statements.map .ofStatement
  | .ofBlock _ body => body.map .ofStatement
  | .ofStatement (.assign _ value) => [.ofExpr value]
  | .ofStatement (.print value) => [.ofExpr value]
  | .ofStatement (.ifElse condition body alternative) =>
    .ofExpr condition :: .ofBlock "then" body :: (alternative.map (.ofBlock "else")).toList
  | .ofStatement (.whileLoop condition body) => [.ofExpr condition, .ofBlock "body" body]
  | .ofStatement (.forRange _ _ body) => [.ofBlock "body" body]
  | .ofExpr (.literal _) => []
  | .ofExpr (.var _) => []
  | .ofExpr (.negate operand) => [.ofExpr operand]
  | .ofExpr (.binary _ left right) => [.ofExpr left, .ofExpr right]

/-- The part that a path leads to. -/
def at? : Part → List Nat → Option Part
  | part, [] => some part
  | part, index :: rest => part.children[index]?.bind fun child => child.at? rest

def diagram : Part → Diagram
  | .ofProgram program => program.diagram
  | .ofStatement statement => statement.diagram
  | .ofBlock title body => .node .block title (blockDiagrams body)
  | .ofExpr expr => expr.diagram

end Part

mutual

/-- The number of statements and expressions in a statement. -/
def Statement.nodeCount : Statement → Nat
  | .assign _ value => value.nodeCount + 1
  | .print value => value.nodeCount + 1
  | .ifElse condition body alternative =>
    condition.nodeCount + blockNodeCount body + alternativeNodeCount alternative + 1
  | .whileLoop condition body => condition.nodeCount + blockNodeCount body + 1
  | .forRange _ _ body => blockNodeCount body + 1

def blockNodeCount : List Statement → Nat
  | [] => 0
  | statement :: rest => statement.nodeCount + blockNodeCount rest

def alternativeNodeCount : Option (List Statement) → Nat
  | none => 0
  | some body => blockNodeCount body

end

mutual

/-- The number of blocks in a statement: branches of conditionals and bodies of loops. -/
def Statement.blockCount : Statement → Nat
  | .assign _ _ => 0
  | .print _ => 0
  | .ifElse _ body alternative => blockBlockCount body + 1 + alternativeBlockCount alternative
  | .whileLoop _ body => blockBlockCount body + 1
  | .forRange _ _ body => blockBlockCount body + 1

/-- The number of blocks inside a block, which itself is not counted. -/
def blockBlockCount : List Statement → Nat
  | [] => 0
  | statement :: rest => statement.blockCount + blockBlockCount rest

def alternativeBlockCount : Option (List Statement) → Nat
  | none => 0
  | some body => blockBlockCount body + 1

end

/-- One for the program, one for each statement and expression, and one for each block. -/
def Program.partCount (program : Program) : Nat :=
  1 + blockNodeCount program.statements + blockBlockCount program.statements

/-! ### The size of a diagram -/

open Diagram (size sizes)

theorem Expr.size_diagram (expr : Expr) : expr.diagram.size = expr.nodeCount := by
  induction expr with
  | literal value => rfl
  | var name => rfl
  | negate operand ih => simp only [Expr.diagram, size, sizes, ih, Expr.nodeCount, Nat.add_zero]
  | binary operator left right ihleft ihright =>
      simp only [Expr.diagram, size, sizes, ihleft, ihright, Expr.nodeCount, Nat.add_zero]

mutual

theorem Statement.size_diagram (statement : Statement) :
    statement.diagram.size = statement.nodeCount + statement.blockCount := by
  match statement with
  | .assign name value =>
      simp only [Statement.diagram, size, sizes, value.size_diagram, Statement.nodeCount, Statement.blockCount,
        Nat.add_zero]
  | .print value =>
      simp only [Statement.diagram, size, sizes, value.size_diagram, Statement.nodeCount, Statement.blockCount,
        Nat.add_zero]
  | .ifElse condition body alternative =>
      simp only [Statement.diagram, size, sizes, condition.size_diagram, sizes_blockDiagrams body,
        sizes_alternativeDiagrams alternative, Statement.nodeCount, Statement.blockCount]
      omega
  | .whileLoop condition body =>
      simp only [Statement.diagram, size, sizes, condition.size_diagram, sizes_blockDiagrams body,
        Statement.nodeCount, Statement.blockCount]
      omega
  | .forRange name count body =>
      simp only [Statement.diagram, size, sizes, sizes_blockDiagrams body, Statement.nodeCount, Statement.blockCount]
      omega

theorem sizes_blockDiagrams (body : List Statement) :
    sizes (blockDiagrams body) = blockNodeCount body + blockBlockCount body := by
  match body with
  | [] => rfl
  | statement :: rest =>
      simp only [blockDiagrams, sizes, statement.size_diagram, sizes_blockDiagrams rest, blockNodeCount,
        blockBlockCount]
      omega

theorem sizes_alternativeDiagrams (alternative : Option (List Statement)) :
    sizes (alternativeDiagrams alternative) = alternativeNodeCount alternative + alternativeBlockCount alternative := by
  match alternative with
  | none => rfl
  | some body =>
      simp only [alternativeDiagrams, sizes, size, sizes_blockDiagrams body, alternativeNodeCount,
        alternativeBlockCount]
      omega

end

theorem Program.size_diagram (program : Program) : program.diagram.size = program.partCount := by
  simp only [Program.diagram, size, sizes_blockDiagrams, Program.partCount]
  omega

/-! ### Subtrees of a diagram -/

namespace Diagram

def style : Diagram → NodeStyle
  | .node style _ _ => style

def label : Diagram → String
  | .node _ label _ => label

def children : Diagram → List Diagram
  | .node _ _ children => children

/-- The subtree that a path leads to. -/
def at? : Diagram → List Nat → Option Diagram
  | diagram, [] => some diagram
  | diagram, index :: rest => diagram.children[index]?.bind fun child => child.at? rest

theorem at?_append (diagram : Diagram) (path rest : List Nat) :
    diagram.at? (path ++ rest) = (diagram.at? path).bind fun below => below.at? rest := by
  induction path generalizing diagram with
  | nil => rfl
  | cons index path ih =>
      rw [List.cons_append, at?, at?, Option.bind_assoc]
      simp only [ih]

end Diagram

namespace Part

theorem blockDiagrams_eq (body : List Statement) : blockDiagrams body = body.map Statement.diagram := by
  induction body with
  | nil => rfl
  | cons statement rest ih => rw [blockDiagrams, ih, List.map_cons]

/-- Diagrams have the shape of programs. -/
theorem children_diagram (part : Part) : part.diagram.children = part.children.map diagram := by
  have hbody (body : List Statement) : blockDiagrams body = (body.map ofStatement).map diagram := by
    rw [blockDiagrams_eq, List.map_map]
    rfl
  cases part with
  | ofProgram program => exact hbody program.statements
  | ofBlock title body => exact hbody body
  | ofStatement statement =>
      cases statement with
      | ifElse condition body alternative => cases alternative <;> rfl
      | assign | print | whileLoop | forRange => rfl
  | ofExpr expr => cases expr <;> rfl

theorem at?_diagram (part : Part) (path : List Nat) : part.diagram.at? path = (part.at? path).map diagram := by
  induction path generalizing part with
  | nil => rfl
  | cons index rest ih =>
      rw [Diagram.at?, at?, children_diagram, List.getElem?_map, Option.map_bind, Option.bind_map]
      congr 1
      funext child
      exact ih child

end Part

/-! ### Paths in pre-order -/

namespace Diagram

mutual

/-- The paths to all subtrees in pre-order. -/
def paths : Diagram → List (List Nat)
  | .node _ _ children => [] :: childPaths 0 children

/-- The paths to all subtrees of siblings, the first of which has this index. -/
def childPaths (index : Nat) : List Diagram → List (List Nat)
  | [] => []
  | child :: rest => child.paths.map (index :: ·) ++ childPaths (index + 1) rest

end

theorem paths_eq (diagram : Diagram) : diagram.paths = [] :: childPaths 0 diagram.children := by
  cases diagram
  rfl

theorem mem_childPaths_iff {index : Nat} {diagrams : List Diagram} {path : List Nat} :
    path ∈ childPaths index diagrams ↔
      ∃ offset child rest, diagrams[offset]? = some child ∧ rest ∈ child.paths ∧ path = (index + offset) :: rest := by
  induction diagrams generalizing index with
  | nil => simp [childPaths]
  | cons first others ih =>
      rw [childPaths, List.mem_append, List.mem_map, ih]
      constructor
      · rintro (⟨rest, hrest, rfl⟩ | ⟨offset, child, rest, hchild, hrest, rfl⟩)
        · exact ⟨0, first, rest, rfl, hrest, rfl⟩
        · exact ⟨offset + 1, child, rest, hchild, hrest, by rw [Nat.add_right_comm, Nat.add_assoc]⟩
      · rintro ⟨offset, child, rest, hchild, hrest, rfl⟩
        cases offset with
        | zero =>
            obtain rfl : first = child := Option.some.inj hchild
            exact .inl ⟨rest, hrest, rfl⟩
        | succ offset => exact .inr ⟨offset, child, rest, hchild, hrest, by rw [Nat.add_right_comm, Nat.add_assoc]⟩

/-- The paths are those that lead to something. -/
theorem mem_paths_iff {diagram : Diagram} {path : List Nat} :
    path ∈ diagram.paths ↔ (diagram.at? path).isSome = true := by
  induction path generalizing diagram with
  | nil => simp [paths_eq, at?]
  | cons index path ih =>
      rw [paths_eq, List.mem_cons, mem_childPaths_iff, at?]
      cases hchild : diagram.children[index]? with
      | none => simp [hchild]
      | some child => simp [hchild, ih]

mutual

theorem length_paths (diagram : Diagram) : diagram.paths.length = diagram.size := by
  match diagram with
  | .node style label children => rw [paths, size, List.length_cons, length_childPaths 0 children]

theorem length_childPaths (index : Nat) (diagrams : List Diagram) :
    (childPaths index diagrams).length = sizes diagrams := by
  match diagrams with
  | [] => rfl
  | child :: rest =>
      rw [childPaths, sizes, List.length_append, List.length_map, length_paths child,
        length_childPaths (index + 1) rest]

end

mutual

/-- In pre-order the paths are in lexicographic order. -/
theorem pairwise_paths (diagram : Diagram) : diagram.paths.Pairwise (· < ·) := by
  match diagram with
  | .node style label children =>
      rw [paths, List.pairwise_cons]
      refine ⟨?_, pairwise_childPaths 0 children⟩
      intro path hpath
      obtain ⟨offset, child, rest, _, _, rfl⟩ := mem_childPaths_iff.mp hpath
      exact List.nil_lt_cons _ _

theorem pairwise_childPaths (index : Nat) (diagrams : List Diagram) :
    (childPaths index diagrams).Pairwise (· < ·) := by
  match diagrams with
  | [] => exact List.Pairwise.nil
  | child :: rest =>
      rw [childPaths, List.pairwise_append, List.pairwise_map]
      refine ⟨?_, pairwise_childPaths (index + 1) rest, ?_⟩
      · exact (pairwise_paths child).imp fun hlt => List.cons_lt_cons_iff.mpr (.inr ⟨rfl, hlt⟩)
      · intro path hpath later hlater
        obtain ⟨below, _, rfl⟩ := List.mem_map.mp hpath
        obtain ⟨offset, sibling, below', _, _, rfl⟩ := mem_childPaths_iff.mp hlater
        exact List.cons_lt_cons_iff.mpr (.inl (by omega))

end

/-! ### Numbers and places -/

mutual

theorem map_number_entries (parent number : Nat) (diagram : Diagram) :
    (entries parent number diagram).map Entry.number = List.range' number diagram.size := by
  match diagram with
  | .node style label children =>
      rw [entries, size, List.map_cons, map_number_childEntries number (number + 1) children, List.range'_succ]

theorem map_number_childEntries (parent number : Nat) (diagrams : List Diagram) :
    (childEntries parent number diagrams).map Entry.number = List.range' number (sizes diagrams) := by
  match diagrams with
  | [] => rfl
  | child :: rest =>
      rw [childEntries, sizes, List.map_append, map_number_entries parent number child,
        map_number_childEntries parent (number + child.size) rest, ← List.range'_append_1]

end

/-- The entry stands for the subtree whose path is at its number among the paths, and its parent for the subtree that
the path without its last step leads to. -/
def Entry.IsAt (root : Diagram) (order : List (List Nat)) (entry : Entry) : Prop :=
  ∃ stem index below, order[entry.parent]? = some stem ∧ order[entry.number]? = some (stem ++ [index]) ∧
    root.at? (stem ++ [index]) = some below ∧ below.style = entry.style ∧ below.label = entry.label

mutual

theorem isAt_of_mem_entries {root : Diagram} {order : List (List Nat)} (before after : List (List Nat))
    {stem : List Nat} {parent number index : Nat} (hparent : order[parent]? = some stem)
    (hnumber : before.length = number) (diagram : Diagram) (hat : root.at? (stem ++ [index]) = some diagram)
    (horder : order = before ++ diagram.paths.map (stem ++ [index] ++ ·) ++ after) :
    ∀ entry ∈ entries parent number diagram, entry.IsAt root order := by
  match diagram with
  | .node style label children =>
      have hhead : order[number]? = some (stem ++ [index]) := by
        rw [horder, paths, ← hnumber]
        simp
      rw [entries, List.forall_mem_cons]
      refine ⟨⟨stem, index, _, hparent, hhead, hat, rfl, rfl⟩, ?_⟩
      apply isAt_of_mem_childEntries (before ++ [stem ++ [index]]) after 0 hhead (by simp [hnumber]) children
      · intro offset child hchild
        rw [Nat.zero_add, at?_append, hat]
        simp [at?, Diagram.children, hchild]
      · rw [horder, paths]
        simp

theorem isAt_of_mem_childEntries {root : Diagram} {order : List (List Nat)} (before after : List (List Nat))
    {stem : List Nat} {parent number : Nat} (index : Nat) (hparent : order[parent]? = some stem)
    (hnumber : before.length = number) (diagrams : List Diagram)
    (hat : ∀ offset child, diagrams[offset]? = some child → root.at? (stem ++ [index + offset]) = some child)
    (horder : order = before ++ (childPaths index diagrams).map (stem ++ ·) ++ after) :
    ∀ entry ∈ childEntries parent number diagrams, entry.IsAt root order := by
  match diagrams with
  | [] => exact fun entry hentry => absurd hentry List.not_mem_nil
  | child :: rest =>
      rw [childEntries, List.forall_mem_append]
      constructor
      · apply isAt_of_mem_entries before ((childPaths (index + 1) rest).map (stem ++ ·) ++ after) hparent hnumber child
          (hat 0 child rfl)
        rw [horder, childPaths]
        simp
      · apply isAt_of_mem_childEntries (before ++ child.paths.map (stem ++ [index] ++ ·)) after (index + 1) hparent
          (by simp [hnumber, length_paths]) rest
        · intro offset sibling hsibling
          rw [Nat.add_right_comm, Nat.add_assoc]
          exact hat (offset + 1) sibling hsibling
        · rw [horder, childPaths]
          simp

end

end Diagram

end ScriptLang
