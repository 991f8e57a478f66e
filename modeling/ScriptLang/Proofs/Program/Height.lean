import Mathlib.Data.List.Chain
import Mathlib.Order.Bounds.Defs
import ScriptLang.Program
/-!
# The nodes of a program and its height

A program is a tree whose nodes are statements and expressions; a block is no node of its own. The height of
a node is defined by recursion, and two facts tie it to the tree: a child is always lower than its parent, and
a node that is not the end of a path has a child exactly one lower. So no way down is longer than the height,
and one of them is that long.
-/

namespace ScriptLang

/-- The number of expressions in an expression. -/
def Expr.nodeCount : Expr → Nat
  | .literal _ => 1
  | .var _ => 1
  | .negate operand => operand.nodeCount + 1
  | .binary _ left right => left.nodeCount + right.nodeCount + 1

mutual

/-- The number of statements and expressions on the longest way down. -/
def Statement.height : Statement → Nat
  | .assign _ value => value.height + 1
  | .print value => value.height + 1
  | .ifElse condition body alternative =>
    max condition.height (max (blockHeight body) (alternativeHeight alternative)) + 1
  | .whileLoop condition body => max condition.height (blockHeight body) + 1
  | .forRange _ _ body => blockHeight body + 1

/-- The height of the highest statement of a block. -/
def blockHeight : List Statement → Nat
  | [] => 0
  | statement :: rest => max statement.height (blockHeight rest)

def alternativeHeight : Option (List Statement) → Nat
  | none => 0
  | some body => blockHeight body

end

theorem blockHeight_le_iff {body : List Statement} {bound : Nat} :
    blockHeight body ≤ bound ↔ ∀ statement ∈ body, statement.height ≤ bound := by
  induction body with
  | nil => simp [blockHeight]
  | cons first rest ih => simp only [blockHeight, Nat.max_le, ih, List.forall_mem_cons]

theorem height_le_blockHeight {body : List Statement} {statement : Statement} (h : statement ∈ body) :
    statement.height ≤ blockHeight body :=
  blockHeight_le_iff.mp (Nat.le_refl _) statement h

/-- A block that is not empty is as high as one of its statements. -/
theorem exists_height_eq_blockHeight {body : List Statement} (h : 0 < blockHeight body) :
    ∃ statement ∈ body, statement.height = blockHeight body := by
  induction body with
  | nil => simp [blockHeight] at h
  | cons first rest ih =>
      rw [blockHeight] at h ⊢
      rcases Nat.le_total (blockHeight rest) first.height with hle | hle
      · exact ⟨first, List.mem_cons_self, (Nat.max_eq_left hle).symm⟩
      · rw [Nat.max_eq_right hle] at h ⊢
        obtain ⟨statement, hmem, heq⟩ := ih h
        exact ⟨statement, List.mem_cons_of_mem first hmem, heq⟩

theorem Statement.height_pos (statement : Statement) : 0 < statement.height := by
  cases statement <;> simp [Statement.height]

theorem Expr.height_pos (expr : Expr) : 0 < expr.height := by
  cases expr <;> simp [Expr.height]

/-! ### Ways down -/

inductive Node where
  | ofStatement (statement : Statement)
  | ofExpr (expr : Expr)

namespace Node

def height : Node → Nat
  | .ofStatement statement => statement.height
  | .ofExpr expr => expr.height

@[simp] theorem height_ofStatement (statement : Statement) :
    (ofStatement statement).height = statement.height := rfl

@[simp] theorem height_ofExpr (expr : Expr) : (ofExpr expr).height = expr.height := rfl

/-- The nodes directly below a node, in the order of the program. -/
def children : Node → List Node
  | .ofExpr (.literal _) => []
  | .ofExpr (.var _) => []
  | .ofExpr (.negate operand) => [.ofExpr operand]
  | .ofExpr (.binary _ left right) => [.ofExpr left, .ofExpr right]
  | .ofStatement (.assign _ value) => [.ofExpr value]
  | .ofStatement (.print value) => [.ofExpr value]
  | .ofStatement (.ifElse condition body alternative) =>
    .ofExpr condition :: (body.map .ofStatement ++ (alternative.getD []).map .ofStatement)
  | .ofStatement (.whileLoop condition body) => .ofExpr condition :: body.map .ofStatement
  | .ofStatement (.forRange _ _ body) => body.map .ofStatement

/-- Nodes from one node down, each a child of the one before. -/
def IsPath (node : Node) (path : List Node) : Prop :=
  path.head? = some node ∧ path.IsChain fun parent child => child ∈ parent.children

theorem alternativeHeight_eq (alternative : Option (List Statement)) :
    alternativeHeight alternative = blockHeight (alternative.getD []) := by
  cases alternative <;> rfl

theorem height_lt_of_mem_children {node child : Node} (h : child ∈ node.children) :
    child.height < node.height := by
  have hblock {body : List Statement} (hmem : child ∈ body.map Node.ofStatement) :
      child.height ≤ blockHeight body := by
    obtain ⟨statement, hstatement, rfl⟩ := List.mem_map.mp hmem
    exact height_le_blockHeight hstatement
  rcases node with statement | expr
  · cases statement with
    | assign _ value | print value =>
        simp only [children, List.mem_singleton] at h
        subst h
        exact Nat.lt_succ_self _
    | ifElse condition body alternative =>
        simp only [children, List.mem_cons, List.mem_append] at h
        simp only [height_ofStatement, Statement.height, alternativeHeight_eq]
        rcases h with rfl | h | h
        · simp only [height_ofExpr]
          omega
        · have := hblock h
          omega
        · have := hblock h
          omega
    | whileLoop condition body =>
        simp only [children, List.mem_cons] at h
        simp only [height_ofStatement, Statement.height]
        rcases h with rfl | h
        · simp only [height_ofExpr]
          omega
        · have := hblock h
          omega
    | forRange name count body =>
        have := hblock h
        simp only [height_ofStatement, Statement.height]
        omega
  · cases expr with
    | literal | var => simp [children] at h
    | negate operand =>
        simp only [children, List.mem_singleton] at h
        subst h
        exact Nat.lt_succ_self _
    | binary operator left right =>
        simp only [children, List.mem_cons, List.not_mem_nil, or_false] at h
        rcases h with rfl | rfl
        · simp only [height_ofExpr, Expr.height]
          omega
        · simp only [height_ofExpr, Expr.height]
          omega

/-- No way down from a node is longer than its height. -/
theorem IsPath.length_le_height {node : Node} {path : List Node} (h : node.IsPath path) :
    path.length ≤ node.height := by
  induction path generalizing node with
  | nil => simp [IsPath] at h
  | cons first rest ih =>
      obtain ⟨hhead, hchain⟩ := h
      obtain rfl : first = node := Option.some.inj hhead
      cases rest with
      | nil =>
          rcases first with statement | expr
          · cases statement <;> simp [Statement.height]
          · cases expr <;> simp [Expr.height]
      | cons second rest =>
          rw [List.isChain_cons_cons] at hchain
          have hlt := height_lt_of_mem_children hchain.1
          have hlength := ih ⟨rfl, hchain.2⟩
          simp only [List.length_cons] at hlength ⊢
          omega

/-- A node is a leaf of height one, or exactly one higher than some child. -/
theorem exists_child_height (node : Node) :
    node.height = 1 ∨ ∃ child ∈ node.children, node.height = child.height + 1 := by
  have hblock (body : List Statement) (hpos : 0 < blockHeight body) :
      ∃ child ∈ body.map ofStatement, child.height = blockHeight body := by
    obtain ⟨statement, hmem, heq⟩ := exists_height_eq_blockHeight hpos
    exact ⟨ofStatement statement, List.mem_map_of_mem hmem, heq⟩
  rcases node with statement | expr
  · cases statement with
    | assign _ value | print value => exact .inr ⟨ofExpr value, List.mem_singleton_self _, rfl⟩
    | ifElse condition body alternative =>
        have hcondition := condition.height_pos
        simp only [height_ofStatement, Statement.height, alternativeHeight_eq, children]
        rcases Nat.le_total (max (blockHeight body) (blockHeight (alternative.getD [])))
          condition.height with hle | hle
        · exact .inr ⟨ofExpr condition, List.mem_cons_self, by rw [Nat.max_eq_left hle, height_ofExpr]⟩
        · rw [Nat.max_eq_right hle]
          rcases Nat.le_total (blockHeight body) (blockHeight (alternative.getD [])) with hle' | hle'
          · rw [Nat.max_eq_right hle'] at hle ⊢
            obtain ⟨child, hmem, heq⟩ := hblock (alternative.getD []) (by omega)
            exact .inr ⟨child, List.mem_cons_of_mem _ (List.mem_append_right _ hmem), by rw [heq]⟩
          · rw [Nat.max_eq_left hle'] at hle ⊢
            obtain ⟨child, hmem, heq⟩ := hblock body (by omega)
            exact .inr ⟨child, List.mem_cons_of_mem _ (List.mem_append_left _ hmem), by rw [heq]⟩
    | whileLoop condition body =>
        have hcondition := condition.height_pos
        simp only [height_ofStatement, Statement.height, children]
        rcases Nat.le_total (blockHeight body) condition.height with hle | hle
        · exact .inr ⟨ofExpr condition, List.mem_cons_self, by rw [Nat.max_eq_left hle, height_ofExpr]⟩
        · rw [Nat.max_eq_right hle]
          obtain ⟨child, hmem, heq⟩ := hblock body (by omega)
          exact .inr ⟨child, List.mem_cons_of_mem _ hmem, by rw [heq]⟩
    | forRange name count body =>
        simp only [height_ofStatement, Statement.height, children]
        rcases Nat.eq_zero_or_pos (blockHeight body) with hzero | hpos
        · exact .inl (by rw [hzero])
        · obtain ⟨child, hmem, heq⟩ := hblock body hpos
          exact .inr ⟨child, hmem, by rw [heq]⟩
  · cases expr with
    | literal | var => exact .inl rfl
    | negate operand => exact .inr ⟨ofExpr operand, List.mem_singleton_self _, rfl⟩
    | binary operator left right =>
        simp only [height_ofExpr, Expr.height, children]
        rcases Nat.le_total right.height left.height with hle | hle
        · exact .inr ⟨ofExpr left, by simp, by rw [Nat.max_eq_left hle, height_ofExpr]⟩
        · exact .inr ⟨ofExpr right, by simp, by rw [Nat.max_eq_right hle, height_ofExpr]⟩

/-- Some way down from a node is as long as its height. -/
theorem exists_isPath_length_eq_height (node : Node) : ∃ path, node.IsPath path ∧ path.length = node.height := by
  induction hheight : node.height generalizing node with
  | zero =>
      rcases exists_child_height node with hone | ⟨child, _, hchild⟩
      · omega
      · omega
  | succ height ih =>
      rcases exists_child_height node with hone | ⟨child, hmem, hchild⟩
      · obtain rfl : height = 0 := by omega
        exact ⟨[node], ⟨rfl, List.isChain_singleton node⟩, rfl⟩
      · obtain ⟨path, ⟨hhead, hchain⟩, hlength⟩ := ih child (by omega)
        cases path with
        | nil => cases hhead
        | cons first rest =>
            obtain rfl : first = child := Option.some.inj hhead
            exact ⟨node :: first :: rest, ⟨rfl, List.isChain_cons_cons.mpr ⟨hmem, hchain⟩⟩,
              congrArg (· + 1) hlength⟩

/-- The height of a node is the length of the longest way down from it. -/
theorem isGreatest_height (node : Node) :
    IsGreatest {length | ∃ path, node.IsPath path ∧ path.length = length} node.height := by
  refine ⟨exists_isPath_length_eq_height node, ?_⟩
  rintro length ⟨path, hpath, rfl⟩
  exact hpath.length_le_height

end Node

end ScriptLang
