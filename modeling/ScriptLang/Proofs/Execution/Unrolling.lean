import ScriptLang.Proofs.Execution.Ending
/-!
# Counted loops written out

The rounds of a counted loop are counted before it starts, and its variable is an ordinary one: nothing but an
assignment at the beginning of each round sets it. So a counted loop can be replaced by its rounds, written out one
after another, whatever the body does to the variable. Both programs run in step: they reach the same outcome under
every bound on the tests of their `while` loops.
-/

namespace ScriptLang

/-! ### Writing out the rounds -/

/-- The values of the variable of a counted loop, in order; none if the count is not positive. -/
def roundNumbers (count : Int64) : List Int64 :=
  (List.range count.toInt.toNat).map Int64.ofNat

/-- The body once for every number, behind an assignment of the number to the variable. -/
def writtenOut (name : String) (body : List Statement) (numbers : List Int64) : List Statement :=
  numbers.flatMap fun number => .assign name (.literal (.int number)) :: body

mutual

/-- The statement with every counted loop in it, at every depth, written out. -/
def Statement.unroll : Statement → List Statement
  | .assign name value => [.assign name value]
  | .print value => [.print value]
  | .ifElse condition body alternative =>
    [.ifElse condition (unrollBlock body) (unrollAlternative alternative)]
  | .whileLoop condition body => [.whileLoop condition (unrollBlock body)]
  | .forRange name count body => writtenOut name (unrollBlock body) (roundNumbers count)

def unrollBlock : List Statement → List Statement
  | [] => []
  | statement :: rest => statement.unroll ++ unrollBlock rest

def unrollAlternative : Option (List Statement) → Option (List Statement)
  | none => none
  | some body => some (unrollBlock body)

end

mutual

/-- There is no counted loop, at any depth. -/
def Statement.ForFree : Statement → Prop
  | .assign _ _ => True
  | .print _ => True
  | .ifElse _ body alternative => BlockForFree body ∧ AlternativeForFree alternative
  | .whileLoop _ body => BlockForFree body
  | .forRange _ _ _ => False

def BlockForFree : List Statement → Prop
  | [] => True
  | statement :: rest => statement.ForFree ∧ BlockForFree rest

def AlternativeForFree : Option (List Statement) → Prop
  | none => True
  | some body => BlockForFree body

end

/-- Two loops with one variable, of which the inner one has no round after all, and a print between them. -/
example (value : Expr) :
    unrollBlock [.forRange "i" 2 [.print value, .forRange "i" (-1) [.print (.var "i")]]] =
      [.assign "i" (.literal (.int 0)), .print value, .assign "i" (.literal (.int 1)), .print value] := rfl

/-- No number is out of the range of words, since the count itself is not. -/
theorem map_toInt_roundNumbers (count : Int64) :
    (roundNumbers count).map Int64.toInt = (List.range count.toInt.toNat).map Int.ofNat := by
  rw [roundNumbers, List.map_map]
  apply List.map_congr_left
  intro index hindex
  have hcount := count.toInt_lt
  have hlt := List.mem_range.mp hindex
  exact Int64.toInt_ofNat_of_lt (by omega)

/-! ### No counted loop is left -/

theorem blockForFree_append {body body' : List Statement} (h : BlockForFree body) (h' : BlockForFree body') :
    BlockForFree (body ++ body') := by
  induction body with
  | nil => exact h'
  | cons statement rest ih => exact ⟨h.1, ih h.2⟩

theorem blockForFree_writtenOut (name : String) {body : List Statement} (h : BlockForFree body)
    (numbers : List Int64) : BlockForFree (writtenOut name body numbers) := by
  induction numbers with
  | nil => trivial
  | cons number rest ih => exact ⟨trivial, blockForFree_append h ih⟩

mutual

theorem Statement.blockForFree_unroll (statement : Statement) : BlockForFree statement.unroll := by
  match statement with
  | .assign name value => exact ⟨trivial, trivial⟩
  | .print value => exact ⟨trivial, trivial⟩
  | .ifElse condition body alternative =>
      exact ⟨⟨blockForFree_unrollBlock body, alternativeForFree_unrollAlternative alternative⟩, trivial⟩
  | .whileLoop condition body => exact ⟨blockForFree_unrollBlock body, trivial⟩
  | .forRange name count body =>
      exact blockForFree_writtenOut name (blockForFree_unrollBlock body) (roundNumbers count)

theorem blockForFree_unrollBlock (body : List Statement) : BlockForFree (unrollBlock body) := by
  match body with
  | [] => trivial
  | statement :: rest => exact blockForFree_append statement.blockForFree_unroll (blockForFree_unrollBlock rest)

theorem alternativeForFree_unrollAlternative (alternative : Option (List Statement)) :
    AlternativeForFree (unrollAlternative alternative) := by
  match alternative with
  | none => trivial
  | some body => exact blockForFree_unrollBlock body

end

/-! ### The same outcome -/

/-- One round after another from some number on, which is how the loop counts them. -/
theorem execBlock_writtenOut (limit : Nat) (name : String) (body : List Statement) (rounds index : Nat) :
    execBlock limit (writtenOut name body ((List.range' index rounds).map Int64.ofNat)) =
      forRounds name (execBlock limit body) rounds index := by
  funext state
  induction rounds generalizing index state with
  | zero => rw [forRounds, List.range'_zero, List.map_nil, writtenOut, List.flatMap_nil, execBlock]
  | succ rounds ih =>
      rw [forRounds, List.range'_succ, List.map_cons, writtenOut, List.flatMap_cons, List.cons_append, execBlock,
        Statement.exec]
      show execBlock limit (body ++ writtenOut name body _) _ = _
      rw [execBlock_append]
      congr 1
      funext state
      exact ih (index + 1) state

mutual

theorem Statement.execBlock_unroll (limit : Nat) (statement : Statement) :
    execBlock limit statement.unroll = statement.exec limit := by
  match statement with
  | .assign name value =>
      funext state
      rw [Statement.unroll, execBlock_singleton]
  | .print value =>
      funext state
      rw [Statement.unroll, execBlock_singleton]
  | .ifElse condition body alternative =>
      funext state
      rw [Statement.unroll, execBlock_singleton, Statement.exec, Statement.exec, execBlock_unrollBlock limit body,
        execAlternative_unrollAlternative limit alternative]
  | .whileLoop condition body =>
      funext state
      rw [Statement.unroll, execBlock_singleton, Statement.exec, Statement.exec, execBlock_unrollBlock limit body]
  | .forRange name count body =>
      funext state
      rw [Statement.unroll, Statement.exec, roundNumbers, List.range_eq_range', execBlock_writtenOut,
        execBlock_unrollBlock limit body]

theorem execBlock_unrollBlock (limit : Nat) (body : List Statement) :
    execBlock limit (unrollBlock body) = execBlock limit body := by
  match body with
  | [] => rfl
  | statement :: rest =>
      funext state
      rw [unrollBlock, execBlock_append, execBlock, statement.execBlock_unroll limit, execBlock_unrollBlock limit rest]

theorem execAlternative_unrollAlternative (limit : Nat) (alternative : Option (List Statement)) :
    execAlternative limit (unrollAlternative alternative) = execAlternative limit alternative := by
  match alternative with
  | none => rfl
  | some body =>
      funext state
      rw [unrollAlternative, execAlternative, execAlternative, execBlock_unrollBlock limit body]

end

/-- A counted loop is its rounds, written out. The numbers of the rounds go from zero up to the count, and none of the
loops is left at any depth. From every state the two blocks end both or none, with the same error if there is one and
in the same state, which is what was printed and all that is bound. -/
theorem ends_iff_ends_unrollBlock (body : List Statement) :
    (∀ count, (roundNumbers count).map Int64.toInt = (List.range count.toInt.toNat).map Int.ofNat) ∧
    BlockForFree (unrollBlock body) ∧
    ∀ before error after, Ends body before error after ↔ Ends (unrollBlock body) before error after := by
  refine ⟨map_toInt_roundNumbers, blockForFree_unrollBlock body, ?_⟩
  intro before error after
  unfold Ends
  simp only [execBlock_unrollBlock]

end ScriptLang
