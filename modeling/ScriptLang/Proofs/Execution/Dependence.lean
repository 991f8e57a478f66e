import ScriptLang.Proofs.Execution.Ending
import ScriptLang.Proofs.Execution.Frame
import ScriptLang.Proofs.Program.Leaves
/-!
# What a run depends on

Two runs of the same statements go in step as long as the variables that the statements name have the same values
in both. Every expression then has the same value, so both runs take the same branch, set the same variable and
print the same value. Other variables, and what was printed earlier, may differ.
-/

namespace ScriptLang

/-- Two states in which every name among the leaves has the same value, or none. -/
def State.Agree (leaves : List Leaf) (left right : State) : Prop :=
  ∀ name, Leaf.name name ∈ leaves → left.environment.get? name = right.environment.get? name

/-- Two states that agree, of which each has come from an output of its own by printing the same values. -/
structure InStep (leaves : List Leaf) (leftOutput rightOutput : List Value) (left right : State) : Prop where
  agree : left.Agree leaves right
  printed : ∃ values, left.output.toList = leftOutput ++ values ∧ right.output.toList = rightOutput ++ values

/-- Two outcomes of one kind, with the same error if there is one. -/
inductive Outcome.Alike (related : State → State → Prop) : Outcome → Outcome → Prop
  | done {left right : State} (h : related left right) : Alike related (.done left) (.done right)
  | failed {error : RuntimeError} {left right : State} (h : related left right) :
      Alike related (.failed error left) (.failed error right)
  | unfinished {left right : State} (h : related left right) : Alike related (.unfinished left) (.unfinished right)

namespace InStep

variable {leaves : List Leaf} {leftOutput rightOutput : List Value} {left right : State}

theorem assign (h : InStep leaves leftOutput rightOutput left right) (name : String) (value : Value) :
    InStep leaves leftOutput rightOutput (left.assign name value) (right.assign name value) where
  agree other hother := by
    show (left.environment.set name value).get? other = (right.environment.set name value).get? other
    by_cases heq : name = other
    · subst heq
      rw [Environment.get?_set_self, Environment.get?_set_self]
    · rw [Environment.get?_set_of_ne heq, Environment.get?_set_of_ne heq]
      exact h.agree other hother
  printed := h.printed

theorem emit (h : InStep leaves leftOutput rightOutput left right) (value : Value) :
    InStep leaves leftOutput rightOutput (left.emit value) (right.emit value) where
  agree := h.agree
  printed := by
    obtain ⟨values, hleft, hright⟩ := h.printed
    refine ⟨values ++ [value], ?_, ?_⟩
    · simp [State.emit, hleft]
    · simp [State.emit, hright]

/-- An expression reads nothing but its own variables. -/
theorem eval_eq (h : InStep leaves leftOutput rightOutput left right) {expr : Expr} (hexpr : expr.leaves ⊆ leaves) :
    expr.eval left.environment = expr.eval right.environment := by
  induction expr with
  | literal value => rfl
  | var name =>
      have hget := h.agree name (hexpr List.mem_cons_self)
      simp only [Expr.eval, Environment.get, hget]
  | negate operand ih => simp only [Expr.eval, ih hexpr]
  | binary operator first second ihfirst ihsecond =>
      have hparts := List.append_subset.mp hexpr
      simp only [Expr.eval, ihfirst hparts.1, ihsecond hparts.2]

end InStep

/-! ### Steps and loops -/

namespace Outcome

variable {related : State → State → Prop}

theorem Alike.andThen {left right : Outcome} {leftNext rightNext : State → Outcome} (h : Alike related left right)
    (hnext : ∀ left right, related left right → Alike related (leftNext left) (rightNext right)) :
    Alike related (left.andThen leftNext) (right.andThen rightNext) := by
  cases h with
  | done h => exact hnext _ _ h
  | failed h => exact .failed h
  | unfinished h => exact .unfinished h

end Outcome

section

variable {leaves : List Leaf} {leftOutput rightOutput : List Value}

theorem alike_withValue {left right : State} {expr : Expr} {leftNext rightNext : Value → Outcome}
    (h : InStep leaves leftOutput rightOutput left right) (hexpr : expr.leaves ⊆ leaves)
    (hnext : ∀ value, Outcome.Alike (InStep leaves leftOutput rightOutput) (leftNext value) (rightNext value)) :
    Outcome.Alike (InStep leaves leftOutput rightOutput)
      (Outcome.withValue left expr leftNext) (Outcome.withValue right expr rightNext) := by
  unfold Outcome.withValue
  rw [h.eval_eq hexpr]
  split
  · exact hnext _
  · exact .failed h

variable {body : State → Outcome}
  (hbody : ∀ left right, InStep leaves leftOutput rightOutput left right →
    Outcome.Alike (InStep leaves leftOutput rightOutput) (body left) (body right))

include hbody

theorem alike_whileRounds {condition : Expr} (hcondition : condition.leaves ⊆ leaves) (limit : Nat)
    {left right : State} (h : InStep leaves leftOutput rightOutput left right) :
    Outcome.Alike (InStep leaves leftOutput rightOutput)
      (whileRounds condition body limit left) (whileRounds condition body limit right) := by
  induction limit generalizing left right with
  | zero => exact .unfinished h
  | succ limit ih =>
      apply alike_withValue h hcondition
      intro value
      split
      · exact (hbody left right h).andThen fun _ _ => ih
      · exact .done h

theorem alike_forRounds (name : String) (rounds index : Nat) {left right : State}
    (h : InStep leaves leftOutput rightOutput left right) :
    Outcome.Alike (InStep leaves leftOutput rightOutput)
      (forRounds name body rounds index left) (forRounds name body rounds index right) := by
  induction rounds generalizing index left right with
  | zero => exact .done h
  | succ rounds ih => exact (hbody _ _ (h.assign name _)).andThen fun _ _ => ih (index + 1)

end

/-! ### Programs -/

mutual

theorem Statement.alike_exec (limit : Nat) {leaves : List Leaf} {leftOutput rightOutput : List Value}
    (statement : Statement) (hleaves : statement.leaves ⊆ leaves) (left right : State)
    (h : InStep leaves leftOutput rightOutput left right) :
    Outcome.Alike (InStep leaves leftOutput rightOutput) (statement.exec limit left) (statement.exec limit right) := by
  match statement with
  | .assign name value =>
      rw [Statement.exec, Statement.exec]
      apply alike_withValue h (List.cons_subset.mp hleaves).2
      intro result
      exact .done (h.assign name result)
  | .print value =>
      rw [Statement.exec, Statement.exec]
      apply alike_withValue h hleaves
      intro result
      exact .done (h.emit result)
  | .ifElse condition body alternative =>
      rw [Statement.leaves, List.append_subset, List.append_subset] at hleaves
      rw [Statement.exec, Statement.exec]
      apply alike_withValue h hleaves.1
      intro result
      split
      · exact alike_execBlock limit body hleaves.2.1 left right h
      · exact alike_execAlternative limit alternative hleaves.2.2 left right h
  | .whileLoop condition body =>
      rw [Statement.leaves, List.append_subset] at hleaves
      rw [Statement.exec, Statement.exec]
      exact alike_whileRounds (alike_execBlock limit body hleaves.2) hleaves.1 limit h
  | .forRange name count body =>
      rw [Statement.leaves, List.cons_subset, List.cons_subset] at hleaves
      rw [Statement.exec, Statement.exec]
      exact alike_forRounds (alike_execBlock limit body hleaves.2.2) name _ 0 h

theorem alike_execBlock (limit : Nat) {leaves : List Leaf} {leftOutput rightOutput : List Value}
    (body : List Statement) (hleaves : blockLeaves body ⊆ leaves) (left right : State)
    (h : InStep leaves leftOutput rightOutput left right) :
    Outcome.Alike (InStep leaves leftOutput rightOutput) (execBlock limit body left) (execBlock limit body right) := by
  match body with
  | [] =>
      rw [execBlock, execBlock]
      exact .done h
  | statement :: rest =>
      rw [blockLeaves, List.append_subset] at hleaves
      rw [execBlock, execBlock]
      exact (statement.alike_exec limit hleaves.1 left right h).andThen (alike_execBlock limit rest hleaves.2)

theorem alike_execAlternative (limit : Nat) {leaves : List Leaf} {leftOutput rightOutput : List Value}
    (alternative : Option (List Statement)) (hleaves : alternativeLeaves alternative ⊆ leaves) (left right : State)
    (h : InStep leaves leftOutput rightOutput left right) :
    Outcome.Alike (InStep leaves leftOutput rightOutput)
      (execAlternative limit alternative left) (execAlternative limit alternative right) := by
  match alternative with
  | none =>
      rw [execAlternative, execAlternative]
      exact .done h
  | some body =>
      rw [execAlternative, execAlternative]
      exact alike_execBlock limit body hleaves left right h

end

/-- Outcomes of one kind are ends together, and the error is the same. -/
theorem Outcome.Alike.of_ending {related : State → State → Prop} {error : Option RuntimeError} {after : State}
    {outcome : Outcome} (h : Alike related (.ending error after) outcome) :
    ∃ after', related after after' ∧ outcome = .ending error after' := by
  cases error with
  | none =>
      cases h with
      | done h => exact ⟨_, h, rfl⟩
  | some error =>
      cases h with
      | failed h => exact ⟨_, h, rfl⟩

theorem State.Agree.symm {leaves : List Leaf} {left right : State} (h : left.Agree leaves right) :
    right.Agree leaves left :=
  fun name hname => (h name hname).symm

/-- If one run ends, so does the other, and it has done the same. -/
theorem Ends.of_agree {body : List Statement} {left right after : State} {error : Option RuntimeError}
    (h : Ends body left error after) (hagree : left.Agree (blockLeaves body) right) :
    ∃ after', Ends body right error after' ∧
      InStep (blockLeaves body) left.output.toList right.output.toList after after' := by
  obtain ⟨limit, hlimit⟩ := h
  have hstart : InStep (blockLeaves body) left.output.toList right.output.toList left right :=
    ⟨hagree, [], (List.append_nil _).symm, (List.append_nil _).symm⟩
  have halike := alike_execBlock limit body (List.Subset.refl _) left right hstart
  rw [hlimit] at halike
  obtain ⟨after', hstep, hafter'⟩ := halike.of_ending
  exact ⟨after', ⟨limit, hafter'⟩, hstep⟩

/-- A run depends only on the variables that its statements name. From two states that agree on them, it ends from
both or from none, with the same error if there is one, the same values printed, and again the same values of all
these variables. -/
theorem ends_iff_of_agree (body : List Statement) (left right : State) (hagree : left.Agree (blockLeaves body) right) :
    ((∃ error after, Ends body left error after) ↔ ∃ error after, Ends body right error after) ∧
    ∀ leftError leftAfter rightError rightAfter,
      Ends body left leftError leftAfter → Ends body right rightError rightAfter →
      leftError = rightError ∧
      (∃ printed, leftAfter.output.toList = left.output.toList ++ printed ∧
        rightAfter.output.toList = right.output.toList ++ printed) ∧
      leftAfter.Agree (blockLeaves body) rightAfter := by
  refine ⟨⟨?_, ?_⟩, ?_⟩
  · rintro ⟨error, after, hends⟩
    obtain ⟨after', hends', _⟩ := hends.of_agree hagree
    exact ⟨error, after', hends'⟩
  · rintro ⟨error, after, hends⟩
    obtain ⟨after', hends', _⟩ := hends.of_agree hagree.symm
    exact ⟨error, after', hends'⟩
  · intro leftError leftAfter rightError rightAfter hleft hright
    obtain ⟨after', hends', hstep⟩ := hleft.of_agree hagree
    obtain ⟨rfl, rfl⟩ := hends'.unique hright
    exact ⟨rfl, hstep.printed, hstep.agree⟩

/-- A loop that prints `0` and `1`, and then a variable that is not bound. One of the two states has another variable,
and something printed before. -/
theorem ends_iff_of_agree_failing_loop :
    let body : List Statement :=
      [.whileLoop (.binary .less (.var "x") (.literal (.int 2)))
          [.print (.var "x"), .assign "x" (.binary .add (.var "x") (.literal (.int 1)))],
        .print (.var "y")]
    let left : State := ⟨⟨[("z", .null), ("x", .int 0)]⟩, #[.null]⟩
    let right : State := ⟨⟨[("x", .int 0)]⟩, #[]⟩
    left.Agree (blockLeaves body) right ∧
      ∃ after, Ends body right (some (.undefinedVariable "y")) after ∧ after.output.toList = [.int 0, .int 1] := by
  intro body left right
  have hagree : left.Agree (blockLeaves body) right := by
    intro name hname
    have hnames : name = "x" ∨ name = "y" := by
      simpa [body, blockLeaves, Statement.leaves, Expr.leaves] using hname
    rcases hnames with rfl | rfl <;> rfl
  have hleft : Ends body left (some (.undefinedVariable "y"))
      ⟨⟨[("z", .null), ("x", .int 2)]⟩, #[.null, .int 0, .int 1]⟩ := ⟨3, rfl⟩
  obtain ⟨hends, hsame⟩ := ends_iff_of_agree body left right hagree
  obtain ⟨error, after, hright⟩ := hends.mp ⟨_, _, hleft⟩
  obtain ⟨rfl, ⟨printed, hleftOutput, hrightOutput⟩, _⟩ := hsame _ _ _ _ hleft hright
  obtain rfl : [.int 0, .int 1] = printed := (List.cons.inj hleftOutput).2
  exact ⟨hagree, after, hright, hrightOutput⟩

end ScriptLang
