import ScriptLang.Environment
import ScriptLang.Program
import ScriptLang.Value.Order
/-!
# Execution

Statements change the variables and append to the output. What has been printed before an error stays.

A `while` loop may go on for ever, so execution is given the number of times that a loop may test its
condition; a run that needs more is `unfinished`, which is neither an end nor an error. Everything else
recurses on the program itself, and the rounds of a `for` loop are counted before it starts.
-/

namespace ScriptLang

/-- The value of an expression. Both operands of an operator are always evaluated, the left one first. -/
def Expr.eval (environment : Environment) : Expr → Except RuntimeError Value
  | .literal value => .ok value
  | .var name => environment.get name
  | .negate operand => do (← operand.eval environment).negate
  | .binary operator left right => do
    Value.binary operator (← left.eval environment) (← right.eval environment)

structure State where
  environment : Environment
  output : Array Value
  deriving DecidableEq

namespace State

def empty : State := ⟨Environment.empty, #[]⟩

def assign (state : State) (name : String) (value : Value) : State :=
  { state with environment := state.environment.set name value }

def emit (state : State) (value : Value) : State :=
  { state with output := state.output.push value }

/-- Hands over what was printed. The variables stay. -/
def takeOutput (state : State) : Array Value × State :=
  (state.output, { state with output := #[] })

end State

inductive Outcome where
  | done (state : State)
  | failed (error : RuntimeError) (state : State)
  | unfinished (state : State)
  deriving DecidableEq

namespace Outcome

/-- Goes on after a part that is done. -/
@[inline] def andThen (outcome : Outcome) (next : State → Outcome) : Outcome :=
  match outcome with
  | .done state => next state
  | .failed error state => .failed error state
  | .unfinished state => .unfinished state

/-- Goes on with the value of an expression. -/
@[inline] def withValue (state : State) (expr : Expr) (next : Value → Outcome) : Outcome :=
  match expr.eval state.environment with
  | .ok value => next value
  | .error error => .failed error state

end Outcome

/-- Executes the body as long as the condition holds, testing it at most so many times. -/
def whileRounds (condition : Expr) (body : State → Outcome) : Nat → State → Outcome
  | 0, state => .unfinished state
  | limit + 1, state =>
    Outcome.withValue state condition fun value =>
      if value.truth then (body state).andThen (whileRounds condition body limit)
      else .done state

/-- Executes the body so many times, with the variable set to the index of the round. -/
def forRounds (name : String) (body : State → Outcome) : Nat → Nat → State → Outcome
  | 0, _, state => .done state
  | rounds + 1, index, state =>
    (body (state.assign name (.int (Int64.ofNat index)))).andThen
      (forRounds name body rounds (index + 1))

mutual

/-- Executes a statement. -/
def Statement.exec (limit : Nat) : Statement → State → Outcome
  | .assign name value, state =>
    Outcome.withValue state value fun result => .done (state.assign name result)
  | .print value, state =>
    Outcome.withValue state value fun result => .done (state.emit result)
  | .ifElse condition body alternative, state =>
    Outcome.withValue state condition fun result =>
      if result.truth then execBlock limit body state
      else execAlternative limit alternative state
  | .whileLoop condition body, state => whileRounds condition (execBlock limit body) limit state
  | .forRange name count body, state =>
    forRounds name (execBlock limit body) count.toInt.toNat 0 state

/-- Executes statements in order, up to the first that fails. -/
def execBlock (limit : Nat) : List Statement → State → Outcome
  | [], state => .done state
  | statement :: rest, state => (statement.exec limit state).andThen (execBlock limit rest)

/-- Executes the alternative of a conditional, if there is one. -/
def execAlternative (limit : Nat) : Option (List Statement) → State → Outcome
  | none, state => .done state
  | some body, state => execBlock limit body state

end

/-- Executes a program from a state without variables and output. -/
def Program.run (limit : Nat) (program : Program) : Outcome :=
  execBlock limit program.statements State.empty

end ScriptLang
