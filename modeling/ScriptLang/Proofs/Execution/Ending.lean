import ScriptLang.Execution
/-!
# Runs that end

The bound on the tests of a loop only decides whether a run is followed to its end. Once it is large enough the
outcome no longer depends on it, so a run that ends has one outcome, and `Ends` can speak of it without a bound.
-/

namespace ScriptLang

namespace Outcome

/-- The end of a run, in this state and with this error if there is one. -/
def ending (error : Option RuntimeError) (state : State) : Outcome :=
  match error with
  | none => .done state
  | some error => .failed error state

/-- With a larger bound the first outcome turns into the second: it can only do so if it was cut off. -/
def Extends (outcome more : Outcome) : Prop :=
  (∃ state, outcome = .unfinished state) ∨ more = outcome

namespace Extends

theorem refl (outcome : Outcome) : Extends outcome outcome := .inr rfl

theorem eq_of_ending {error : Option RuntimeError} {state : State} {more : Outcome}
    (h : Extends (ending error state) more) : more = ending error state := by
  rcases h with ⟨cut, hcut⟩ | heq
  · cases error <;> cases hcut
  · exact heq

theorem andThen {outcome more : Outcome} {next nextMore : State → Outcome} (h : Extends outcome more)
    (hnext : ∀ state, Extends (next state) (nextMore state)) :
    Extends (outcome.andThen next) (more.andThen nextMore) := by
  rcases h with ⟨state, rfl⟩ | rfl
  · exact .inl ⟨state, rfl⟩
  · cases more with
    | done state => exact hnext state
    | failed error state => exact refl _
    | unfinished state => exact refl _

theorem withValue {next nextMore : Value → Outcome} (hnext : ∀ value, Extends (next value) (nextMore value))
    (state : State) (expr : Expr) :
    Extends (Outcome.withValue state expr next) (Outcome.withValue state expr nextMore) := by
  unfold Outcome.withValue
  split
  · exact hnext _
  · exact refl _

end Extends

end Outcome

/-! ### A larger bound -/

section

variable {body bodyMore : State → Outcome} (hbody : ∀ state, (body state).Extends (bodyMore state))

include hbody

theorem extends_whileRounds {limit limitMore : Nat} (hlimit : limit ≤ limitMore) (condition : Expr) (state : State) :
    (whileRounds condition body limit state).Extends (whileRounds condition bodyMore limitMore state) := by
  induction limit generalizing limitMore state with
  | zero => exact .inl ⟨state, rfl⟩
  | succ limit ih =>
      obtain ⟨limitMore, rfl⟩ : ∃ below, limitMore = below + 1 := ⟨limitMore - 1, by omega⟩
      apply Outcome.Extends.withValue
      intro value
      split
      · exact (hbody state).andThen (ih (Nat.le_of_succ_le_succ hlimit))
      · exact .refl _

theorem extends_forRounds (name : String) (rounds index : Nat) (state : State) :
    (forRounds name body rounds index state).Extends (forRounds name bodyMore rounds index state) := by
  induction rounds generalizing index state with
  | zero => exact .refl _
  | succ rounds ih => exact (hbody _).andThen (ih (index + 1))

end

mutual

theorem Statement.extends_exec {limit limitMore : Nat} (hlimit : limit ≤ limitMore) (statement : Statement)
    (state : State) :
    (statement.exec limit state).Extends (statement.exec limitMore state) := by
  match statement with
  | .assign name value =>
      rw [Statement.exec, Statement.exec]
      exact .refl _
  | .print value =>
      rw [Statement.exec, Statement.exec]
      exact .refl _
  | .ifElse condition body alternative =>
      rw [Statement.exec, Statement.exec]
      apply Outcome.Extends.withValue
      intro result
      split
      · exact extends_execBlock hlimit body state
      · exact extends_execAlternative hlimit alternative state
  | .whileLoop condition body =>
      rw [Statement.exec, Statement.exec]
      exact extends_whileRounds (extends_execBlock hlimit body) hlimit condition state
  | .forRange name count body =>
      rw [Statement.exec, Statement.exec]
      exact extends_forRounds (extends_execBlock hlimit body) name _ 0 state

theorem extends_execBlock {limit limitMore : Nat} (hlimit : limit ≤ limitMore) (body : List Statement)
    (state : State) :
    (execBlock limit body state).Extends (execBlock limitMore body state) := by
  match body with
  | [] =>
      rw [execBlock, execBlock]
      exact .refl _
  | statement :: rest =>
      rw [execBlock, execBlock]
      exact (statement.extends_exec hlimit state).andThen (extends_execBlock hlimit rest)

theorem extends_execAlternative {limit limitMore : Nat} (hlimit : limit ≤ limitMore)
    (alternative : Option (List Statement)) (state : State) :
    (execAlternative limit alternative state).Extends (execAlternative limitMore alternative state) := by
  match alternative with
  | none =>
      rw [execAlternative, execAlternative]
      exact .refl _
  | some body =>
      rw [execAlternative, execAlternative]
      exact extends_execBlock hlimit body state

end

/-! ### One block after another -/

theorem execBlock_singleton (limit : Nat) (statement : Statement) (state : State) :
    execBlock limit [statement] state = statement.exec limit state := by
  rw [execBlock]
  cases statement.exec limit state with
  | done state => simp only [Outcome.andThen, execBlock]
  | failed | unfinished => rfl

theorem execBlock_append (limit : Nat) (body body' : List Statement) (state : State) :
    execBlock limit (body ++ body') state = (execBlock limit body state).andThen (execBlock limit body') := by
  induction body generalizing state with
  | nil => simp only [List.nil_append, execBlock, Outcome.andThen]
  | cons first rest ih =>
      rw [List.cons_append, execBlock, execBlock]
      cases first.exec limit state with
      | done state => exact ih state
      | failed error state => rfl
      | unfinished state => rfl

/-! ### The end of a run -/

/-- Executing the statements comes to an end in the second state, with this error if there is one. -/
def Ends (body : List Statement) (before : State) (error : Option RuntimeError) (after : State) : Prop :=
  ∃ limit, execBlock limit body before = .ending error after

namespace Ends

variable {body : List Statement} {before after after' : State} {error error' : Option RuntimeError}

/-- A run that ends is at its end under every bound that is large enough. -/
theorem exists_forall_limit (h : Ends body before error after) :
    ∃ enough, ∀ limit, enough ≤ limit → execBlock limit body before = .ending error after := by
  obtain ⟨enough, henough⟩ := h
  refine ⟨enough, fun limit hlimit => ?_⟩
  have hextends := extends_execBlock hlimit body before
  rw [henough] at hextends
  exact hextends.eq_of_ending

theorem unique (h : Ends body before error after) (h' : Ends body before error' after') :
    error = error' ∧ after = after' := by
  obtain ⟨enough, henough⟩ := h.exists_forall_limit
  obtain ⟨enough', henough'⟩ := h'.exists_forall_limit
  have heq : Outcome.ending error after = Outcome.ending error' after' :=
    (henough (max enough enough') (Nat.le_max_left _ _)).symm.trans
      (henough' (max enough enough') (Nat.le_max_right _ _))
  cases error <;> cases error' <;> cases heq <;> exact ⟨rfl, rfl⟩

end Ends

end ScriptLang
