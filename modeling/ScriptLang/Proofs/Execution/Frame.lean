import ScriptLang.Execution
import ScriptLang.Proofs.Environment.Bindings
/-!
# What execution leaves alone

A run only ever does two things to a state: it sets a variable that some assignment or counted loop of the
program names, and it appends a value to the output. `Frame` says what is then left of an earlier state. It holds
between any two states of a run, so it survives failures in the middle of nested blocks, where the state is as far
as the run has come.
-/

namespace ScriptLang

/-! ### The variables that a program sets -/

mutual

/-- The targets of assignments and the variables of counted loops, at any depth. -/
def Statement.targets : Statement → List String
  | .assign name _ => [name]
  | .print _ => []
  | .ifElse _ body alternative => blockTargets body ++ alternativeTargets alternative
  | .whileLoop _ body => blockTargets body
  | .forRange name _ body => name :: blockTargets body

def blockTargets : List Statement → List String
  | [] => []
  | statement :: rest => statement.targets ++ blockTargets rest

def alternativeTargets : Option (List Statement) → List String
  | none => []
  | some body => blockTargets body

end

/-! ### States of one run -/

/-- The second state comes from the first by setting variables with these names and appending to the output. -/
structure Frame (names : List String) (before after : State) : Prop where
  output : before.output.toList <+: after.output.toList
  bound : ∀ name, before.environment.contains name = true → after.environment.contains name = true
  kept : ∀ name, name ∉ names → after.environment.get? name = before.environment.get? name

namespace Frame

variable {names more : List String} {before between after : State}

theorem refl (names : List String) (state : State) : Frame names state state :=
  ⟨List.prefix_rfl, fun _ => id, fun _ _ => rfl⟩

theorem trans (hfirst : Frame names before between) (hsecond : Frame names between after) :
    Frame names before after where
  output := hfirst.output.trans hsecond.output
  bound name hname := hsecond.bound name (hfirst.bound name hname)
  kept name hname := (hsecond.kept name hname).trans (hfirst.kept name hname)

theorem mono (h : Frame names before after) (hsubset : names ⊆ more) : Frame more before after where
  output := h.output
  bound := h.bound
  kept name hname := h.kept name fun hmem => hname (hsubset hmem)

theorem assign {name : String} (hname : name ∈ names) (state : State) (value : Value) :
    Frame names state (state.assign name value) where
  output := List.prefix_rfl
  bound other hother := by
    show ((state.environment.set name value).get? other).isSome = true
    by_cases heq : name = other
    · subst heq
      simp
    · rw [Environment.get?_set_of_ne heq]
      exact hother
  kept other hother := by
    apply Environment.get?_set_of_ne
    rintro rfl
    exact hother hname

theorem emit (names : List String) (state : State) (value : Value) : Frame names state (state.emit value) where
  output := by
    show state.output.toList <+: (state.output.push value).toList
    rw [Array.toList_push]
    exact List.prefix_append _ _
  bound _ := id
  kept _ _ := rfl

/-- A name that was not bound before and is bound after is one of those that may be set. -/
theorem mem_of_new (h : Frame names before after) {name : String}
    (hbefore : before.environment.contains name = false) (hafter : after.environment.contains name = true) :
    name ∈ names := by
  by_cases hname : name ∈ names
  · exact hname
  · rw [Environment.contains, h.kept name hname] at hafter
    rw [Environment.contains, hafter] at hbefore
    cases hbefore

end Frame

/-! ### Steps and loops -/

/-- The state in which a run has come to its outcome, also if it failed there or was cut off. -/
def Outcome.state : Outcome → State
  | .done state => state
  | .failed _ state => state
  | .unfinished state => state

section

variable {names : List String}

theorem frame_andThen {before : State} {outcome : Outcome} {next : State → Outcome}
    (houtcome : Frame names before outcome.state) (hnext : ∀ state, Frame names state (next state).state) :
    Frame names before (outcome.andThen next).state := by
  cases outcome with
  | done state => exact houtcome.trans (hnext state)
  | failed error state => exact houtcome
  | unfinished state => exact houtcome

theorem frame_withValue {state : State} {next : Value → Outcome}
    (hnext : ∀ value, Frame names state (next value).state) (expr : Expr) :
    Frame names state (Outcome.withValue state expr next).state := by
  unfold Outcome.withValue
  split
  · exact hnext _
  · exact Frame.refl names state

variable {body : State → Outcome} (hbody : ∀ state, Frame names state (body state).state)

include hbody

theorem frame_whileRounds (condition : Expr) (limit : Nat) (state : State) :
    Frame names state (whileRounds condition body limit state).state := by
  induction limit generalizing state with
  | zero => exact Frame.refl names state
  | succ limit ih =>
      apply frame_withValue
      intro value
      split
      · exact frame_andThen (hbody state) ih
      · exact Frame.refl names state

theorem frame_forRounds {name : String} (hname : name ∈ names) (rounds index : Nat) (state : State) :
    Frame names state (forRounds name body rounds index state).state := by
  induction rounds generalizing index state with
  | zero => exact Frame.refl names state
  | succ rounds ih =>
      have hround := (Frame.assign hname state (.int (Int64.ofNat index))).trans (hbody _)
      exact frame_andThen hround (ih (index + 1))

end

/-! ### Programs -/

mutual

theorem Statement.frame_exec (limit : Nat) (statement : Statement) (state : State) :
    Frame statement.targets state (statement.exec limit state).state := by
  match statement with
  | .assign name value =>
      rw [Statement.exec, Statement.targets]
      apply frame_withValue
      intro result
      exact Frame.assign List.mem_cons_self state result
  | .print value =>
      rw [Statement.exec]
      apply frame_withValue
      intro result
      exact Frame.emit _ state result
  | .ifElse condition body alternative =>
      rw [Statement.exec, Statement.targets]
      apply frame_withValue
      intro result
      split
      · exact (frame_execBlock limit body state).mono (List.subset_append_left _ _)
      · exact (frame_execAlternative limit alternative state).mono (List.subset_append_right _ _)
  | .whileLoop condition body =>
      rw [Statement.exec, Statement.targets]
      exact frame_whileRounds (frame_execBlock limit body) condition limit state
  | .forRange name count body =>
      rw [Statement.exec, Statement.targets]
      apply frame_forRounds _ List.mem_cons_self
      exact fun state => (frame_execBlock limit body state).mono (List.subset_cons_self _ _)

theorem frame_execBlock (limit : Nat) (body : List Statement) (state : State) :
    Frame (blockTargets body) state (execBlock limit body state).state := by
  match body with
  | [] =>
      rw [execBlock]
      exact Frame.refl _ state
  | statement :: rest =>
      rw [execBlock, blockTargets]
      apply frame_andThen
      · exact (statement.frame_exec limit state).mono (List.subset_append_left _ _)
      · exact fun state => (frame_execBlock limit rest state).mono (List.subset_append_right _ _)

theorem frame_execAlternative (limit : Nat) (alternative : Option (List Statement)) (state : State) :
    Frame (alternativeTargets alternative) state (execAlternative limit alternative state).state := by
  match alternative with
  | none =>
      rw [execAlternative]
      exact Frame.refl _ state
  | some body =>
      rw [execAlternative, alternativeTargets]
      exact frame_execBlock limit body state

end

/-- Wherever a run of statements has come to, be it done, failed or cut off after any number of rounds: the output
has only grown, bound names are still bound, and variables that the statements do not set are as they were, so that
whatever is newly bound is something that they set. -/
theorem execBlock_appends_and_sets_targets (limit : Nat) (body : List Statement) (before : State) :
    let after := (execBlock limit body before).state
    before.output.toList <+: after.output.toList ∧
    (∀ name, before.environment.contains name = true → after.environment.contains name = true) ∧
    (∀ name, name ∉ blockTargets body → after.environment.get? name = before.environment.get? name) ∧
    ∀ name, before.environment.contains name = false → after.environment.contains name = true →
      name ∈ blockTargets body := by
  intro after
  have hframe : Frame (blockTargets body) before after := frame_execBlock limit body before
  exact ⟨hframe.output, hframe.bound, hframe.kept, fun _ => hframe.mem_of_new⟩

end ScriptLang
