import Mathlib
import ScriptLang.Proofs.Execution.Ending
/-!
# Programs that always end

Without `while` nothing can go on for ever: the rounds of a counted loop are counted before it starts, whatever its
body then does to the variable. How much is printed is bounded by the program alone. A `print` is executed at most
once for every combination of rounds of the loops around it.
-/

namespace ScriptLang

mutual

/-- There is no `while`, at any depth. -/
def Statement.WhileFree : Statement → Prop
  | .assign _ _ => True
  | .print _ => True
  | .ifElse _ body alternative => BlockWhileFree body ∧ AlternativeWhileFree alternative
  | .whileLoop _ _ => False
  | .forRange _ _ body => BlockWhileFree body

def BlockWhileFree : List Statement → Prop
  | [] => True
  | statement :: rest => statement.WhileFree ∧ BlockWhileFree rest

def AlternativeWhileFree : Option (List Statement) → Prop
  | none => True
  | some body => BlockWhileFree body

end

mutual

/-- For every `print`, the counts of the counted loops around it, the outermost first. -/
def Statement.countsAroundPrints : Statement → List (List Int64)
  | .assign _ _ => []
  | .print _ => [[]]
  | .ifElse _ body alternative => blockCountsAroundPrints body ++ alternativeCountsAroundPrints alternative
  | .whileLoop _ body => blockCountsAroundPrints body
  | .forRange _ count body => (blockCountsAroundPrints body).map (count :: ·)

def blockCountsAroundPrints : List Statement → List (List Int64)
  | [] => []
  | statement :: rest => statement.countsAroundPrints ++ blockCountsAroundPrints rest

def alternativeCountsAroundPrints : Option (List Statement) → List (List Int64)
  | none => []
  | some body => blockCountsAroundPrints body

end

/-- The number of combinations of rounds, for all prints together; a negative count has no rounds. -/
def combinations (prints : List (List Int64)) : Nat :=
  (prints.map fun counts => (counts.map fun count => count.toInt.toNat).prod).sum

theorem combinations_append (prints more : List (List Int64)) :
    combinations (prints ++ more) = combinations prints + combinations more := by
  simp [combinations]

theorem combinations_map_cons (count : Int64) (prints : List (List Int64)) :
    combinations (prints.map (count :: ·)) = count.toInt.toNat * combinations prints := by
  simp only [combinations, List.map_map, Function.comp_def, List.map_cons, List.prod_cons]
  exact List.sum_map_mul_left ..

/-! ### Steps and loops -/

/-- The outcome is an end, and at most so many values were printed on the way. -/
def EndsWithin (most : Nat) (before : State) (outcome : Outcome) : Prop :=
  ∃ error after printed, outcome = .ending error after ∧
    after.output.toList = before.output.toList ++ printed ∧ printed.length ≤ most

namespace EndsWithin

variable {most more : Nat} {before : State} {outcome : Outcome}

theorem done (state : State) : EndsWithin most state (.done state) :=
  ⟨none, state, [], rfl, (List.append_nil _).symm, Nat.zero_le _⟩

theorem mono (h : EndsWithin most before outcome) (hle : most ≤ more) : EndsWithin more before outcome := by
  obtain ⟨error, after, printed, hending, houtput, hlength⟩ := h
  exact ⟨error, after, printed, hending, houtput, Nat.le_trans hlength hle⟩

theorem andThen {next : State → Outcome} (h : EndsWithin most before outcome)
    (hnext : ∀ state, EndsWithin more state (next state)) :
    EndsWithin (most + more) before (outcome.andThen next) := by
  obtain ⟨error, between, printed, rfl, houtput, hlength⟩ := h
  cases error with
  | some error => exact ⟨some error, between, printed, rfl, houtput, by omega⟩
  | none =>
      obtain ⟨error, after, printed', hending, houtput', hlength'⟩ := hnext between
      refine ⟨error, after, printed ++ printed', hending, ?_, ?_⟩
      · rw [houtput', houtput, List.append_assoc]
      · rw [List.length_append]
        omega

theorem withValue {state : State} {next : Value → Outcome} (hnext : ∀ value, EndsWithin most state (next value))
    (expr : Expr) : EndsWithin most state (Outcome.withValue state expr next) := by
  unfold Outcome.withValue
  split
  · exact hnext _
  · exact ⟨some _, state, [], rfl, (List.append_nil _).symm, Nat.zero_le _⟩

/-- The body may set the variable as it likes: the rounds that are left are counted apart from it. -/
theorem forRounds {body : State → Outcome} (hbody : ∀ state, EndsWithin most state (body state)) (name : String)
    (rounds index : Nat) (state : State) :
    EndsWithin (rounds * most) state (ScriptLang.forRounds name body rounds index state) := by
  induction rounds generalizing index state with
  | zero => exact done state
  | succ rounds ih =>
      have hround : EndsWithin most state (body (state.assign name (.int (Int64.ofNat index)))) := hbody _
      rw [Nat.succ_mul, Nat.add_comm]
      exact hround.andThen (ih (index + 1))

end EndsWithin

/-! ### Programs -/

mutual

theorem Statement.endsWithin_exec (limit : Nat) (statement : Statement) (h : statement.WhileFree) (state : State) :
    EndsWithin (combinations statement.countsAroundPrints) state (statement.exec limit state) := by
  match statement with
  | .assign name value =>
      rw [Statement.exec]
      apply EndsWithin.withValue
      intro result
      exact ⟨none, state.assign name result, [], rfl, (List.append_nil _).symm, Nat.zero_le _⟩
  | .print value =>
      rw [Statement.exec, Statement.countsAroundPrints]
      apply EndsWithin.withValue
      intro result
      exact ⟨none, state.emit result, [result], rfl, Array.toList_push, Nat.le_refl 1⟩
  | .ifElse condition body alternative =>
      rw [Statement.exec, Statement.countsAroundPrints, combinations_append]
      apply EndsWithin.withValue
      intro result
      split
      · exact (endsWithin_execBlock limit body h.1 state).mono (Nat.le_add_right _ _)
      · exact (endsWithin_execAlternative limit alternative h.2 state).mono (Nat.le_add_left _ _)
  | .whileLoop condition body => exact h.elim
  | .forRange name count body =>
      rw [Statement.exec, Statement.countsAroundPrints, combinations_map_cons]
      exact .forRounds (endsWithin_execBlock limit body h) name _ 0 state

theorem endsWithin_execBlock (limit : Nat) (body : List Statement) (h : BlockWhileFree body) (state : State) :
    EndsWithin (combinations (blockCountsAroundPrints body)) state (execBlock limit body state) := by
  match body with
  | [] =>
      rw [execBlock]
      exact .done state
  | statement :: rest =>
      rw [execBlock, blockCountsAroundPrints, combinations_append]
      exact (statement.endsWithin_exec limit h.1 state).andThen (endsWithin_execBlock limit rest h.2)

theorem endsWithin_execAlternative (limit : Nat) (alternative : Option (List Statement))
    (h : AlternativeWhileFree alternative) (state : State) :
    EndsWithin (combinations (alternativeCountsAroundPrints alternative)) state
      (execAlternative limit alternative state) := by
  match alternative with
  | none =>
      rw [execAlternative]
      exact .done state
  | some body =>
      rw [execAlternative, alternativeCountsAroundPrints]
      exact endsWithin_execBlock limit body h state

end

/-- Statements without `while` end from every state, and no bound on loop tests matters. They print at most as many
values as there are combinations of rounds around their prints. -/
theorem ends_of_whileFree (body : List Statement) (hfree : BlockWhileFree body) (before : State) :
    ∃ error after printed, (∀ limit, execBlock limit body before = .ending error after) ∧
      after.output.toList = before.output.toList ++ printed ∧
      printed.length ≤ combinations (blockCountsAroundPrints body) := by
  obtain ⟨error, after, printed, hending, houtput, hlength⟩ := endsWithin_execBlock 0 body hfree before
  refine ⟨error, after, printed, fun limit => ?_, houtput, hlength⟩
  have hextends := extends_execBlock (Nat.zero_le limit) body before
  rw [hending] at hextends
  exact hextends.eq_of_ending

/-- Two loops with one variable, which the inner body sets back to zero, and a loop with a negative count. -/
theorem ends_of_whileFree_nested :
    let inner : List Statement := [.print (.var "i"), .assign "i" (.literal (.int 0))]
    let body : List Statement :=
      [.forRange "i" 2 [.forRange "i" 3 inner], .forRange "j" (-5) [.print (.literal .null)]]
    BlockWhileFree body ∧ combinations (blockCountsAroundPrints body) = 6 ∧
      ∃ error after printed, (∀ limit, execBlock limit body State.empty = .ending error after) ∧
        after.output.toList = printed ∧ printed.length ≤ 6 := by
  intro inner body
  have hfree : BlockWhileFree body := ⟨⟨⟨trivial, trivial, trivial⟩, trivial⟩, ⟨trivial, trivial⟩, trivial⟩
  exact ⟨hfree, rfl, ends_of_whileFree body hfree State.empty⟩

end ScriptLang
