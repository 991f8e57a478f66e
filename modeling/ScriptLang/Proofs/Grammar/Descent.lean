import Mathlib
import ScriptLang.Proofs.Grammar.Blame
import ScriptLang.Proofs.Grammar.Clauses
/-!
# Descending with a counted depth

The rules of the grammar are told the room below them, which only shrinks, and their loops are bounded by it or by the
number of tokens. Here the same phrases are read with numbers that grow. Every level is counted from the top, the node
of an operator is checked by adding the height of the tree to the depth, the clauses of a conditional are collected
first and nested afterwards, and every loop goes on until a token ends it.

Read like this, a number could leave the range of a word, and reading could go on for ever. Both have a place in the
answer of a descent, so that it can be said that neither happens. How numbers are added and subtracted is a parameter.
What calls what is written down once, as a step from calls to calls. The descent is what the step leads to with more and
more fuel, and is a fixed point of it.
-/

namespace ScriptLang.Grammar

/-- Numbers that stand for depths and heights. A sum or a difference may be refused. -/
structure Arithmetic (Number : Type) where
  value : Number → Nat
  ofNat : Nat → Number
  add? : Number → Number → Option Number
  sub? : Number → Number → Option Number

namespace Arithmetic

/-- Natural numbers. Nothing is subtracted from a smaller number. -/
def natural : Arithmetic Nat where
  value number := number
  ofNat number := number
  add? a b := some (a + b)
  sub? a b := if b ≤ a then some (a - b) else none

/-- Words of 64 bits that wrap around. -/
def wrapping : Arithmetic UInt64 where
  value := UInt64.toNat
  ofNat := UInt64.ofNat
  add? a b := some (a + b)
  sub? a b := some (a - b)

/-- Words of 64 bits, where an operation that would wrap around is refused. -/
def checked : Arithmetic UInt64 where
  value := UInt64.toNat
  ofNat := UInt64.ofNat
  add? a b := if a.toNat + b.toNat < 2 ^ 64 then some (a + b) else none
  sub? a b := if b.toNat ≤ a.toNat then some (a - b) else none

end Arithmetic

/-- Why a descent fails. -/
inductive Failure where
  | overflow
  | malformed (error : SyntaxError)

/-- Takes tokens from the front as a rule does. There is no answer if it does not come to an end. -/
abbrev Descent := ExceptT Failure (StateT Cursor Option)

namespace Descent

variable {α β : Type}

/-- A rule always comes to an end. -/
def ofRule (rule : Rule α) : Descent α := fun cursor =>
  match rule cursor with
  | .ok value cursor' => some (.ok value, cursor')
  | .error error cursor' => some (.error (.malformed error), cursor')

instance : MonadLift Rule Descent where
  monadLift := ofRule

/-! ### Rules as descents

Sequencing rules and sequencing their descents is the same. -/

theorem liftM_eq (rule : Rule α) : (liftM rule : Descent α) = ofRule rule := rfl

theorem ofRule_pure (value : α) : ofRule (pure value) = pure value := rfl

theorem get_bind_apply (continued : Cursor → Descent α) (cursor : Cursor) :
    (get >>= continued : Descent α) cursor = continued cursor cursor := rfl

theorem ofRule_of_ok {rule : Rule α} {cursor cursor' : Cursor} {value : α} (h : rule cursor = .ok value cursor') :
    ofRule rule cursor = some (.ok value, cursor') := by
  rw [ofRule, h]

theorem ofRule_of_error {rule : Rule α} {cursor cursor' : Cursor} {error : SyntaxError}
    (h : rule cursor = .error error cursor') : ofRule rule cursor = some (.error (.malformed error), cursor') := by
  rw [ofRule, h]

theorem ofRule_congr {rule rule' : Rule α} {cursor cursor' : Cursor} (h : rule cursor = rule' cursor') :
    ofRule rule cursor = ofRule rule' cursor' := by
  rw [ofRule, ofRule, h]

theorem ofRule_ne_overflow (rule : Rule α) (cursor cursor' : Cursor) :
    ofRule rule cursor ≠ some (.error .overflow, cursor') := by
  intro h
  cases hrule : rule cursor with
  | ok =>
      rw [ofRule_of_ok hrule] at h
      cases h
  | error =>
      rw [ofRule_of_error hrule] at h
      cases h

/-- What a descent goes on with depends on its answer alone. -/
theorem bind_apply_congr {first first' : Descent α} {cursor : Cursor} (h : first cursor = first' cursor)
    (continued : α → Descent β) : (first >>= continued) cursor = (first' >>= continued) cursor := by
  show StateT.bind first (ExceptT.bindCont continued) cursor = StateT.bind first' (ExceptT.bindCont continued) cursor
  rw [StateT.bind, StateT.bind, h]

theorem bind_apply_of_ok {rule : Rule α} {cursor cursor' : Cursor} {value : α} (h : rule cursor = .ok value cursor')
    (continued : α → Descent β) : (ofRule rule >>= continued) cursor = continued value cursor' := by
  show StateT.bind (ofRule rule) (ExceptT.bindCont continued) cursor = _
  rw [StateT.bind, ofRule_of_ok h]
  rfl

theorem bind_apply_of_error {rule : Rule α} {cursor cursor' : Cursor} {error : SyntaxError}
    (h : rule cursor = .error error cursor') (continued : α → Descent β) :
    (ofRule rule >>= continued) cursor = some (.error (.malformed error), cursor') := by
  show StateT.bind (ofRule rule) (ExceptT.bindCont continued) cursor = _
  rw [StateT.bind, ofRule_of_error h]
  rfl

/-- A descent that begins with a rule, and goes on as another one wherever the first can succeed. -/
theorem bind_eq_ofRule {rule : Rule α} {condition : List Token → α → Prop} {continued : α → Descent β}
    {continued' : α → Rule β} (hreads : Rule.Reads rule condition)
    (h : ∀ taken value, condition taken value → continued value = ofRule (continued' value)) :
    ofRule rule >>= continued = ofRule (rule >>= continued') := by
  funext cursor
  cases hrule : rule cursor with
  | ok value cursor' =>
      obtain ⟨taken, _, hcondition⟩ := hreads hrule
      rw [bind_apply_of_ok hrule, h taken value hcondition]
      exact ofRule_congr (Rule.bind_of_ok hrule continued').symm
  | error error cursor' =>
      rw [bind_apply_of_error hrule, ofRule_of_error (Rule.bind_eq_error.mpr (.inl hrule))]

theorem ofRule_bind (rule : Rule α) (continued : α → Rule β) :
    ofRule (rule >>= continued) = ofRule rule >>= fun value => ofRule (continued value) := by
  funext cursor
  cases hrule : rule cursor with
  | ok value cursor' =>
      rw [bind_apply_of_ok hrule]
      exact ofRule_congr (Rule.bind_of_ok hrule continued)
  | error error cursor' =>
      rw [bind_apply_of_error hrule, ofRule_of_error (Rule.bind_eq_error.mpr (.inl hrule))]

/-- A descent that looks at a token, and takes it only if it is known. -/
theorem takeIf_bind_eq {known : Kind → Option α} {continued : Option (α × Token) → Descent β} {rule : Rule β}
    (hnone : ∀ rest lines, (∀ token ∈ rest.head?, known token.kind = none) →
      continued none ⟨rest, lines⟩ = ofRule rule ⟨rest, lines⟩)
    (hsome : ∀ found token rest lines, known token.kind = some found →
      continued (some (found, token)) ⟨rest, lines⟩ = ofRule rule ⟨token :: rest, lines⟩) :
    ofRule (Rule.takeIf known) >>= continued = ofRule rule := by
  funext ⟨rest, lines⟩
  cases hhead : rest.head?.bind fun token => known token.kind with
  | none =>
      have hknown : ∀ token ∈ rest.head?, known token.kind = none := by
        intro token htoken
        rw [Option.mem_def.mp htoken] at hhead
        exact hhead
      rw [bind_apply_of_ok (Rule.takeIf_eq_none hknown lines), hnone rest lines hknown]
  | some found =>
      cases rest with
      | nil => cases hhead
      | cons token rest =>
          rw [bind_apply_of_ok (Rule.takeIf_eq_some hhead rest lines), hsome found token rest lines hhead]

/-! ### More and more fuel -/

/-- With more fuel the runs keep their answers. -/
def Grows (runs : Nat → Descent α) : Prop :=
  ∀ fuel ⦃cursor answer⦄, runs fuel cursor = some answer → runs (fuel + 1) cursor = some answer

/-- The runs keep their answers, and these are the answers of the whole. -/
structure Approaches (runs : Nat → Descent α) (whole : Descent α) : Prop where
  grows : Grows runs
  eq_some_iff : ∀ cursor answer, whole cursor = some answer ↔ ∃ fuel, runs fuel cursor = some answer

open Classical in
/-- The answer of the runs that have one. -/
noncomputable def limit (runs : Nat → Descent α) : Descent α := fun cursor =>
  if h : ∃ answer fuel, runs fuel cursor = some answer then some h.choose else none

theorem Grows.add {runs : Nat → Descent α} (h : Grows runs) {fuel : Nat} {cursor : Cursor}
    {answer : Except Failure α × Cursor} (hanswer : runs fuel cursor = some answer) (more : Nat) :
    runs (fuel + more) cursor = some answer := by
  induction more with
  | zero => exact hanswer
  | succ more ih => exact h _ ih

theorem approaches_limit {runs : Nat → Descent α} (h : Grows runs) : Approaches runs (limit runs) := by
  refine ⟨h, fun cursor answer => ⟨fun hlimit => ?_, fun ⟨fuel, hanswer⟩ => ?_⟩⟩
  · rw [limit] at hlimit
    split at hlimit
    · rename_i hexists
      obtain rfl := Option.some.inj hlimit
      exact hexists.choose_spec
    · cases hlimit
  · have hexists : ∃ answer fuel, runs fuel cursor = some answer := ⟨answer, fuel, hanswer⟩
    obtain ⟨other, hother⟩ := hexists.choose_spec
    have hleft := h.add hanswer other
    have hright := h.add hother fuel
    rw [Nat.add_comm, hleft] at hright
    rw [limit, dif_pos hexists, hright]

namespace Approaches

variable {runs : Nat → Descent α} {whole whole' : Descent α}

theorem unique (h : Approaches runs whole) (h' : Approaches runs whole') : whole = whole' := by
  funext cursor
  apply Option.ext
  intro answer
  rw [h.eq_some_iff, h'.eq_some_iff]

theorem const (whole : Descent α) : Approaches (fun _ => whole) whole :=
  ⟨fun _ _ _ h => h, fun _ _ => ⟨fun h => ⟨0, h⟩, fun ⟨_, h⟩ => h⟩⟩

theorem tail (h : Approaches runs whole) : Approaches (fun fuel => runs (fuel + 1)) whole := by
  refine ⟨fun _ _ _ hanswer => h.grows _ hanswer, fun cursor answer => ?_⟩
  rw [h.eq_some_iff]
  constructor
  · rintro ⟨fuel, hanswer⟩
    exact ⟨fuel, h.grows fuel hanswer⟩
  · rintro ⟨fuel, hanswer⟩
    exact ⟨fuel + 1, hanswer⟩

/-- A single step of fuel. -/
theorem of_imp {first : Descent α} (h : ∀ ⦃cursor answer⦄, first cursor = some answer → whole cursor = some answer) :
    Approaches (fun fuel => if fuel = 0 then first else whole) whole := by
  refine ⟨fun fuel cursor answer hanswer => ?_, fun cursor answer => ⟨fun hanswer => ⟨1, hanswer⟩, ?_⟩⟩
  · cases fuel with
    | zero => exact h hanswer
    | succ fuel => exact hanswer
  · rintro ⟨fuel, hanswer⟩
    cases fuel with
    | zero => exact h hanswer
    | succ fuel => exact hanswer

end Approaches

theorem bind_eq_some {first : Descent α} {continued : α → Descent β} {cursor : Cursor}
    {answer : Except Failure β × Cursor} :
    (first >>= continued) cursor = some answer ↔
      (∃ value cursor', first cursor = some (.ok value, cursor') ∧ continued value cursor' = some answer) ∨
      ∃ failure cursor', first cursor = some (.error failure, cursor') ∧ answer = (.error failure, cursor') := by
  change StateT.bind first (ExceptT.bindCont continued) cursor = some answer ↔ _
  rw [StateT.bind]
  rcases first cursor with _ | ⟨_ | _, _⟩
  · simp
  · simp [ExceptT.bindCont, pure, StateT.pure, eq_comm]
  · simp [ExceptT.bindCont]

/-- What was answered with some fuel and goes on with some other has enough of both together. -/
theorem Approaches.bind {runs : Nat → Descent α} {whole : Descent α} {continued : Nat → α → Descent β}
    {continued' : α → Descent β} (h : Approaches runs whole)
    (hcontinued : ∀ value, Approaches (fun fuel => continued fuel value) (continued' value)) :
    Approaches (fun fuel => runs fuel >>= continued fuel) (whole >>= continued') := by
  refine ⟨fun fuel cursor answer hanswer => ?_, fun cursor answer => ?_⟩
  · rw [bind_eq_some] at hanswer ⊢
    rcases hanswer with ⟨value, cursor', hfirst, hrest⟩ | ⟨failure, cursor', hfirst, hfailure⟩
    · exact .inl ⟨value, cursor', h.grows fuel hfirst, (hcontinued value).grows fuel hrest⟩
    · exact .inr ⟨failure, cursor', h.grows fuel hfirst, hfailure⟩
  · simp only [bind_eq_some]
    constructor
    · rintro (⟨value, cursor', hfirst, hrest⟩ | ⟨failure, cursor', hfirst, hfailure⟩)
      · obtain ⟨fuel, hfirst⟩ := (h.eq_some_iff _ _).mp hfirst
        obtain ⟨fuel', hrest⟩ := ((hcontinued value).eq_some_iff _ _).mp hrest
        refine ⟨fuel + fuel', .inl ⟨value, cursor', h.grows.add hfirst fuel', ?_⟩⟩
        rw [Nat.add_comm]
        exact (hcontinued value).grows.add hrest fuel
      · obtain ⟨fuel, hfirst⟩ := (h.eq_some_iff _ _).mp hfirst
        exact ⟨fuel, .inr ⟨failure, cursor', hfirst, hfailure⟩⟩
    · rintro ⟨fuel, ⟨value, cursor', hfirst, hrest⟩ | ⟨failure, cursor', hfirst, hfailure⟩⟩
      · exact .inl ⟨value, cursor', (h.eq_some_iff _ _).mpr ⟨fuel, hfirst⟩,
          ((hcontinued value).eq_some_iff _ _).mpr ⟨fuel, hrest⟩⟩
      · exact .inr ⟨failure, cursor', (h.eq_some_iff _ _).mpr ⟨fuel, hfirst⟩, hfailure⟩

theorem Approaches.bind_left {runs : Nat → Descent α} {whole : Descent α} (h : Approaches runs whole)
    (continued : α → Descent β) : Approaches (fun fuel => runs fuel >>= continued) (whole >>= continued) :=
  h.bind fun value => .const (continued value)

theorem Approaches.bind_right (first : Descent α) {continued : Nat → α → Descent β} {continued' : α → Descent β}
    (h : ∀ value, Approaches (fun fuel => continued fuel value) (continued' value)) :
    Approaches (fun fuel => first >>= continued fuel) (first >>= continued') :=
  (const first).bind h

end Descent

namespace Arithmetic

open Descent

variable {Number : Type} (A : Arithmetic Number)

/-! ### Numbers -/

def ofResult : Option Number → Descent Number
  | some number => return number
  | none => throw .overflow

def plus (a b : Number) : Descent Number := ofResult (A.add? a b)

def minus (a b : Number) : Descent Number := ofResult (A.sub? a b)

def max (a b : Number) : Number := if A.value a < A.value b then b else a

/-- The height of an expression, as a number. -/
def height : Expr → Descent Number
  | .literal _ => return A.ofNat 1
  | .var _ => return A.ofNat 1
  | .negate operand => do A.plus (A.ofNat 1) (← height operand)
  | .binary _ left right => do A.plus (A.ofNat 1) (A.max (← height left) (← height right))

/-- Fails if there is no level of this depth, and blames the token. -/
def check (depth : Number) (token : Token) : Descent Unit :=
  if levelLimit < A.value depth then throw (.malformed (.nestingTooDeep token)) else return

/-! ### Calls -/

/-- What is read on the way down at some depth, with the type of what is read. -/
inductive Call (Number : Type) : Type → Type
  | expr (depth : Number) (tier : Tier) : Call Number Expr
  | primary (depth : Number) : Call Number Expr
  /-- The operators of a tier that follow a left operand of this height. -/
  | chain (depth : Number) (tier : Tier) (left : Expr) (height : Number) : Call Number Expr
  | statement (depth : Number) : Call Number Statement
  /-- What follows the first token of a statement. -/
  | afterFirst (depth : Number) (first : Token) : Call Number Statement
  /-- What follows the keyword of a conditional. -/
  | conditional (depth : Number) : Call Number Statement
  /-- The clauses with `elseif`, behind the ones that were read before. -/
  | clauses (depth : Number) (before : List Clause) : Call Number (List Clause)
  /-- The block of `else` behind these clauses, if there is one. -/
  | otherwise (depth : Number) (clauses : List Clause) : Call Number (Option (List Statement))
  | block (depth : Number) : Call Number (List Statement)
  /-- Statements and the closing brace behind them. -/
  | untilBrace (depth : Number) : Call Number (List Statement)
  /-- Statements up to the end of the tokens. -/
  | untilEnd (depth : Number) : Call Number (List Statement)

section

variable {α : Type}

/-- What a call does, given what the calls do that it makes. -/
def step (recurse : ∀ {β : Type}, Call Number β → Descent β) : Call Number α → Descent α
  | .expr depth tier =>
    if tier = .unary then do
      match ← Rule.takeIf fun kind => if kind = .minus then some () else none with
      | some (_, token) =>
        A.check depth token
        return .negate (← recurse (.expr (← A.plus depth (A.ofNat 1)) .unary))
      | none => recurse (.primary depth)
    else do
      let left ← recurse (.expr depth tier.tighter)
      recurse (.chain depth tier left (← A.height left))
  | .primary depth => do
    let token ← Rule.next
    A.check depth token
    match token.kind with
    | .number => return .literal (← number token)
    | .string => return .literal (.string (literalText token.text))
    | .boolean => return .literal (.bool (token.text = "true"))
    | .null => return .literal .null
    | .identifier => return .var token.text
    | .openParen =>
      let inside ← recurse (.expr (← A.plus depth (A.ofNat 1)) .comparison)
      let _ ← Rule.expect .closeParen
      return inside
    | _ => throw (.malformed (.unexpectedToken token))
  -- Each operator pushes what was read before it one level down.
  | .chain depth tier left height => do
    match ← Rule.takeIf tier.operator? with
    | none => return left
    | some (operator, token) =>
      let right ← recurse (.expr (← A.plus depth (A.ofNat 1)) tier.tighter)
      let height ← A.plus (A.max height (← A.height right)) (A.ofNat 1)
      A.check (← A.minus (← A.plus depth height) (A.ofNat 1)) token
      recurse (.chain depth tier (.binary operator left right) height)
  | .statement depth => do
    let first ← Rule.next
    A.check depth first
    let result ← recurse (.afterFirst depth first)
    Rule.close first
    return result
  | .afterFirst depth first =>
    match first.kind with
    | .identifier => do
      let _ ← Rule.expect .assign
      return .assign first.text (← recurse (.expr (← A.plus depth (A.ofNat 1)) .comparison))
    | .printWord => do
      let _ ← Rule.expect .openParen
      let value ← recurse (.expr (← A.plus depth (A.ofNat 1)) .comparison)
      let _ ← Rule.expect .closeParen
      return .print value
    | .ifWord => recurse (.conditional depth)
    | .whileWord => do
      let condition ← recurse (.expr (← A.plus depth (A.ofNat 1)) .comparison)
      return .whileLoop condition (← recurse (.block (← A.plus depth (A.ofNat 1))))
    | .forWord => do
      let name ← Rule.expect .identifier
      let _ ← Rule.expect .inWord
      let _ ← Rule.expect .rangeWord
      let _ ← Rule.expect .openParen
      let count ← loopCount
      let _ ← Rule.expect .closeParen
      return .forRange name.text count (← recurse (.block (← A.plus depth (A.ofNat 1))))
    | _ => throw (.malformed (.unexpectedToken first))
  | .conditional depth => do
    let condition ← recurse (.expr (← A.plus depth (A.ofNat 1)) .comparison)
    let body ← recurse (.block (← A.plus depth (A.ofNat 1)))
    let clauses ← recurse (.clauses depth [])
    let otherwise ← recurse (.otherwise depth clauses)
    return .ifElse condition body (alternativeOf clauses otherwise)
  | .clauses depth before => do
    match ← Rule.takeIf fun kind => if kind = .elseifWord then some () else none with
    | none => return before
    | some (_, keyword) =>
      let nested ← A.plus (← A.plus depth (A.ofNat 1)) (A.ofNat before.length)
      A.check nested keyword
      let condition ← recurse (.expr (← A.plus nested (A.ofNat 1)) .comparison)
      let body ← recurse (.block (← A.plus nested (A.ofNat 1)))
      recurse (.clauses depth (before ++ [⟨condition, body⟩]))
  | .otherwise depth clauses => do
    match ← Rule.takeIf fun kind => if kind = .elseWord then some () else none with
    | none => return none
    | some _ =>
      let nested ← A.plus (← A.plus depth (A.ofNat 1)) (A.ofNat clauses.length)
      return some (← recurse (.block nested))
  | .block depth => do
    let _ ← Rule.expect .openBrace
    recurse (.untilBrace depth)
  | .untilBrace depth => do
    match (← get).rest with
    | [] => throw (.malformed .endOfInput)
    | token :: _ =>
      if token.kind = .closeBrace then do
        let _ ← Rule.next
        return []
      else
        let first ← recurse (.statement depth)
        return first :: (← recurse (.untilBrace depth))
  | .untilEnd depth => do
    match (← get).rest with
    | [] => return []
    | _ :: _ =>
      let first ← recurse (.statement depth)
      return first :: (← recurse (.untilEnd depth))

/-- A call with so much fuel. There is no answer if it is not enough. -/
def within : Nat → ∀ {α : Type}, Call Number α → Descent α
  | 0, _, _ => fun _ => none
  | fuel + 1, _, call => A.step (@within fuel) call

/-- The answer of a call, if it comes to an end. -/
noncomputable def descend (call : Call Number α) : Descent α := Descent.limit fun fuel => A.within fuel call

end

noncomputable def programAt : Descent Program :=
  return ⟨← A.descend (.untilEnd (A.ofNat 1))⟩

/-! ### The fixed point -/

section

variable {A} {α : Type} {runs : Nat → ∀ {β : Type}, Call Number β → Descent β}
  {whole : ∀ {β : Type}, Call Number β → Descent β}

/-- A call makes finitely many others before it answers, so with fuel enough for each of them it answers as well. -/
theorem approaches_step (h : ∀ {β : Type} (call : Call Number β), Approaches (fun fuel => runs fuel call) (whole call))
    (call : Call Number α) : Approaches (fun fuel => A.step (@runs fuel) call) (A.step @whole call) := by
  cases call with
  | expr depth tier =>
      simp only [step]
      split
      · refine .bind_right _ fun result => ?_
        cases result with
        | none => exact h _
        | some found =>
            refine .bind_right _ fun _ => ?_
            refine .bind_right _ fun next => ?_
            exact (h _).bind_left _
      · refine (h _).bind fun left => ?_
        exact .bind_right _ fun _ => h _
  | primary depth =>
      simp only [step]
      refine .bind_right _ fun token => ?_
      refine .bind_right _ fun _ => ?_
      generalize token.kind = kind
      cases kind with
      | openParen =>
          refine .bind_right _ fun next => ?_
          exact (h _).bind_left _
      | _ => exact .const _
  | chain depth tier left height =>
      simp only [step]
      refine .bind_right _ fun result => ?_
      cases result with
      | none => exact .const _
      | some found =>
          refine .bind_right _ fun next => ?_
          refine (h _).bind fun right => ?_
          refine .bind_right _ fun rightHeight => ?_
          refine .bind_right _ fun height => ?_
          refine .bind_right _ fun reach => ?_
          refine .bind_right _ fun lowest => ?_
          exact .bind_right _ fun _ => h _
  | statement depth =>
      simp only [step]
      refine .bind_right _ fun first => ?_
      refine .bind_right _ fun _ => ?_
      exact (h _).bind_left _
  | afterFirst depth first =>
      simp only [step]
      generalize first.kind = kind
      cases kind with
      | identifier | printWord =>
          refine .bind_right _ fun _ => ?_
          refine .bind_right _ fun next => ?_
          exact (h _).bind_left _
      | ifWord => exact h _
      | whileWord =>
          refine .bind_right _ fun next => ?_
          refine (h _).bind fun condition => ?_
          refine .bind_right _ fun next => ?_
          exact (h _).bind_left _
      | forWord =>
          refine .bind_right _ fun name => ?_
          refine .bind_right _ fun _ => ?_
          refine .bind_right _ fun _ => ?_
          refine .bind_right _ fun _ => ?_
          refine .bind_right _ fun count => ?_
          refine .bind_right _ fun _ => ?_
          refine .bind_right _ fun next => ?_
          exact (h _).bind_left _
      | _ => exact .const _
  | conditional depth =>
      simp only [step]
      refine .bind_right _ fun next => ?_
      refine (h _).bind fun condition => ?_
      refine .bind_right _ fun next => ?_
      refine (h _).bind fun body => ?_
      refine (h _).bind fun clauses => ?_
      exact (h _).bind_left _
  | clauses depth before =>
      simp only [step]
      refine .bind_right _ fun result => ?_
      cases result with
      | none => exact .const _
      | some found =>
          refine .bind_right _ fun next => ?_
          refine .bind_right _ fun nested => ?_
          refine .bind_right _ fun _ => ?_
          refine .bind_right _ fun next => ?_
          refine (h _).bind fun condition => ?_
          refine .bind_right _ fun next => ?_
          exact (h _).bind fun body => h _
  | otherwise depth clauses =>
      simp only [step]
      refine .bind_right _ fun result => ?_
      cases result with
      | none => exact .const _
      | some found =>
          refine .bind_right _ fun next => ?_
          refine .bind_right _ fun nested => ?_
          exact (h _).bind_left _
  | block depth =>
      simp only [step]
      exact .bind_right _ fun _ => h _
  | untilBrace depth =>
      simp only [step]
      refine .bind_right _ fun cursor => ?_
      split
      · exact .const _
      · split
        · exact .const _
        · refine (h _).bind fun first => ?_
          exact (h _).bind_left _
  | untilEnd depth =>
      simp only [step]
      refine .bind_right _ fun cursor => ?_
      split
      · exact .const _
      · refine (h _).bind fun first => ?_
        exact (h _).bind_left _

variable (A)

theorem grows_within (call : Call Number α) : Grows fun fuel => A.within fuel call := by
  intro fuel
  induction fuel generalizing α with
  | zero =>
      intro cursor answer h
      cases h
  | succ fuel ih =>
      have hone {β : Type} (call : Call Number β) :
          Approaches (fun more => if more = 0 then A.within fuel call else A.within (fuel + 1) call)
            (A.within (fuel + 1) call) :=
        .of_imp (ih call)
      exact (approaches_step hone call).grows 0

theorem approaches_descend (call : Call Number α) : Approaches (fun fuel => A.within fuel call) (A.descend call) :=
  approaches_limit (A.grows_within call)

/-- The descent is a fixed point of the step. -/
theorem descend_eq (call : Call Number α) : A.descend call = A.step (@A.descend) call :=
  (A.approaches_descend call).tail.unique (approaches_step A.approaches_descend call)

end

end Arithmetic

/-! ### Phrases -/

/-- What can be read on its own, with the type of what is read. -/
inductive Phrase : Type → Type
  | primary : Phrase Expr
  | expr (tier : Tier) : Phrase Expr
  | statement : Phrase Statement
  | block : Phrase (List Statement)

namespace Phrase

variable {α : Type}

/-- The phrase with its root, or the statements of the block, at this depth. -/
noncomputable def descent {Number : Type} (A : Arithmetic Number) (depth : Number) : Phrase α → Descent α
  | primary => A.descend (.primary depth)
  | expr tier => A.descend (.expr depth tier)
  | statement => A.descend (.statement depth)
  | block => A.descend (.block depth)

/-- The rule for the phrase with this much room. -/
def rule : Phrase α → Nat → Rule α
  | primary, 0 => Rule.tooDeep
  | primary, room + 1 => Grammar.primary (Grammar.expr room)
  | expr tier, room => Grammar.expr room tier
  | statement, room => (level room).statement
  | block, room => Grammar.block (level room).statement

end Phrase

end ScriptLang.Grammar
