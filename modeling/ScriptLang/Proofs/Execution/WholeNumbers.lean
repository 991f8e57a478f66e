import Mathlib
import ScriptLang.Execution
import ScriptLang.Proofs.Program.Leaves
/-!
# Arithmetic on whole numbers is exact

An expression of whole numbers, variables, minus signs, sums, differences and products has a value among the integers,
whatever its size. Evaluating it in words of 64 bits gives that value as long as every part of it is held by a word.
The first part that is not, where the operands of a part come before it and the left one first, is reported as an
overflow of its operator.
-/

namespace ScriptLang

/-! ### The exact value -/

/-- A word of 64 bits holds the number. -/
def FitsWord (n : Int) : Prop :=
  -2 ^ 63 ≤ n ∧ n ≤ 2 ^ 63 - 1

instance (n : Int) : Decidable (FitsWord n) :=
  inferInstanceAs (Decidable (_ ∧ _))

/-- The whole number that a value is, and zero for any other value. -/
def Value.whole : Value → Int
  | .int n => n.toInt
  | _ => 0

/-- The result of a sum, a difference or a product among the integers. -/
def Operator.exact : Operator → Int → Int → Int
  | .add, left, right => left + right
  | .subtract, left, right => left - right
  | .multiply, left, right => left * right
  | _, _, _ => 0

namespace Expr

/-- Only whole numbers, variables, minus signs, sums, differences and products occur. -/
def IsWhole : Expr → Prop
  | .literal value => ∃ n, value = .int n
  | .var _ => True
  | .negate operand => operand.IsWhole
  | .binary operator left right =>
    operator ∈ [Operator.add, .subtract, .multiply] ∧ left.IsWhole ∧ right.IsWhole

/-- The value among the integers. -/
def exact (environment : Environment) : Expr → Int
  | .literal value => value.whole
  | .var name => ((environment.get? name).map Value.whole).getD 0
  | .negate operand => -operand.exact environment
  | .binary operator left right => operator.exact (left.exact environment) (right.exact environment)

/-- All parts of an expression, each behind its operands, and those of the left operand first. -/
def parts : Expr → List Expr
  | .literal value => [.literal value]
  | .var name => [.var name]
  | .negate operand => operand.parts ++ [.negate operand]
  | .binary operator left right => left.parts ++ right.parts ++ [.binary operator left right]

def operands : Expr → List Expr
  | .literal _ => []
  | .var _ => []
  | .negate operand => [operand]
  | .binary _ left right => [left, right]

/-- The symbol of the operator that is applied last. -/
def symbol? : Expr → Option String
  | .literal _ => none
  | .var _ => none
  | .negate _ => some "-"
  | .binary operator _ _ => some operator.symbol

/-- The first part that no word holds. -/
def firstOutside? (environment : Environment) (expr : Expr) : Option Expr :=
  expr.parts.find? fun part => ¬FitsWord (part.exact environment)

/-- The environment binds all variables of the expression to whole numbers. -/
def IsBound (environment : Environment) (expr : Expr) : Prop :=
  ∀ name, .name name ∈ expr.leaves → ∃ n, environment.get? name = some (.int n)

theorem self_mem_parts (expr : Expr) : expr ∈ expr.parts := by
  cases expr <;> simp [parts]

end Expr

/-! ### One operation -/

theorem fitsWord_toInt (n : Int64) : FitsWord n.toInt :=
  ⟨n.minValue_le_toInt, n.toInt_le⟩

namespace Value

theorem ofExact_of_fitsWord (symbol : String) {n : Int} (h : FitsWord n) :
    ∃ word : Int64, ofExact symbol n = .ok (.int word) ∧ word.toInt = n := by
  have hword : int64? n = some (Int64.ofInt n) := if_pos h
  refine ⟨Int64.ofInt n, ?_, Int64.toInt_ofInt_of_le h.1 (Int.lt_of_le_sub_one h.2)⟩
  rw [ofExact, hword]

theorem ofExact_of_not_fitsWord (symbol : String) {n : Int} (h : ¬FitsWord n) :
    ofExact symbol n = .error (.overflow symbol) := by
  have hword : int64? n = none := if_neg h
  rw [ofExact, hword]

theorem binary_int {operator : Operator} (h : operator ∈ [Operator.add, .subtract, .multiply]) (left right : Int64) :
    binary operator (.int left) (.int right) =
      ofExact operator.symbol (operator.exact left.toInt right.toInt) := by
  simp only [List.mem_cons, List.not_mem_nil, or_false] at h
  rcases h with rfl | rfl | rfl <;> rfl

end Value

/-! ### Whole expressions -/

/-- The exact value, if words hold all parts of the expression, or the overflow of the first part that none holds. -/
def ExactOrOverflow (environment : Environment) (expr : Expr) (result : Except RuntimeError Value) : Prop :=
  match expr.firstOutside? environment with
  | none => ∃ n : Int64, result = .ok (.int n) ∧ n.toInt = expr.exact environment
  | some part => ∃ symbol, part.symbol? = some symbol ∧ result = .error (.overflow symbol)

namespace Expr

variable {environment : Environment}

/-- A word of its own, where nothing can overflow. -/
theorem exactOrOverflow_word {expr : Expr} {n : Int64} (hparts : expr.parts = [expr])
    (hexact : n.toInt = expr.exact environment) : ExactOrOverflow environment expr (.ok (.int n)) := by
  have hnone : expr.firstOutside? environment = none := by
    rw [firstOutside?, hparts, List.find?_eq_none]
    simp [← hexact, fitsWord_toInt]
  rw [ExactOrOverflow, hnone]
  exact ⟨n, rfl, hexact⟩

/-- An operation whose operands are held by words either is, or overflows itself. -/
theorem exactOrOverflow_operation {expr : Expr} {earlier : List Expr} {symbol : String}
    (hparts : expr.parts = earlier ++ [expr]) (hsymbol : expr.symbol? = some symbol)
    (hearlier : earlier.find? (fun part => ¬FitsWord (part.exact environment)) = none) :
    ExactOrOverflow environment expr (Value.ofExact symbol (expr.exact environment)) := by
  have hfirst : expr.firstOutside? environment = [expr].find? fun part => ¬FitsWord (part.exact environment) := by
    rw [firstOutside?, hparts, List.find?_append, hearlier, Option.none_or]
  rw [ExactOrOverflow, hfirst]
  by_cases hfits : FitsWord (expr.exact environment)
  · rw [List.find?_singleton, if_neg (by simpa using hfits)]
    exact Value.ofExact_of_fitsWord symbol hfits
  · rw [List.find?_singleton, if_pos (by simpa using hfits)]
    exact ⟨symbol, hsymbol, Value.ofExact_of_not_fitsWord symbol hfits⟩

/-- What overflows first in an operand does so in the whole expression. -/
theorem exactOrOverflow_earlier {expr part : Expr} {earlier later : List Expr} {symbol : String}
    (hparts : expr.parts = earlier ++ later) (hsymbol : part.symbol? = some symbol)
    (hearlier : earlier.find? (fun part => ¬FitsWord (part.exact environment)) = some part) :
    ExactOrOverflow environment expr (.error (.overflow symbol)) := by
  have hfirst : expr.firstOutside? environment = some part := by
    rw [firstOutside?, hparts, List.find?_append, hearlier, Option.some_or]
  rw [ExactOrOverflow, hfirst]
  exact ⟨symbol, hsymbol, rfl⟩

theorem exactOrOverflow_negate {operand : Expr}
    (hoperand : ExactOrOverflow environment operand (operand.eval environment)) :
    ExactOrOverflow environment (.negate operand) ((negate operand).eval environment) := by
  rw [ExactOrOverflow] at hoperand
  cases hfirst : operand.firstOutside? environment with
  | none =>
      rw [hfirst] at hoperand
      obtain ⟨n, heval, hexact⟩ := hoperand
      rw [eval, heval]
      show ExactOrOverflow environment _ (Value.ofExact "-" (-n.toInt))
      rw [hexact]
      exact exactOrOverflow_operation rfl rfl hfirst
  | some part =>
      rw [hfirst] at hoperand
      obtain ⟨symbol, hsymbol, heval⟩ := hoperand
      rw [eval, heval]
      exact exactOrOverflow_earlier rfl hsymbol hfirst

theorem exactOrOverflow_binary {operator : Operator} {left right : Expr}
    (hoperator : operator ∈ [Operator.add, .subtract, .multiply])
    (hleft : ExactOrOverflow environment left (left.eval environment))
    (hright : ExactOrOverflow environment right (right.eval environment)) :
    ExactOrOverflow environment (.binary operator left right) ((binary operator left right).eval environment) := by
  rw [ExactOrOverflow] at hleft hright
  cases hfirst : left.firstOutside? environment with
  | some part =>
      rw [hfirst] at hleft
      obtain ⟨symbol, hsymbol, heval⟩ := hleft
      rw [eval, heval]
      exact exactOrOverflow_earlier (List.append_assoc _ _ _) hsymbol hfirst
  | none =>
      rw [hfirst] at hleft
      obtain ⟨a, hevalLeft, hexactLeft⟩ := hleft
      have hearlier : (left.parts ++ right.parts).find? (fun part => ¬FitsWord (part.exact environment)) =
          right.firstOutside? environment := by
        rw [List.find?_append]
        exact congrArg (Option.or · _) hfirst
      rw [eval, hevalLeft]
      cases hsecond : right.firstOutside? environment with
      | some part =>
          rw [hsecond] at hright
          obtain ⟨symbol, hsymbol, heval⟩ := hright
          rw [heval]
          exact exactOrOverflow_earlier rfl hsymbol (hearlier.trans hsecond)
      | none =>
          rw [hsecond] at hright
          obtain ⟨b, hevalRight, hexactRight⟩ := hright
          rw [hevalRight]
          show ExactOrOverflow environment _ (Value.binary operator (.int a) (.int b))
          rw [Value.binary_int hoperator, hexactLeft, hexactRight]
          exact exactOrOverflow_operation rfl rfl (hearlier.trans hsecond)

theorem exactOrOverflow_eval {expr : Expr} (hwhole : expr.IsWhole) (hbound : expr.IsBound environment) :
    ExactOrOverflow environment expr (expr.eval environment) := by
  induction expr with
  | literal value =>
      obtain ⟨n, rfl⟩ := hwhole
      exact exactOrOverflow_word rfl rfl
  | var name =>
      obtain ⟨n, hget⟩ := hbound name List.mem_cons_self
      rw [eval, Environment.get, hget]
      apply exactOrOverflow_word rfl
      rw [exact, hget]
      rfl
  | negate operand ih => exact exactOrOverflow_negate (ih hwhole hbound)
  | binary operator left right ihleft ihright =>
      obtain ⟨hoperator, hwholeLeft, hwholeRight⟩ := hwhole
      apply exactOrOverflow_binary hoperator
      · exact ihleft hwholeLeft fun name hname => hbound name (List.mem_append_left _ hname)
      · exact ihright hwholeRight fun name hname => hbound name (List.mem_append_right _ hname)

/-- What is reported is the operation of that part alone: words hold its operands. -/
theorem fitsWord_of_mem_operands {expr part : Expr} (h : expr.firstOutside? environment = some part) :
    ∀ operand ∈ part.operands, FitsWord (operand.exact environment) := by
  have hfits {operand : Expr} (hnone : operand.firstOutside? environment = none) :
      FitsWord (operand.exact environment) := by
    simpa using List.find?_eq_none.mp hnone operand operand.self_mem_parts
  have hself {whole : Expr} (hfound : [whole].find? (fun part => ¬FitsWord (part.exact environment)) = some part) :
      part = whole :=
    List.mem_singleton.mp (List.mem_of_find?_eq_some hfound)
  induction expr with
  | literal value =>
      obtain rfl := hself h
      simp [operands]
  | var name =>
      obtain rfl := hself h
      simp [operands]
  | negate operand ih =>
      rw [firstOutside?, parts, List.find?_append, Option.or_eq_some_iff] at h
      rcases h with hearlier | ⟨hnone, hlast⟩
      · exact ih hearlier
      · obtain rfl := hself hlast
        simpa [operands] using hfits hnone
  | binary operator left right ihleft ihright =>
      rw [firstOutside?, parts, List.find?_append, List.find?_append, Option.or_eq_some_iff, Option.or_eq_some_iff,
        Option.or_eq_none_iff] at h
      rcases h with (hearlier | ⟨-, hearlier⟩) | ⟨⟨hleft, hright⟩, hlast⟩
      · exact ihleft hearlier
      · exact ihright hearlier
      · obtain rfl := hself hlast
        simpa [operands] using ⟨hfits hleft, hfits hright⟩

end Expr

/-- Arithmetic on whole numbers gives the exact value if a word holds every part of the expression. Otherwise it fails
with an overflow of the first part that none holds, while all parts before it, its own operands among them, are held. -/
theorem Expr.eval_exact_or_overflow {expr : Expr} {environment : Environment} (hwhole : expr.IsWhole)
    (hbound : expr.IsBound environment) :
    ((∀ part ∈ expr.parts, FitsWord (part.exact environment)) →
      ∃ n : Int64, expr.eval environment = .ok (.int n) ∧ n.toInt = expr.exact environment) ∧
    ((¬∀ part ∈ expr.parts, FitsWord (part.exact environment)) →
      ∃ before part after symbol, expr.parts = before ++ part :: after ∧
        (∀ earlier ∈ before, FitsWord (earlier.exact environment)) ∧ ¬FitsWord (part.exact environment) ∧
        (∀ operand ∈ part.operands, FitsWord (operand.exact environment)) ∧
        part.symbol? = some symbol ∧ expr.eval environment = .error (.overflow symbol)) := by
  have heval := exactOrOverflow_eval hwhole hbound
  rw [ExactOrOverflow] at heval
  cases hfirst : expr.firstOutside? environment with
  | none =>
      rw [hfirst] at heval
      have hfits : ∀ part ∈ expr.parts, FitsWord (part.exact environment) := by
        simpa using List.find?_eq_none.mp hfirst
      exact ⟨fun _ => heval, fun houtside => absurd hfits houtside⟩
  | some part =>
      rw [hfirst] at heval
      obtain ⟨symbol, hsymbol, heval⟩ := heval
      obtain ⟨houtside, before, after, hparts, hbefore⟩ := List.find?_eq_some_iff_append.mp hfirst
      simp only [decide_eq_true_eq, Bool.not_eq_true', decide_eq_false_iff_not, not_not] at houtside hbefore
      refine ⟨fun hfits => absurd (hfits part ?_) houtside, fun _ => ?_⟩
      · rw [hparts]
        exact List.mem_append_right _ List.mem_cons_self
      · exact ⟨before, part, after, symbol, hparts, hbefore, houtside, fitsWord_of_mem_operands hfirst, hsymbol, heval⟩

/-- The least word is reached by subtraction and has no negative. A product that overflows before it is reported. -/
theorem Expr.eval_exact_or_overflow_least_word :
    let environment : Environment := ⟨[("x", .int 3037000500)]⟩
    let least : Expr :=
      .binary .subtract (.negate (.literal (.int 9223372036854775807))) (.literal (.int 1))
    let sum : Expr := .binary .add (.binary .multiply (.var "x") (.var "x")) (.negate least)
    (least.IsWhole ∧ least.IsBound environment ∧ (∀ part ∈ least.parts, FitsWord (part.exact environment)) ∧
      ∃ n : Int64, least.eval environment = .ok (.int n) ∧ n.toInt = -2 ^ 63) ∧
    (sum.IsWhole ∧ sum.IsBound environment ∧
      ∃ before part after, sum.parts = before ++ part :: after ∧
        (∀ earlier ∈ before, FitsWord (earlier.exact environment)) ∧ ¬FitsWord (part.exact environment) ∧
        part.symbol? = some "*" ∧ sum.eval environment = .error (.overflow "*")) := by
  intro environment least sum
  have hleast : least.IsWhole := ⟨by simp, ⟨_, rfl⟩, _, rfl⟩
  have hleastBound : least.IsBound environment := by
    simp [Expr.IsBound, least, Expr.leaves]
  have hfits : ∀ part ∈ least.parts, FitsWord (part.exact environment) := by decide
  have hsum : sum.IsWhole := ⟨by simp, ⟨by simp, trivial, trivial⟩, hleast⟩
  have hsumBound : sum.IsBound environment := by
    intro name hname
    have hx : name = "x" := by simpa [sum, least, Expr.leaves] using hname
    subst hx
    exact ⟨3037000500, rfl⟩
  have houtside : ¬∀ part ∈ sum.parts, FitsWord (part.exact environment) := by decide
  obtain ⟨n, heval, hexact⟩ := (Expr.eval_exact_or_overflow hleast hleastBound).1 hfits
  obtain ⟨before, part, after, symbol, hparts, hbefore, hpart, -, hsymbol, herror⟩ :=
    (Expr.eval_exact_or_overflow hsum hsumBound).2 houtside
  have hproduct : symbol = "*" := by
    have hrun : sum.eval environment = .error (.overflow "*") := rfl
    rw [hrun] at herror
    cases herror
    rfl
  subst hproduct
  exact ⟨⟨hleast, hleastBound, hfits, n, heval, hexact⟩, hsum, hsumBound, before, part, after, hparts, hbefore, hpart,
    hsymbol, herror⟩

end ScriptLang
