import ScriptLang.Proofs.Grammar.Unambiguity
/-!
# How deep a program is nested

The tokens of a program that is read have one derivation, and its levels are within the limit, unless an operator
follows parentheses: what stands in these parentheses is one level further down because of the operator, and that level
goes uncounted. Each operator adds to the height of the program, so the limit on the height bounds the levels too.
-/

namespace ScriptLang.Grammar

/-- What is read has one derivation. It keeps to the limit if no operator stands behind parentheses, and exceeds it by
less than the height of the program otherwise. -/
theorem levels_of_ofTokens (tokens : List Token) (result : Program) :
    (Program.ofTokens tokens = .ok result ↔
      FitsStatements levelLimit (withoutComments tokens) result.statements) ∧
    (Program.ofTokens tokens = .ok result → ∃ levels,
      (∀ result' levels',
        DerivesProgram (withoutComments tokens) result' levels' ↔ result' = result ∧ levels' = levels) ∧
      (¬OperatorBehindParens (withoutComments tokens) → levels ≤ levelLimit) ∧
      (levels ≤ levelLimit ∨ levels + 1 < levelLimit + blockHeight result.statements) ∧
      levels + 2 ≤ 2 * levelLimit) := by
  refine ⟨ofTokens_eq_ok_iff_fits, fun hok => ?_⟩
  obtain ⟨levels, hderives, hheight, hdeep⟩ := (fits_of_ofTokens hok).derives
  have hbound : levels ≤ levelLimit ∨ levels + 1 < levelLimit + blockHeight result.statements := by
    by_cases hlevels : levels ≤ levelLimit
    · exact .inl hlevels
    · exact .inr (hdeep (Nat.lt_of_not_le hlevels)).2
  refine ⟨levels, DerivesProgram.iff_eq hderives, ?_, hbound, ?_⟩
  · intro hnone
    by_contra hlevels
    exact hnone (hdeep (Nat.lt_of_not_le hlevels)).1
  · have hlimit : 2 ≤ levelLimit := by decide
    omega

/-! ### Parentheses in an operand -/

/-- A token of which only the kind and the text matter. -/
def tokenOf (kind : Kind) (text : String) : Token :=
  ⟨kind, text, Position.start⟩

/-- The number one in so many pairs of parentheses. -/
def oneInParens : Nat → List Token
  | 0 => [tokenOf .number "1"]
  | pairs + 1 => tokenOf .openParen "(" :: (oneInParens pairs ++ [tokenOf .closeParen ")"])

/-- A statement that prints a sum. -/
def printedSum (left right : List Token) : List Token :=
  tokenOf .printWord "print" :: tokenOf .openParen "(" ::
    (left ++ tokenOf .plus "+" :: right ++ [tokenOf .closeParen ")"])

theorem derives_oneInParens (pairs : Nat) :
    DerivesExpr .unary (oneInParens pairs) (.literal (.int 1)) (pairs + 1) := by
  induction pairs with
  | zero => exact .number rfl rfl
  | succ pairs ih => exact .parens rfl (.single (.single (.single ih))) rfl

theorem derives_printedSum {left right : List Token} {leftExpr rightExpr : Expr} {leftLevels rightLevels : Nat}
    (hleft : DerivesExpr .unary left leftExpr leftLevels) (hright : DerivesExpr .unary right rightExpr rightLevels) :
    DerivesProgram (printedSum left right) ⟨[.print (.binary .add leftExpr rightExpr)]⟩
      (max leftLevels rightLevels + 2) := by
  have hsum : DerivesExpr .comparison (left ++ tokenOf .plus "+" :: right) (.binary .add leftExpr rightExpr) _ :=
    .single (.binary (.single (.single hleft)) (.head _) (.single hright))
  have hstatement : DerivesStatement (printedSum left right) (.print (.binary .add leftExpr rightExpr)) _ :=
    .print rfl rfl hsum rfl
  simpa [DerivesProgram] using DerivesStatements.cons hstatement .nil

theorem fits_printedSum {room : Nat} {left right : List Token} {leftExpr rightExpr : Expr}
    (hleft : FitsExpr (room + 1) .unary left leftExpr) (hright : FitsExpr room .unary right rightExpr)
    (hheight : (Expr.binary .add leftExpr rightExpr).height ≤ room + 1) :
    FitsStatements (room + 2) (printedSum left right) [.print (.binary .add leftExpr rightExpr)] := by
  have hsum : FitsExpr (room + 1) .comparison (left ++ tokenOf .plus "+" :: right) (.binary .add leftExpr rightExpr) :=
    .single (.binary (.single (.single hleft)) (.head _) (.single hright) hheight)
  have hstatement : FitsStatement (room + 2) (printedSum left right) (.print (.binary .add leftExpr rightExpr)) :=
    .print rfl rfl hsum rfl
  simpa using FitsStatements.cons hstatement .nil

theorem withoutComments_printedSum_oneInParens (pairs : Nat) :
    withoutComments (printedSum (oneInParens pairs) (oneInParens 0)) =
      printedSum (oneInParens pairs) (oneInParens 0) := by
  have hone : ∀ token ∈ oneInParens pairs, token.kind ≠ .comment := by
    induction pairs with
    | zero => simp [oneInParens, tokenOf]
    | succ pairs ih => simpa [oneInParens, tokenOf, or_imp, forall_and] using ih
  rw [withoutComments, List.filter_eq_self]
  simpa [printedSum, oneInParens, tokenOf, or_imp, forall_and] using hone

set_option maxRecDepth 10000 in
/-- With as many parentheses as fit without the operator, the left operand reaches one level too far down, and the sum
is read nevertheless. With the operands exchanged it is refused. -/
theorem levels_of_ofTokens_left_operand :
    let tokens := printedSum (oneInParens 126) (oneInParens 0)
    let result : Program := ⟨[.print (.binary .add (.literal (.int 1)) (.literal (.int 1)))]⟩
    Program.ofTokens tokens = .ok result ∧
    (∀ result' levels, DerivesProgram (withoutComments tokens) result' levels ↔
      result' = result ∧ levels = levelLimit + 1) ∧
    Program.ofTokens (printedSum (oneInParens 0) (oneInParens 126)) =
      .error (.nestingTooDeep (tokenOf .number "1")) := by
  intro tokens result
  have htokens : withoutComments tokens = tokens := withoutComments_printedSum_oneInParens 126
  have hderives : DerivesProgram tokens result (levelLimit + 1) :=
    derives_printedSum (derives_oneInParens 126) (derives_oneInParens 0)
  have hfits : FitsStatements levelLimit tokens result.statements :=
    fits_printedSum ((derives_oneInParens 126).fits (Nat.le_refl _)) ((derives_oneInParens 0).fits (by decide))
      (by decide)
  refine ⟨?_, ?_, ?_⟩
  · rw [ofTokens_eq_ok_iff_fits, htokens]
    exact hfits
  · rw [htokens]
    exact hderives.iff_eq
  · rfl

end ScriptLang.Grammar
