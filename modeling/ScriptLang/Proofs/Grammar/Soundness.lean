import ScriptLang.Proofs.Grammar.Fitting
import ScriptLang.Proofs.Grammar.Reading
import ScriptLang.Script
/-!
# What is read fits into the room

Every rule is followed once: the tokens that it has taken fit into the room that it was given. That they derive the
value, and that the value is no higher than the room, follows from there. The left operand of an operator is read with
the room of its parent, and the check that is made once the node is there is just what fitting asks for.
-/

namespace ScriptLang.Grammar

open Rule

/-! ### Expressions -/

theorem reads_number (token : Token) :
    Reads (number token) fun taken value => taken = [] ∧ numberOf? token.text = some value := by
  rw [number]
  split
  · rename_i value hvalue
    exact reads_pure ⟨rfl, hvalue⟩
  · exact reads_throw _

section

variable {room : Nat} {below : Tier → Rule Expr} (hbelow : ∀ tier, Reads (below tier) (FitsExpr room tier))

include hbelow

theorem reads_primary : Reads (primary below) (FitsExpr (room + 1) .unary) := by
  have hroom := Nat.succ_pos room
  refine reads_next.bind ?_
  rintro _ token rfl
  split
  · rename_i hkind
    refine (reads_number token).bind ?_
    rintro _ value ⟨rfl, hvalue⟩
    exact reads_pure (.token hroom (.number hkind hvalue))
  · rename_i hkind
    exact reads_pure (.token hroom (.string hkind))
  · rename_i hkind
    exact reads_pure (.token hroom (.boolean hkind))
  · rename_i hkind
    exact reads_pure (.token hroom (.null hkind))
  · rename_i hkind
    exact reads_pure (.token hroom (.var hkind))
  · rename_i hkind
    refine (hbelow .comparison).bind ?_
    intro inside expr hinside
    refine (reads_expect .closeParen).bind ?_
    rintro _ closing ⟨rfl, hclosing⟩
    exact reads_pure (by simpa using FitsExpr.parens hkind hinside hclosing)
  · exact reads_throw _

theorem reads_unary : Reads (unary below) (FitsExpr (room + 1) .unary) := by
  refine (reads_takeIf _).bind ?_
  rintro taken result (⟨rfl, rfl⟩ | ⟨found, token, rfl, rfl, hknown⟩)
  · exact reads_primary hbelow
  · have hminus : token.kind = .minus := by
      by_contra hne
      simp [hne] at hknown
    refine (hbelow .unary).bind ?_
    intro tokens operand hoperand
    exact reads_pure (by simpa using FitsExpr.negate hminus hoperand)

-- The invariant of the loop: what was read so far fits as the left operand.
theorem reads_chain (tier : Tier) (steps : Nat) {tokens : List Token} {left : Expr}
    (hleft : FitsExpr (room + 1) tier tokens left) :
    Reads (chain (room + 1) tier (below tier.tighter) steps left) fun more expr =>
      FitsExpr (room + 1) tier (tokens ++ more) expr := by
  induction steps generalizing tokens left with
  | zero =>
      refine (reads_takeIf _).bind ?_
      rintro taken result (⟨rfl, rfl⟩ | ⟨operator, token, rfl, rfl, _⟩)
      · exact reads_pure (by simpa using hleft)
      · exact (hbelow tier.tighter).bind fun _ _ _ => reads_throw _
  | succ steps ih =>
      refine (reads_takeIf _).bind ?_
      rintro taken result (⟨rfl, rfl⟩ | ⟨operator, token, rfl, rfl, hoperator⟩)
      · exact reads_pure (by simpa using hleft)
      · refine (hbelow tier.tighter).bind ?_
        intro rightTokens right hright
        dsimp only
        split
        · rename_i hheight
          simpa using ih (hleft.binary (Tier.operator?_eq_some_iff.mp hoperator) hright hheight)
        · exact reads_throw _

theorem reads_tiers (tier : Tier) : Reads (tiers (room + 1) below tier) (FitsExpr (room + 1) tier) := by
  have hloop (tier : Tier) {first : Rule Expr} (hfirst : Reads first (FitsExpr (room + 1) tier.tighter)) :
      Reads (first >>= chain (room + 1) tier (below tier.tighter) (room + 1)) (FitsExpr (room + 1) tier) :=
    hfirst.bind fun _ _ hread => reads_chain hbelow tier (room + 1) hread.single
  have hproduct : Reads (product (room + 1) below) (FitsExpr (room + 1) .product) :=
    hloop .product (reads_unary hbelow)
  have hsum : Reads (sum (room + 1) below) (FitsExpr (room + 1) .sum) := hloop .sum hproduct
  cases tier with
  | unary => exact reads_unary hbelow
  | product => exact hproduct
  | sum => exact hsum
  | comparison => exact hloop .comparison hsum

end

theorem reads_expr_fits (room : Nat) (tier : Tier) : Reads (expr room tier) (FitsExpr room tier) := by
  induction room generalizing tier with
  | zero => exact reads_tooDeep
  | succ room ih => exact reads_tiers ih tier

/-! ### Statements -/

theorem reads_loopCount :
    Reads loopCount fun taken count => ∃ token, taken = [token] ∧ token.kind = .number ∧
      numberOf? token.text = some (.int count) := by
  refine (reads_expect .number).bind ?_
  rintro _ token ⟨rfl, hkind⟩
  refine (reads_number token).bind ?_
  rintro _ value ⟨rfl, hvalue⟩
  split
  · rename_i count
    exact reads_pure ⟨token, rfl, hkind, hvalue⟩
  · exact reads_throw _

theorem reads_statementsWithin {room : Nat} {item : Rule Statement} (hitem : Reads item (FitsStatement room))
    (bound : Nat) : Reads (statementsWithin item bound) (FitsStatements room) := by
  induction bound with
  | zero => exact reads_pure .nil
  | succ bound ih =>
      refine reads_get.bind ?_
      rintro _ cursor rfl
      split
      · exact reads_pure .nil
      · refine hitem.bind ?_
        intro firstTokens first hfirst
        refine ih.bind ?_
        intro tokens body hbody
        exact reads_pure (by simpa using FitsStatements.cons hfirst hbody)

theorem reads_statements {room : Nat} {item : Rule Statement} (hitem : Reads item (FitsStatement room)) :
    Reads (statements item) (FitsStatements room) := by
  refine reads_get.bind ?_
  rintro _ cursor rfl
  exact reads_statementsWithin hitem _

theorem reads_block {room : Nat} {item : Rule Statement} (hitem : Reads item (FitsStatement room)) :
    Reads (block item) (FitsBlock room) := by
  refine (reads_expect .openBrace).bind ?_
  rintro _ opening ⟨rfl, hopening⟩
  refine (reads_statements hitem).bind ?_
  intro tokens body hbody
  refine (reads_expect .closeBrace).bind ?_
  rintro _ closing ⟨rfl, hclosing⟩
  exact reads_pure (by simpa using FitsBlock.intro hopening hbody hclosing)

section

variable {room : Nat} {below : Level} (hstatement : Reads below.statement (FitsStatement room))
  (hconditional : ∀ keyword, Reads (below.conditional keyword) (FitsConditional room))

include hstatement hconditional

theorem reads_conditional : Reads (conditional room below) (FitsConditional (room + 1)) := by
  refine (reads_expr_fits room .comparison).bind ?_
  intro conditionTokens condition hcondition
  refine (reads_block hstatement).bind ?_
  intro bodyTokens body hbody
  refine (reads_takeIf _).bind ?_
  rintro taken result (⟨rfl, rfl⟩ | ⟨found, token, rfl, rfl, hknown⟩)
  · exact reads_pure (by simpa using FitsConditional.intro hcondition hbody .absent)
  · obtain ⟨hkind, rfl⟩ : (token.kind = .elseifWord ∨ token.kind = .elseWord) ∧ token.kind = found := by
      simpa using hknown
    split
    · rename_i heq
      cases heq
    · rename_i keyword heq
      obtain ⟨helseif, rfl⟩ : token.kind = .elseifWord ∧ token = keyword := by simpa using heq
      refine (hconditional token).bind ?_
      intro tokens statement hfits
      exact reads_pure (by simpa using FitsConditional.intro hcondition hbody (.elseIf helseif hfits))
    · rename_i found hne heq
      cases heq
      have helse : token.kind = .elseWord := by
        refine hkind.resolve_left fun helseif => ?_
        exact hne token (by rw [helseif])
      refine (reads_block hstatement).bind ?_
      intro tokens alternative hfits
      exact reads_pure (by simpa using FitsConditional.intro hcondition hbody (.elseBlock helse hfits))

theorem reads_afterFirst (first : Token) :
    Reads (afterFirst room below first) fun taken => FitsStatement (room + 1) (first :: taken) := by
  rw [afterFirst]
  split
  · rename_i hname
    refine (reads_expect .assign).bind ?_
    rintro _ equals ⟨rfl, hequals⟩
    refine (reads_expr_fits room .comparison).bind ?_
    intro tokens value hvalue
    exact reads_pure (by simpa using FitsStatement.assign hname hequals hvalue)
  · rename_i hkeyword
    refine (reads_expect .openParen).bind ?_
    rintro _ opening ⟨rfl, hopening⟩
    refine (reads_expr_fits room .comparison).bind ?_
    intro tokens value hvalue
    refine (reads_expect .closeParen).bind ?_
    rintro _ closing ⟨rfl, hclosing⟩
    exact reads_pure (by simpa using FitsStatement.print hkeyword hopening hvalue hclosing)
  · rename_i hkeyword
    refine (reads_conditional hstatement hconditional).mono ?_
    intro tokens statement hfits
    exact .ifElse hkeyword hfits
  · rename_i hkeyword
    refine (reads_expr_fits room .comparison).bind ?_
    intro conditionTokens condition hcondition
    refine (reads_block hstatement).bind ?_
    intro bodyTokens body hbody
    exact reads_pure (by simpa using FitsStatement.whileLoop hkeyword hcondition hbody)
  · rename_i hkeyword
    refine (reads_expect .identifier).bind ?_
    rintro _ name ⟨rfl, hname⟩
    refine (reads_expect .inWord).bind ?_
    rintro _ inside ⟨rfl, hinside⟩
    refine (reads_expect .rangeWord).bind ?_
    rintro _ range ⟨rfl, hrange⟩
    refine (reads_expect .openParen).bind ?_
    rintro _ opening ⟨rfl, hopening⟩
    refine reads_loopCount.bind ?_
    rintro _ count ⟨number, rfl, hnumber, hcount⟩
    refine (reads_expect .closeParen).bind ?_
    rintro _ closing ⟨rfl, hclosing⟩
    refine (reads_block hstatement).bind ?_
    intro bodyTokens body hbody
    refine reads_pure ?_
    simpa using FitsStatement.forRange hkeyword hname hinside hrange hopening hnumber hcount hclosing hbody
  · exact reads_throw _

theorem reads_statement : Reads (statement room below) (FitsStatement (room + 1)) := by
  refine reads_next.bind ?_
  rintro _ first rfl
  refine (reads_afterFirst hstatement hconditional first).bind ?_
  intro taken result hread
  refine (reads_close first).bind ?_
  rintro _ _ rfl
  exact reads_pure (by simpa using hread)

end

theorem reads_level_fits (room : Nat) :
    Reads (level room).statement (FitsStatement room) ∧
      ∀ keyword, Reads ((level room).conditional keyword) (FitsConditional room) := by
  induction room with
  | zero => exact ⟨reads_tooDeep, fun _ => reads_throw _⟩
  | succ room ih => exact ⟨reads_statement ih.1 ih.2, fun _ => reads_conditional ih.1 ih.2⟩

/-! ### Programs -/

theorem fits_of_program {cursor cursor' : Cursor} {result : Program} (h : program cursor = .ok result cursor') :
    FitsStatements levelLimit cursor.rest result.statements := by
  obtain ⟨body, between, hbody, hend⟩ := bind_eq_ok.mp h
  obtain ⟨⟨⟩, _, hatEnd, hresult⟩ := bind_eq_ok.mp hend
  obtain ⟨hrest, rfl⟩ := atEnd_eq_ok.mp hatEnd
  cases hresult
  obtain ⟨taken, htaken, hread⟩ := reads_statements (reads_level_fits (roomAt 1)).1 hbody
  rw [htaken, hrest, List.append_nil]
  exact hread

theorem fits_of_ofTokens {tokens : List Token} {result : Program} (h : Program.ofTokens tokens = .ok result) :
    FitsStatements levelLimit (withoutComments tokens) result.statements := by
  rw [Program.ofTokens, Program.readTokens] at h
  split at h
  · rename_i hprogram
    cases h
    exact fits_of_program hprogram
  · cases h

/-! ### Derivations and heights -/

/-- What an expression rule has read. -/
def ExprRead (room : Nat) (tier : Tier) (taken : List Token) (expr : Expr) : Prop :=
  (∃ levels, DerivesExpr tier taken expr levels) ∧ expr.height ≤ room

/-- What a statement rule has read. -/
def StatementRead (room : Nat) (taken : List Token) (statement : Statement) : Prop :=
  (∃ levels, DerivesStatement taken statement levels) ∧ statement.height ≤ room

def ConditionalRead (room : Nat) (taken : List Token) (statement : Statement) : Prop :=
  (∃ levels, DerivesConditional taken statement levels) ∧ statement.height ≤ room

def StatementsRead (room : Nat) (taken : List Token) (body : List Statement) : Prop :=
  (∃ levels, DerivesStatements taken body levels) ∧ blockHeight body ≤ room

theorem reads_expr (room : Nat) (tier : Tier) : Reads (expr room tier) (ExprRead room tier) := by
  apply (reads_expr_fits room tier).mono
  intro taken expr hfits
  obtain ⟨levels, hderives, hextent⟩ := hfits.derives
  exact ⟨⟨levels, hderives⟩, hextent.height_le⟩

theorem reads_level (room : Nat) :
    Reads (level room).statement (StatementRead room) ∧
      ∀ keyword, Reads ((level room).conditional keyword) (ConditionalRead room) := by
  refine ⟨(reads_level_fits room).1.mono ?_, fun keyword => ((reads_level_fits room).2 keyword).mono ?_⟩
  · intro taken statement hfits
    obtain ⟨levels, hderives, hextent⟩ := hfits.derives
    exact ⟨⟨levels, hderives⟩, hextent.height_le⟩
  · intro taken statement hfits
    obtain ⟨levels, hderives, hextent⟩ := hfits.derives
    exact ⟨⟨levels, hderives⟩, hextent.height_le⟩

theorem statementsRead_of_ofTokens {tokens : List Token} {result : Program}
    (h : Program.ofTokens tokens = .ok result) :
    StatementsRead levelLimit (withoutComments tokens) result.statements := by
  obtain ⟨levels, hderives, hextent⟩ := (fits_of_ofTokens h).derives
  exact ⟨⟨levels, hderives⟩, hextent.height_le⟩

/-- No way down a program that was read has more nodes than there are levels, and a rule that starts at some
depth reads nothing that reaches below the last level. -/
theorem depth_add_height_le_levelLimit :
    (∀ tokens result, Program.ofTokens tokens = .ok result → ∀ statement ∈ result.statements,
      ∀ path, (Node.ofStatement statement).IsPath path → path.length ≤ levelLimit) ∧
    (∀ depth tier cursor result cursor', expr (roomAt depth) tier cursor = .ok result cursor' →
      depth + result.height - 1 ≤ levelLimit) ∧
    (∀ depth cursor result cursor', (level (roomAt depth)).statement cursor = .ok result cursor' →
      depth + result.height - 1 ≤ levelLimit) := by
  refine ⟨?_, ?_, ?_⟩
  · intro tokens result h statement hmem path hpath
    have hheight := blockHeight_le_iff.mp (statementsRead_of_ofTokens h).2 statement hmem
    exact hpath.length_le_height.trans hheight
  · intro depth tier cursor result cursor' h
    obtain ⟨_, _, _, hheight⟩ := reads_expr (roomAt depth) tier h
    have hpos := result.height_pos
    rw [roomAt] at hheight
    omega
  · intro depth cursor result cursor' h
    obtain ⟨_, _, _, hheight⟩ := (reads_level (roomAt depth)).1 h
    have hpos := result.height_pos
    rw [roomAt] at hheight
    omega

end ScriptLang.Grammar
