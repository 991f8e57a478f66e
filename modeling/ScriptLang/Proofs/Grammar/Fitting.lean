import ScriptLang.Proofs.Grammar.Derivation
import ScriptLang.Proofs.Program.Height
/-!
# What fits into the room

The grammar once more, as the rules keep to the limit. A phrase is given the room that is left for it, and gives one
level less to what it contains. This is how levels are counted too, with one exception. The left operand of an
operator is read before the operator is seen, so it has all the room that the operator has itself; when the operator
is there, the node is measured by its height, which parentheses do not add to.

So a derivation that has no more levels than there is room fits into it, and what fits is derived and is no higher
than the room, but it can have more levels.
-/

namespace ScriptLang.Grammar

/-- The tokens are an expression of the tier for which there is this much room. -/
inductive FitsExpr : Nat → Tier → List Token → Expr → Prop
  | token {room : Nat} {token : Token} {expr : Expr} (hroom : 0 < room)
      (hexpr : DerivesExpr .unary [token] expr 1) : FitsExpr room .unary [token] expr
  | parens {room : Nat} {opening closing : Token} {inside : List Token} {expr : Expr}
      (hopening : opening.kind = .openParen) (hinside : FitsExpr room .comparison inside expr)
      (hclosing : closing.kind = .closeParen) :
      FitsExpr (room + 1) .unary (opening :: (inside ++ [closing])) expr
  | negate {room : Nat} {minus : Token} {tokens : List Token} {operand : Expr} (hminus : minus.kind = .minus)
      (hoperand : FitsExpr room .unary tokens operand) :
      FitsExpr (room + 1) .unary (minus :: tokens) (.negate operand)
  | binary {room : Nat} {tier : Tier} {operator : Operator} {token : Token} {leftTokens rightTokens : List Token}
      {left right : Expr} (hleft : FitsExpr (room + 1) tier leftTokens left)
      (hoperator : (token.kind, operator) ∈ tier.operators)
      (hright : FitsExpr room tier.tighter rightTokens right)
      (hheight : (Expr.binary operator left right).height ≤ room + 1) :
      FitsExpr (room + 1) tier (leftTokens ++ token :: rightTokens) (.binary operator left right)
  | single {room : Nat} {tier : Tier} {tokens : List Token} {expr : Expr}
      (hexpr : FitsExpr room tier.tighter tokens expr) : FitsExpr room tier tokens expr

mutual

inductive FitsStatement : Nat → List Token → Statement → Prop
  | assign {room : Nat} {name equals : Token} {tokens : List Token} {value : Expr} (hname : name.kind = .identifier)
      (hequals : equals.kind = .assign) (hvalue : FitsExpr room .comparison tokens value) :
      FitsStatement (room + 1) (name :: equals :: tokens) (.assign name.text value)
  | print {room : Nat} {keyword opening closing : Token} {tokens : List Token} {value : Expr}
      (hkeyword : keyword.kind = .printWord) (hopening : opening.kind = .openParen)
      (hvalue : FitsExpr room .comparison tokens value) (hclosing : closing.kind = .closeParen) :
      FitsStatement (room + 1) (keyword :: opening :: (tokens ++ [closing])) (.print value)
  | ifElse {room : Nat} {keyword : Token} {tokens : List Token} {statement : Statement}
      (hkeyword : keyword.kind = .ifWord) (hconditional : FitsConditional room tokens statement) :
      FitsStatement room (keyword :: tokens) statement
  | whileLoop {room : Nat} {keyword : Token} {conditionTokens bodyTokens : List Token} {condition : Expr}
      {body : List Statement} (hkeyword : keyword.kind = .whileWord)
      (hcondition : FitsExpr room .comparison conditionTokens condition) (hbody : FitsBlock room bodyTokens body) :
      FitsStatement (room + 1) (keyword :: (conditionTokens ++ bodyTokens)) (.whileLoop condition body)
  | forRange {room : Nat} {keyword name inside range opening number closing : Token} {bodyTokens : List Token}
      {count : Int64} {body : List Statement} (hkeyword : keyword.kind = .forWord)
      (hname : name.kind = .identifier) (hinside : inside.kind = .inWord) (hrange : range.kind = .rangeWord)
      (hopening : opening.kind = .openParen) (hnumber : number.kind = .number)
      (hcount : numberOf? number.text = some (.int count)) (hclosing : closing.kind = .closeParen)
      (hbody : FitsBlock room bodyTokens body) :
      FitsStatement (room + 1)
        (keyword :: name :: inside :: range :: opening :: number :: closing :: bodyTokens)
        (.forRange name.text count body)

inductive FitsConditional : Nat → List Token → Statement → Prop
  | intro {room : Nat} {conditionTokens bodyTokens alternativeTokens : List Token} {condition : Expr}
      {body : List Statement} {alternative : Option (List Statement)}
      (hcondition : FitsExpr room .comparison conditionTokens condition) (hbody : FitsBlock room bodyTokens body)
      (halternative : FitsAlternative room alternativeTokens alternative) :
      FitsConditional (room + 1) (conditionTokens ++ (bodyTokens ++ alternativeTokens))
        (.ifElse condition body alternative)

inductive FitsAlternative : Nat → List Token → Option (List Statement) → Prop
  | absent {room : Nat} : FitsAlternative room [] none
  | elseIf {room : Nat} {keyword : Token} {tokens : List Token} {statement : Statement}
      (hkeyword : keyword.kind = .elseifWord) (hconditional : FitsConditional room tokens statement) :
      FitsAlternative room (keyword :: tokens) (some [statement])
  | elseBlock {room : Nat} {keyword : Token} {tokens : List Token} {body : List Statement}
      (hkeyword : keyword.kind = .elseWord) (hbody : FitsBlock room tokens body) :
      FitsAlternative room (keyword :: tokens) (some body)

inductive FitsBlock : Nat → List Token → List Statement → Prop
  | intro {room : Nat} {opening closing : Token} {tokens : List Token} {body : List Statement}
      (hopening : opening.kind = .openBrace) (hbody : FitsStatements room tokens body)
      (hclosing : closing.kind = .closeBrace) : FitsBlock room (opening :: (tokens ++ [closing])) body

inductive FitsStatements : Nat → List Token → List Statement → Prop
  | nil {room : Nat} : FitsStatements room [] []
  | cons {room : Nat} {firstTokens tokens : List Token} {first : Statement} {statements : List Statement}
      (hfirst : FitsStatement room firstTokens first) (hstatements : FitsStatements room tokens statements) :
      FitsStatements room (firstTokens ++ tokens) (first :: statements)

end

theorem FitsExpr.room_pos {room : Nat} {tier : Tier} {tokens : List Token} {expr : Expr}
    (h : FitsExpr room tier tokens expr) : 0 < room := by
  induction h with
  | token hroom => exact hroom
  | single _ ih => exact ih
  | _ => omega

theorem FitsConditional.room_pos {room : Nat} {tokens : List Token} {statement : Statement}
    (h : FitsConditional room tokens statement) : 0 < room := by
  cases h
  omega

/-! ### A derivation fits if it keeps to the room -/

theorem DerivesExpr.fits {tier : Tier} {tokens : List Token} {expr : Expr} {levels room : Nat}
    (h : DerivesExpr tier tokens expr levels) (hroom : levels ≤ room) : FitsExpr room tier tokens expr := by
  induction h generalizing room with
  | number hkind hvalue => exact .token hroom (.number hkind hvalue)
  | string hkind => exact .token hroom (.string hkind)
  | boolean hkind => exact .token hroom (.boolean hkind)
  | null hkind => exact .token hroom (.null hkind)
  | var hkind => exact .token hroom (.var hkind)
  | parens hopening _ hclosing ih =>
      obtain ⟨room, rfl⟩ : ∃ below, room = below + 1 := ⟨room - 1, by omega⟩
      exact .parens hopening (ih (by omega)) hclosing
  | negate hminus _ ih =>
      obtain ⟨room, rfl⟩ : ∃ below, room = below + 1 := ⟨room - 1, by omega⟩
      exact .negate hminus (ih (by omega))
  | binary hleft hoperator hright ihleft ihright =>
      have hheight := (hleft.binary hoperator hright).height_le_levels
      obtain ⟨room, rfl⟩ : ∃ below, room = below + 1 := ⟨room - 1, by omega⟩
      exact .binary (ihleft (by omega)) hoperator (ihright (by omega)) (by omega)
  | single _ ih => exact .single (ih hroom)

mutual

theorem DerivesStatement.fits {tokens : List Token} {statement : Statement} {levels room : Nat}
    (h : DerivesStatement tokens statement levels) (hroom : levels ≤ room) :
    FitsStatement room tokens statement := by
  have hpos := h.levels_pos
  obtain ⟨room, rfl⟩ : ∃ below, room = below + 1 := ⟨room - 1, by omega⟩
  match h with
  | .assign hname hequals hvalue => exact .assign hname hequals (hvalue.fits (by omega))
  | .print hkeyword hopening hvalue hclosing => exact .print hkeyword hopening (hvalue.fits (by omega)) hclosing
  | .ifElse hkeyword hconditional => exact .ifElse hkeyword (hconditional.fits hroom)
  | .whileLoop hkeyword hcondition hbody =>
      exact .whileLoop hkeyword (hcondition.fits (by omega)) (hbody.fits (by omega))
  | .forRange hkeyword hname hinside hrange hopening hnumber hcount hclosing hbody =>
      exact .forRange hkeyword hname hinside hrange hopening hnumber hcount hclosing (hbody.fits (by omega))

theorem DerivesConditional.fits {tokens : List Token} {statement : Statement} {levels room : Nat}
    (h : DerivesConditional tokens statement levels) (hroom : levels ≤ room) :
    FitsConditional room tokens statement := by
  have hpos := h.levels_pos
  obtain ⟨room, rfl⟩ : ∃ below, room = below + 1 := ⟨room - 1, by omega⟩
  match h with
  | .intro hcondition hbody halternative =>
      exact .intro (hcondition.fits (by omega)) (hbody.fits (by omega)) (halternative.fits (by omega))

theorem DerivesAlternative.fits {tokens : List Token} {alternative : Option (List Statement)} {levels room : Nat}
    (h : DerivesAlternative tokens alternative levels) (hroom : levels ≤ room) :
    FitsAlternative room tokens alternative := by
  match h with
  | .absent => exact .absent
  | .elseIf hkeyword hconditional => exact .elseIf hkeyword (hconditional.fits hroom)
  | .elseBlock hkeyword hbody => exact .elseBlock hkeyword (hbody.fits hroom)

theorem DerivesBlock.fits {tokens : List Token} {body : List Statement} {levels room : Nat}
    (h : DerivesBlock tokens body levels) (hroom : levels ≤ room) : FitsBlock room tokens body := by
  match h with
  | .intro hopening hbody hclosing => exact .intro hopening (hbody.fits hroom) hclosing

theorem DerivesStatements.fits {tokens : List Token} {body : List Statement} {levels room : Nat}
    (h : DerivesStatements tokens body levels) (hroom : levels ≤ room) : FitsStatements room tokens body := by
  match h with
  | .nil => exact .nil
  | .cons hfirst hstatements => exact .cons (hfirst.fits (by omega)) (hstatements.fits (by omega))

end

/-! ### What fits is derived

It can have more levels than there is room only if parentheses stand in a left operand, and then some closing
parenthesis is followed by an operator. -/

/-- An operator stands directly behind a closing parenthesis. -/
def OperatorBehindParens (tokens : List Token) : Prop :=
  ∃ closing token, [closing, token] <:+: tokens ∧ closing.kind = .closeParen ∧
    ∃ tier operator, (token.kind, operator) ∈ Tier.operators tier

theorem OperatorBehindParens.within {tokens more : List Token} (h : OperatorBehindParens tokens)
    (hpart : tokens <:+: more) : OperatorBehindParens more := by
  obtain ⟨closing, token, hpair, hkinds⟩ := h
  exact ⟨closing, token, hpair.trans hpart, hkinds⟩

/-- The tokens end with a closing parenthesis. -/
def EndsWithParens (tokens : List Token) : Prop :=
  ∃ front closing, tokens = front ++ [closing] ∧ closing.kind = .closeParen

theorem operatorBehindParens_append {tier : Tier} {tokens : List Token} {token : Token} {operator : Operator}
    (h : EndsWithParens tokens ∨ OperatorBehindParens tokens) (hoperator : (token.kind, operator) ∈ tier.operators)
    (rest : List Token) : OperatorBehindParens (tokens ++ token :: rest) := by
  rcases h with ⟨front, closing, rfl, hclosing⟩ | hbehind
  · exact ⟨closing, token, ⟨front, rest, by simp⟩, hclosing, tier, operator, hoperator⟩
  · exact hbehind.within (List.prefix_append _ _).isInfix

/-- Without parentheses every level has a node. -/
theorem DerivesExpr.endsWithParens_or_operatorBehindParens {tier : Tier} {tokens : List Token} {expr : Expr}
    {levels : Nat} (h : DerivesExpr tier tokens expr levels) (hlevels : expr.height < levels) :
    EndsWithParens tokens ∨ OperatorBehindParens tokens := by
  induction h with
  | number | string | boolean | null | var => exact absurd hlevels (Nat.lt_irrefl 1)
  | @parens opening closing inside _ _ _ _ hclosing _ => exact .inl ⟨opening :: inside, closing, rfl, hclosing⟩
  | @negate minus tokens _ _ _ _ ih =>
      rcases ih (Nat.lt_of_succ_lt_succ hlevels) with ⟨front, closing, rfl, hclosing⟩ | hbehind
      · exact .inl ⟨minus :: front, closing, rfl, hclosing⟩
      · exact .inr (hbehind.within (List.suffix_cons minus tokens).isInfix)
  | @binary tier operator token leftTokens rightTokens left right leftLevels rightLevels _ hoperator _ ihleft ihright =>
      simp only [Expr.height] at hlevels
      by_cases hleft : left.height < leftLevels
      · exact .inr (operatorBehindParens_append (ihleft hleft) hoperator rightTokens)
      · rcases ihright (by omega) with ⟨front, closing, rfl, hclosing⟩ | hbehind
        · exact .inl ⟨leftTokens ++ token :: front, closing, by simp, hclosing⟩
        · exact .inr (hbehind.within ((List.suffix_cons token _).trans (List.suffix_append _ _)).isInfix)
  | single _ ih => exact ih hlevels

/-- How far down something may reach that fits into the room. More levels than room come from parentheses alone, and
a statement leaves one of them over. -/
structure Extent (slack room : Nat) (tokens : List Token) (height levels : Nat) : Prop where
  height_le : height ≤ room
  deep : room < levels → OperatorBehindParens tokens ∧ levels + slack < room + height

theorem FitsExpr.derives {room : Nat} {tier : Tier} {tokens : List Token} {expr : Expr}
    (h : FitsExpr room tier tokens expr) :
    ∃ levels, DerivesExpr tier tokens expr levels ∧ Extent 0 room tokens expr.height levels := by
  induction h with
  | token hroom hexpr =>
      have hheight := hexpr.height_le_levels
      exact ⟨1, hexpr, by omega, fun hdeep => absurd hdeep (by omega)⟩
  | @parens room opening closing inside expr hopening _ hclosing ih =>
      obtain ⟨levels, hinside, hheight, hdeep⟩ := ih
      refine ⟨levels + 1, hinside.parens hopening hclosing, by omega, fun hlevels => ?_⟩
      obtain ⟨hbehind, hbound⟩ := hdeep (by omega)
      exact ⟨hbehind.within ⟨[opening], [closing], rfl⟩, by omega⟩
  | @negate room minus tokens operand hminus _ ih =>
      obtain ⟨levels, hoperand, hheight, hdeep⟩ := ih
      refine ⟨levels + 1, hoperand.negate hminus, Nat.succ_le_succ hheight, fun hlevels => ?_⟩
      obtain ⟨hbehind, hbound⟩ := hdeep (by omega)
      refine ⟨hbehind.within (List.suffix_cons minus tokens).isInfix, ?_⟩
      simp only [Expr.height]
      omega
  | @binary room tier operator token leftTokens rightTokens left right _ hoperator _ hheight ihleft ihright =>
      obtain ⟨leftLevels, hleft, _, hleftDeep⟩ := ihleft
      obtain ⟨rightLevels, hright, _, hrightDeep⟩ := ihright
      refine ⟨_, hleft.binary hoperator hright, hheight, fun hlevels => ?_⟩
      simp only [Expr.height] at hheight ⊢
      by_cases hcase : rightLevels ≤ leftLevels
      · -- The height of the left operand was checked, so all levels below the room are those of parentheses.
        have hparens := hleft.endsWithParens_or_operatorBehindParens (by omega)
        refine ⟨operatorBehindParens_append hparens hoperator rightTokens, ?_⟩
        have hpos := left.height_pos
        by_cases hbelow : room + 1 < leftLevels
        · have hbound := (hleftDeep hbelow).2
          omega
        · omega
      · obtain ⟨hbehind, hbound⟩ := hrightDeep (by omega)
        refine ⟨hbehind.within ((List.suffix_cons token _).trans (List.suffix_append _ _)).isInfix, ?_⟩
        omega
  | single _ ih =>
      obtain ⟨levels, hexpr, hextent⟩ := ih
      exact ⟨levels, hexpr.single, hextent⟩

namespace Extent

variable {slack room height height' levels levels' : Nat} {tokens tokens' more : List Token}

theorem within (h : Extent slack room tokens height levels) (hpart : tokens <:+: more) :
    Extent slack room more height levels where
  height_le := h.height_le
  deep hlevels := ⟨(h.deep hlevels).1.within hpart, (h.deep hlevels).2⟩

theorem both (h : Extent slack room tokens height levels) (h' : Extent slack room tokens' height' levels') :
    Extent slack room (tokens ++ tokens') (max height height') (max levels levels') where
  height_le := Nat.max_le.mpr ⟨h.height_le, h'.height_le⟩
  deep hlevels := by
    by_cases hcase : levels' ≤ levels
    · obtain ⟨hbehind, hbound⟩ := h.deep (by omega)
      exact ⟨hbehind.within (List.prefix_append _ _).isInfix, by omega⟩
    · obtain ⟨hbehind, hbound⟩ := h'.deep (by omega)
      exact ⟨hbehind.within (List.suffix_append _ _).isInfix, by omega⟩

theorem relax (h : Extent 1 room tokens height levels) : Extent 0 room tokens height levels where
  height_le := h.height_le
  deep hlevels := ⟨(h.deep hlevels).1, Nat.lt_of_succ_lt (h.deep hlevels).2⟩

/-- A statement sits one level above what it contains, and is one higher. -/
theorem above (h : Extent 0 room tokens height levels) (hpart : tokens <:+: more) :
    Extent 1 (room + 1) more (height + 1) (levels + 1) where
  height_le := Nat.succ_le_succ h.height_le
  deep hlevels := by
    obtain ⟨hbehind, hbound⟩ := h.deep (Nat.lt_of_succ_lt_succ hlevels)
    exact ⟨hbehind.within hpart, by omega⟩

theorem nothing (slack room : Nat) : Extent slack room [] 0 0 :=
  ⟨Nat.zero_le room, fun hlevels => absurd hlevels (Nat.not_lt_zero room)⟩

end Extent

mutual

theorem FitsStatement.derives {room : Nat} {tokens : List Token} {statement : Statement}
    (h : FitsStatement room tokens statement) :
    ∃ levels, DerivesStatement tokens statement levels ∧ Extent 1 room tokens statement.height levels := by
  match h with
  | .assign hname hequals hvalue =>
      obtain ⟨levels, hvalue, hextent⟩ := hvalue.derives
      exact ⟨_, .assign hname hequals hvalue, hextent.above ⟨[_, _], [], List.append_nil _⟩⟩
  | .print hkeyword hopening hvalue hclosing =>
      obtain ⟨levels, hvalue, hextent⟩ := hvalue.derives
      exact ⟨_, .print hkeyword hopening hvalue hclosing, hextent.above ⟨[_, _], [_], rfl⟩⟩
  | .ifElse hkeyword hconditional =>
      obtain ⟨levels, hconditional, hextent⟩ := hconditional.derives
      exact ⟨levels, .ifElse hkeyword hconditional, hextent.within (List.suffix_cons _ _).isInfix⟩
  | .whileLoop hkeyword hcondition hbody =>
      obtain ⟨conditionLevels, hcondition, hconditionExtent⟩ := hcondition.derives
      obtain ⟨bodyLevels, hbody, hbodyExtent⟩ := hbody.derives
      refine ⟨_, .whileLoop hkeyword hcondition hbody, ?_⟩
      rw [Statement.height]
      exact (hconditionExtent.both hbodyExtent.relax).above (List.suffix_cons _ _).isInfix
  | .forRange hkeyword hname hinside hrange hopening hnumber hcount hclosing hbody =>
      obtain ⟨levels, hbody, hextent⟩ := hbody.derives
      refine ⟨_, .forRange hkeyword hname hinside hrange hopening hnumber hcount hclosing hbody, ?_⟩
      rw [Statement.height]
      exact hextent.relax.above ⟨[_, _, _, _, _, _, _], [], List.append_nil _⟩

theorem FitsConditional.derives {room : Nat} {tokens : List Token} {statement : Statement}
    (h : FitsConditional room tokens statement) :
    ∃ levels, DerivesConditional tokens statement levels ∧ Extent 1 room tokens statement.height levels := by
  match h with
  | .intro hcondition hbody halternative =>
      obtain ⟨conditionLevels, hcondition, hconditionExtent⟩ := hcondition.derives
      obtain ⟨bodyLevels, hbody, hbodyExtent⟩ := hbody.derives
      obtain ⟨alternativeLevels, halternative, halternativeExtent⟩ := halternative.derives
      refine ⟨_, .intro hcondition hbody halternative, ?_⟩
      rw [Statement.height]
      exact (hconditionExtent.both (hbodyExtent.both halternativeExtent).relax).above List.infix_rfl

theorem FitsAlternative.derives {room : Nat} {tokens : List Token} {alternative : Option (List Statement)}
    (h : FitsAlternative room tokens alternative) :
    ∃ levels, DerivesAlternative tokens alternative levels ∧
      Extent 1 room tokens (alternativeHeight alternative) levels := by
  match h with
  | .absent => exact ⟨0, .absent, Extent.nothing 1 room⟩
  | .elseIf hkeyword hconditional =>
      obtain ⟨levels, hconditional, hextent⟩ := hconditional.derives
      refine ⟨levels, .elseIf hkeyword hconditional, ?_⟩
      rw [alternativeHeight, blockHeight, blockHeight, Nat.max_zero]
      exact hextent.within (List.suffix_cons _ _).isInfix
  | .elseBlock hkeyword hbody =>
      obtain ⟨levels, hbody, hextent⟩ := hbody.derives
      refine ⟨levels, .elseBlock hkeyword hbody, ?_⟩
      rw [alternativeHeight]
      exact hextent.within (List.suffix_cons _ _).isInfix

theorem FitsBlock.derives {room : Nat} {tokens : List Token} {body : List Statement}
    (h : FitsBlock room tokens body) :
    ∃ levels, DerivesBlock tokens body levels ∧ Extent 1 room tokens (blockHeight body) levels := by
  match h with
  | .intro hopening hbody hclosing =>
      obtain ⟨levels, hbody, hextent⟩ := hbody.derives
      exact ⟨levels, .intro hopening hbody hclosing, hextent.within ⟨[_], [_], rfl⟩⟩

theorem FitsStatements.derives {room : Nat} {tokens : List Token} {body : List Statement}
    (h : FitsStatements room tokens body) :
    ∃ levels, DerivesStatements tokens body levels ∧ Extent 1 room tokens (blockHeight body) levels := by
  match h with
  | .nil => exact ⟨0, .nil, Extent.nothing 1 room⟩
  | .cons hfirst hstatements =>
      obtain ⟨firstLevels, hfirst, hfirstExtent⟩ := hfirst.derives
      obtain ⟨levels, hstatements, hextent⟩ := hstatements.derives
      refine ⟨_, .cons hfirst hstatements, ?_⟩
      rw [blockHeight]
      exact hfirstExtent.both hextent

end

end ScriptLang.Grammar
