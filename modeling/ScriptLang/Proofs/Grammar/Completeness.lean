import ScriptLang.Proofs.Grammar.Soundness
/-!
# What fits is read

One token of lookahead has to tell where a phrase ends. An expression goes on at an operator and a
conditional at `elseif` and `else`; no statement begins with any of these, so a phrase that is followed by
something else is read to its end and not beyond.

The limit on levels never gets in the way of what fits into the room, so reading accepts just that. A derivation that
keeps to the limit is accepted, since it fits.
-/

namespace ScriptLang

/-! ### Where an expression ends -/

/-- The tokens do not begin with an operator of this tier or a tighter one. -/
def Tier.Stops (tier : Tier) (rest : List Token) : Prop :=
  ∀ token ∈ rest.head?, ∀ operator ∈ Operator.ofKind? token.kind, tier.rank < operator.tier.rank

namespace Tier

theorem Stops.operator?_eq_none {tier : Tier} {rest : List Token} (h : tier.Stops rest) :
    ∀ token ∈ rest.head?, tier.operator? token.kind = none := by
  intro token htoken
  rw [operator?, Option.filter_eq_none_iff]
  intro operator hoperator htier
  have hlt := h token htoken operator hoperator
  rw [of_decide_eq_true htier] at hlt
  exact absurd hlt (Nat.lt_irrefl _)

theorem Stops.tighter {tier : Tier} {rest : List Token} (h : tier.Stops rest) : tier.tighter.Stops rest := by
  intro token htoken operator hoperator
  refine Nat.lt_of_le_of_lt ?_ (h token htoken operator hoperator)
  cases tier <;> decide

theorem stops_unary (rest : List Token) : Tier.unary.Stops rest := by
  intro token _ operator _
  cases operator <;> decide

/-- An operator of a tier ends the operand in front of it. -/
theorem stops_tighter_of_operator? {tier : Tier} {token : Token} {operator : Operator}
    (h : tier.operator? token.kind = some operator) (rest : List Token) :
    tier.tighter.Stops (token :: rest) := by
  intro first hfirst found hfound
  cases hfirst
  obtain ⟨hkind, htier⟩ := Option.filter_eq_some_iff.mp h
  obtain rfl : operator = found := Option.some.inj (hkind.symm.trans hfound)
  obtain rfl : operator.tier = tier := of_decide_eq_true htier
  cases operator <;> decide

theorem stops_cons {tier : Tier} {token : Token} (h : Operator.ofKind? token.kind = none)
    (rest : List Token) : tier.Stops (token :: rest) := by
  intro first hfirst operator hoperator
  cases hfirst
  rw [h] at hoperator
  cases hoperator

end Tier

namespace Grammar

open Rule

/-! ### Expressions -/

theorem chain_of_stops {room steps : Nat} {tier : Tier} {operand : Rule Expr} {left : Expr}
    {rest : List Token} {lines : Array Nat} (hstops : tier.Stops rest) :
    chain room tier operand steps left ⟨rest, lines⟩ = .ok left ⟨rest, lines⟩ := by
  have htake := takeIf_eq_none hstops.operator?_eq_none lines
  cases steps with
  | zero => exact bind_of_ok htake _
  | succ steps => exact bind_of_ok htake _

/-- The loop takes an operator with its right operand. A node that fits into the room leaves a step for the
next one, since every node is higher than the one before. -/
theorem chain_of_operator {room steps : Nat} {tier : Tier} {operand : Rule Expr} {left right : Expr}
    {operator : Operator} {token : Token} {tokens rest : List Token} {lines : Array Nat}
    (hoperator : tier.operator? token.kind = some operator)
    (hright : operand ⟨tokens, lines⟩ = .ok right ⟨rest, lines⟩)
    (hheight : (Expr.binary operator left right).height ≤ room) (hsteps : room < left.height + steps) :
    ∃ steps', room < (Expr.binary operator left right).height + steps' ∧
      chain room tier operand steps left ⟨token :: tokens, lines⟩ =
        chain room tier operand steps' (.binary operator left right) ⟨rest, lines⟩ := by
  have hhigher : left.height < (Expr.binary operator left right).height := by
    simp only [Expr.height]
    omega
  cases steps with
  | zero => omega
  | succ steps =>
      refine ⟨steps, by omega, ?_⟩
      rw [chain, bind_of_ok (takeIf_eq_some hoperator tokens lines)]
      dsimp only
      rw [bind_of_ok hright, if_pos hheight]

/-- A binary tier reads its first operand, which is of the tighter tier, and goes on from there. -/
theorem expr_succ_eq_bind {tier : Tier} (htier : tier ≠ .unary) (room : Nat) :
    expr (room + 1) tier =
      expr (room + 1) tier.tighter >>= chain (room + 1) tier (expr room tier.tighter) (room + 1) := by
  cases tier with
  | unary => exact absurd rfl htier
  | product | sum | comparison => rfl

/-- On these tokens the rule comes to the loop of its tier, with the result as left operand. What follows may
begin with an operator of the tier itself: a left recursive derivation goes on there. -/
def ComesTo (tier : Tier) (tokens : List Token) (result : Expr) (room : Nat) : Prop :=
  ∀ rest lines, tier.tighter.Stops rest → ∃ steps, room < result.height + steps ∧
    expr room tier ⟨tokens ++ rest, lines⟩ =
      chain room tier (expr (room - 1) tier.tighter) steps result ⟨rest, lines⟩

theorem ComesTo.expr_eq_ok {tier : Tier} {tokens rest : List Token} {result : Expr} {room : Nat}
    (h : ComesTo tier tokens result room) (hstops : tier.Stops rest) (lines : Array Nat) :
    expr room tier ⟨tokens ++ rest, lines⟩ = .ok result ⟨rest, lines⟩ := by
  obtain ⟨steps, _, hchain⟩ := h rest lines hstops.tighter
  rw [hchain, chain_of_stops hstops]

theorem ComesTo.single {tier : Tier} {tokens : List Token} {result : Expr} {room : Nat}
    (h : ComesTo tier.tighter tokens result (room + 1)) : ComesTo tier tokens result (room + 1) := by
  by_cases htier : tier = .unary
  · subst htier
    exact h
  · intro rest lines hstops
    have hpos := result.height_pos
    refine ⟨room + 1, by omega, ?_⟩
    rw [expr_succ_eq_bind htier, bind_of_ok (h.expr_eq_ok hstops lines), Nat.add_sub_cancel]

theorem ComesTo.binary {tier : Tier} {operator : Operator} {token : Token}
    {leftTokens rightTokens : List Token} {left right : Expr} {room : Nat}
    (hleft : ComesTo tier leftTokens left (room + 1)) (hoperator : tier.operator? token.kind = some operator)
    (hright : ComesTo tier.tighter rightTokens right room)
    (hheight : (Expr.binary operator left right).height ≤ room + 1) :
    ComesTo tier (leftTokens ++ token :: rightTokens) (.binary operator left right) (room + 1) := by
  intro rest lines hstops
  obtain ⟨steps, hsteps, hchain⟩ := hleft (token :: (rightTokens ++ rest)) lines
    (Tier.stops_tighter_of_operator? hoperator _)
  obtain ⟨steps', hsteps', hnext⟩ := chain_of_operator hoperator (hright.expr_eq_ok hstops lines) hheight hsteps
  refine ⟨steps', hsteps', ?_⟩
  rw [List.append_assoc, List.cons_append, hchain]
  exact hnext

-- A signed operand is read as a whole, and the loop of its tier takes nothing.
theorem comesTo_unary {tokens : List Token} {result : Expr} {room : Nat}
    (h : ∀ rest lines, unary (expr room) ⟨tokens ++ rest, lines⟩ = .ok result ⟨rest, lines⟩) :
    ComesTo .unary tokens result (room + 1) := by
  intro rest lines _
  have hpos := result.height_pos
  refine ⟨room + 1, by omega, ?_⟩
  rw [chain_of_stops (Tier.stops_unary rest)]
  exact h rest lines

theorem comesTo_primary {token : Token} {tokens : List Token} {result : Expr} {room : Nat}
    (hkind : token.kind ≠ .minus)
    (h : ∀ rest lines, primary (expr room) ⟨token :: (tokens ++ rest), lines⟩ = .ok result ⟨rest, lines⟩) :
    ComesTo .unary (token :: tokens) result (room + 1) := by
  apply comesTo_unary
  intro rest lines
  rw [List.cons_append, unary, bind_of_ok (takeIf_eq_none (by simpa using hkind) lines)]
  exact h rest lines

theorem primary_cons (below : Tier → Rule Expr) (token : Token) (rest : List Token) (lines : Array Nat) :
    primary below ⟨token :: rest, lines⟩ =
      (match token.kind with
        | .number => do return .literal (← number token)
        | .string => return .literal (.string (literalText token.text))
        | .boolean => return .literal (.bool (token.text = "true"))
        | .null => return .literal .null
        | .identifier => return .var token.text
        | .openParen => do
          let inside ← below .comparison
          let _ ← expect .closeParen
          return inside
        | _ => throw (.unexpectedToken token) : Rule Expr) ⟨rest, lines⟩ := rfl

theorem number_eq_ok {token : Token} {value : Value} (h : numberOf? token.text = some value) (cursor : Cursor) :
    number token cursor = .ok value cursor := by
  rw [number, h]
  rfl

-- What has one level is a single token.
theorem DerivesExpr.comesTo {tier : Tier} {tokens : List Token} {result : Expr} {levels : Nat}
    (h : DerivesExpr tier tokens result levels) (hlevels : levels = 1) (room : Nat) :
    ComesTo tier tokens result (room + 1) := by
  induction h with
  | number hkind hvalue =>
      refine comesTo_primary (by simp [hkind]) fun rest lines => ?_
      rw [primary_cons, hkind]
      exact bind_of_ok (number_eq_ok hvalue _) _
  | string hkind | boolean hkind | null hkind | var hkind =>
      refine comesTo_primary (by simp [hkind]) fun rest lines => ?_
      rw [primary_cons, hkind]
      rfl
  | parens _ hbelow _ | negate _ hbelow | binary hbelow =>
      have hpos := hbelow.levels_pos
      omega
  | single _ ih => exact (ih hlevels).single

theorem FitsExpr.comesTo {room : Nat} {tier : Tier} {tokens : List Token} {result : Expr}
    (h : FitsExpr room tier tokens result) : ComesTo tier tokens result room := by
  induction h with
  | @token room _ _ hroom hexpr =>
      obtain ⟨room, rfl⟩ : ∃ below, room = below + 1 := ⟨room - 1, by omega⟩
      exact hexpr.comesTo rfl room
  | @parens room opening closing inside result hopening _ hclosing ih =>
      refine comesTo_primary (by simp [hopening]) fun rest lines => ?_
      have hstops : Tier.comparison.Stops (closing :: rest) := Tier.stops_cons (by rw [hclosing]; rfl) rest
      rw [primary_cons, hopening, List.append_assoc, List.singleton_append]
      dsimp only
      rw [bind_of_ok (ih.expr_eq_ok hstops lines), bind_of_ok (expect_eq_ok hclosing rest lines)]
      rfl
  | negate hminus _ ih =>
      refine comesTo_unary fun rest lines => ?_
      rw [List.cons_append, unary, bind_of_ok (takeIf_eq_some (if_pos hminus) _ lines)]
      exact bind_of_ok (ih.expr_eq_ok (Tier.stops_unary rest) lines) _
  | binary _ hoperator _ hheight ihleft ihright =>
      exact ihleft.binary (Tier.operator?_eq_some_iff.mpr hoperator) ihright hheight
  | @single room _ _ _ hexpr ih =>
      obtain ⟨room, rfl⟩ : ∃ below, room = below + 1 := ⟨room - 1, by have := hexpr.room_pos; omega⟩
      exact ih.single

theorem FitsExpr.accepts {room : Nat} {tier : Tier} {tokens rest : List Token} {result : Expr}
    (h : FitsExpr room tier tokens result) (hstops : tier.Stops rest) :
    Accepts (expr room tier) result (tokens ++ rest) rest :=
  fun lines => ⟨lines, h.comesTo.expr_eq_ok hstops lines⟩

/-! ### Where a statement ends -/

/-- The tokens begin with nothing that could go on with a statement. -/
def Ends (rest : List Token) : Prop :=
  ∀ token ∈ rest.head?,
    Operator.ofKind? token.kind = none ∧ token.kind ≠ .elseifWord ∧ token.kind ≠ .elseWord

/-- A block or a program is over: the tokens begin with a closing brace, or there are none. -/
def BlockEnds (rest : List Token) : Prop :=
  ∀ token ∈ rest.head?, token.kind = .closeBrace

theorem blockEnds_cons {token : Token} (h : token.kind = .closeBrace) (rest : List Token) :
    BlockEnds (token :: rest) := by
  intro first hfirst
  cases hfirst
  exact h

theorem BlockEnds.ends {rest : List Token} (h : BlockEnds rest) : Ends rest := by
  intro token htoken
  rw [h token htoken]
  exact ⟨rfl, by decide, by decide⟩

theorem BlockEnds.atBlockEnd {rest : List Token} (h : BlockEnds rest) (lines : Array Nat) :
    Cursor.atBlockEnd ⟨rest, lines⟩ = true := by
  cases rest with
  | nil => rfl
  | cons first rest => exact decide_eq_true (h first rfl)

theorem Ends.stops {rest : List Token} (h : Ends rest) (tier : Tier) : tier.Stops rest := by
  intro token htoken operator hoperator
  rw [(h token htoken).1] at hoperator
  cases hoperator

theorem FitsStatement.exists_first {room : Nat} {tokens : List Token} {statement : Statement}
    (h : FitsStatement room tokens statement) :
    ∃ first rest, tokens = first :: rest ∧
      first.kind ∈ [Kind.identifier, .printWord, .ifWord, .whileWord, .forWord] := by
  cases h with
  | assign hname => exact ⟨_, _, rfl, by simp [hname]⟩
  | print hkeyword | ifElse hkeyword | whileLoop hkeyword | forRange hkeyword =>
      exact ⟨_, _, rfl, by simp [hkeyword]⟩

theorem FitsStatement.ends {room : Nat} {tokens : List Token} {statement : Statement}
    (h : FitsStatement room tokens statement) (rest : List Token) : Ends (tokens ++ rest) := by
  obtain ⟨first, more, rfl, hkind⟩ := h.exists_first
  intro token htoken
  cases htoken
  generalize first.kind = kind at hkind
  revert kind
  decide

theorem FitsStatement.not_atBlockEnd {room : Nat} {tokens : List Token} {statement : Statement}
    (h : FitsStatement room tokens statement) (rest : List Token) (lines : Array Nat) :
    Cursor.atBlockEnd ⟨tokens ++ rest, lines⟩ = false := by
  obtain ⟨first, more, rfl, hkind⟩ := h.exists_first
  have hne : first.kind ≠ .closeBrace := by
    intro heq
    rw [heq] at hkind
    exact absurd hkind (by decide)
  simp [Cursor.atBlockEnd, hne]

theorem FitsStatements.ends {room : Nat} {tokens rest : List Token} {body : List Statement}
    (h : FitsStatements room tokens body) (hends : Ends rest) : Ends (tokens ++ rest) := by
  cases h with
  | nil => exact hends
  | cons hfirst _ =>
      rw [List.append_assoc]
      exact hfirst.ends _

theorem FitsBlock.stops {room : Nat} {tokens : List Token} {body : List Statement}
    (h : FitsBlock room tokens body) (rest : List Token) : Tier.comparison.Stops (tokens ++ rest) := by
  cases h with
  | intro hopening => exact Tier.stops_cons (by rw [hopening]; rfl) _

theorem FitsStatements.length_le {room : Nat} {tokens : List Token} {body : List Statement}
    (h : FitsStatements room tokens body) : body.length ≤ tokens.length := by
  induction body generalizing tokens with
  | nil => exact Nat.zero_le _
  | cons first rest ih =>
      cases h with
      | cons hfirst hrest =>
          obtain ⟨token, more, rfl, _⟩ := hfirst.exists_first
          have := ih hrest
          simp only [List.length_cons, List.length_append]
          omega

/-! ### Statements

What a rule accepts, given what the rules below it accept. -/

theorem accepts_loopCount {token : Token} {count : Int64} (hkind : token.kind = .number)
    (hcount : numberOf? token.text = some (.int count)) (rest : List Token) :
    Accepts loopCount count (token :: rest) rest := by
  refine (accepts_expect hkind rest).bind (Accepts.bind (fun lines => ⟨lines, number_eq_ok hcount _⟩) ?_)
  exact accepts_pure count rest

theorem BlockEnds.accepts_statementsWithin {rest : List Token} (h : BlockEnds rest) (item : Rule Statement)
    (bound : Nat) : Accepts (statementsWithin item bound) [] rest rest := by
  intro lines
  refine ⟨lines, ?_⟩
  cases bound with
  | zero => rfl
  | succ bound =>
      rw [statementsWithin, bind_of_ok (get_eq_ok _), if_pos (h.atBlockEnd lines)]
      rfl

theorem accepts_statementsWithin_cons {item : Rule Statement} {first : Statement} {body : List Statement}
    {tokens between rest : List Token} {bound : Nat}
    (hnot : ∀ lines, Cursor.atBlockEnd ⟨tokens, lines⟩ = false) (hfirst : Accepts item first tokens between)
    (hbody : Accepts (statementsWithin item bound) body between rest) :
    Accepts (statementsWithin item (bound + 1)) (first :: body) tokens rest := by
  intro lines
  rw [statementsWithin, bind_of_ok (get_eq_ok _), if_neg (by simp [hnot])]
  exact hfirst.bind (hbody.bind (accepts_pure (first :: body) rest)) lines

theorem accepts_block {item : Rule Statement} {opening closing : Token} {body : List Statement}
    {tokens rest : List Token} (hopening : opening.kind = .openBrace)
    (hbody : Accepts (statements item) body tokens (closing :: rest)) (hclosing : closing.kind = .closeBrace) :
    Accepts (block item) body (opening :: tokens) rest :=
  (accepts_expect hopening tokens).bind
    (hbody.bind ((accepts_expect hclosing rest).bind (accepts_pure body rest)))

/-- What a conditional reads behind its first block. -/
def afterBlock (below : Level) (condition : Expr) (body : List Statement) : Rule Statement := do
  match ← takeIf fun kind => if kind = .elseifWord ∨ kind = .elseWord then some kind else none with
  | none => return .ifElse condition body none
  | some (.elseifWord, token) => return .ifElse condition body (some [← below.conditional token])
  | some _ => return .ifElse condition body (some (← block below.statement))

theorem conditional_eq (room : Nat) (below : Level) : conditional room below = (do
    let condition ← expr room .comparison
    let body ← block below.statement
    afterBlock below condition body) := rfl

theorem Ends.accepts_afterBlock {rest : List Token} (h : Ends rest) (below : Level) (condition : Expr)
    (body : List Statement) :
    Accepts (afterBlock below condition body) (.ifElse condition body none) rest rest := by
  refine (accepts_takeIf_none ?_).bind (accepts_pure _ rest)
  intro token htoken
  exact if_neg (not_or.mpr (h token htoken).2)

theorem accepts_afterBlock_elseIf {below : Level} {condition : Expr} {body : List Statement} {keyword : Token}
    {statement : Statement} {tokens rest : List Token} (hkeyword : keyword.kind = .elseifWord)
    (hstatement : Accepts (below.conditional keyword) statement tokens rest) :
    Accepts (afterBlock below condition body) (.ifElse condition body (some [statement]))
      (keyword :: tokens) rest := by
  have hknown : (if keyword.kind = .elseifWord ∨ keyword.kind = .elseWord then some keyword.kind else none) =
      some Kind.elseifWord := by simp [hkeyword]
  refine (accepts_takeIf_some hknown tokens).bind ?_
  exact hstatement.bind (accepts_pure _ rest)

theorem accepts_afterBlock_elseBlock {below : Level} {condition : Expr} {body alternative : List Statement}
    {keyword : Token} {tokens rest : List Token} (hkeyword : keyword.kind = .elseWord)
    (halternative : Accepts (block below.statement) alternative tokens rest) :
    Accepts (afterBlock below condition body) (.ifElse condition body (some alternative))
      (keyword :: tokens) rest := by
  have hknown : (if keyword.kind = .elseifWord ∨ keyword.kind = .elseWord then some keyword.kind else none) =
      some Kind.elseWord := by simp [hkeyword]
  refine (accepts_takeIf_some hknown tokens).bind ?_
  exact halternative.bind (accepts_pure _ rest)

theorem accepts_statement {room : Nat} {below : Level} {first : Token} {tokens rest : List Token}
    {result : Statement} (h : Accepts (afterFirst room below first) result tokens rest) :
    Accepts (statement room below) result (first :: tokens) rest :=
  (accepts_next first tokens).bind (h.bind ((accepts_close first rest).bind (accepts_pure result rest)))

section

variable {room : Nat} {below : Level} {first : Token} {tokens between rest : List Token}

theorem accepts_assign {equals : Token} {value : Expr} (hname : first.kind = .identifier)
    (hequals : equals.kind = .assign) (hvalue : Accepts (expr room .comparison) value tokens rest) :
    Accepts (afterFirst room below first) (.assign first.text value) (equals :: tokens) rest := by
  rw [afterFirst, hname]
  exact (accepts_expect hequals tokens).bind (hvalue.bind (accepts_pure _ rest))

theorem accepts_print {opening closing : Token} {value : Expr} (hkeyword : first.kind = .printWord)
    (hopening : opening.kind = .openParen)
    (hvalue : Accepts (expr room .comparison) value tokens (closing :: rest))
    (hclosing : closing.kind = .closeParen) :
    Accepts (afterFirst room below first) (.print value) (opening :: tokens) rest := by
  rw [afterFirst, hkeyword]
  exact (accepts_expect hopening tokens).bind
    (hvalue.bind ((accepts_expect hclosing rest).bind (accepts_pure _ rest)))

theorem accepts_ifElse {result : Statement} (hkeyword : first.kind = .ifWord)
    (hconditional : Accepts (conditional room below) result tokens rest) :
    Accepts (afterFirst room below first) result tokens rest := by
  rw [afterFirst, hkeyword]
  exact hconditional

theorem accepts_whileLoop {condition : Expr} {body : List Statement} (hkeyword : first.kind = .whileWord)
    (hcondition : Accepts (expr room .comparison) condition tokens between)
    (hbody : Accepts (block below.statement) body between rest) :
    Accepts (afterFirst room below first) (.whileLoop condition body) tokens rest := by
  rw [afterFirst, hkeyword]
  exact hcondition.bind (hbody.bind (accepts_pure _ rest))

theorem accepts_forRange {name inside range opening number closing : Token} {count : Int64}
    {body : List Statement} (hkeyword : first.kind = .forWord) (hname : name.kind = .identifier)
    (hinside : inside.kind = .inWord) (hrange : range.kind = .rangeWord) (hopening : opening.kind = .openParen)
    (hnumber : number.kind = .number) (hcount : numberOf? number.text = some (.int count))
    (hclosing : closing.kind = .closeParen) (hbody : Accepts (block below.statement) body tokens rest) :
    Accepts (afterFirst room below first) (.forRange name.text count body)
      (name :: inside :: range :: opening :: number :: closing :: tokens) rest := by
  rw [afterFirst, hkeyword]
  refine (accepts_expect hname _).bind ?_
  refine (accepts_expect hinside _).bind ?_
  refine (accepts_expect hrange _).bind ?_
  refine (accepts_expect hopening _).bind ?_
  refine (accepts_loopCount hnumber hcount _).bind ?_
  exact (accepts_expect hclosing _).bind (hbody.bind (accepts_pure _ rest))

end

/-! ### What fits is read -/

mutual

theorem FitsStatement.accepts {room : Nat} {tokens rest : List Token} {result : Statement}
    (h : FitsStatement room tokens result) (hends : Ends rest) :
    Accepts (level room).statement result (tokens ++ rest) rest := by
  match h with
  | .assign hname hequals hvalue =>
      exact accepts_statement (accepts_assign hname hequals (hvalue.accepts (hends.stops .comparison)))
  | .print hkeyword hopening hvalue hclosing =>
      have hvalue := hvalue.accepts (Tier.stops_cons (by rw [hclosing]; rfl) rest)
      rw [List.cons_append, List.cons_append, List.append_assoc]
      exact accepts_statement (accepts_print hkeyword hopening hvalue hclosing)
  | @FitsStatement.ifElse room keyword _ _ hkeyword hconditional =>
      have hread := hconditional.accepts keyword hends
      obtain ⟨room, rfl⟩ : ∃ below, room = below + 1 := ⟨room - 1, by have := hconditional.room_pos; omega⟩
      exact accepts_statement (accepts_ifElse hkeyword hread)
  | .whileLoop hkeyword hcondition hbody =>
      have hcondition := hcondition.accepts (hbody.stops rest)
      rw [List.cons_append, List.append_assoc]
      exact accepts_statement (accepts_whileLoop hkeyword hcondition (hbody.accepts rest))
  | .forRange hkeyword hname hinside hrange hopening hnumber hcount hclosing hbody =>
      exact accepts_statement (accepts_forRange hkeyword hname hinside hrange hopening hnumber hcount hclosing
        (hbody.accepts rest))

theorem FitsConditional.accepts {room : Nat} {tokens rest : List Token} {result : Statement}
    (h : FitsConditional room tokens result) (keyword : Token) (hends : Ends rest) :
    Accepts ((level room).conditional keyword) result (tokens ++ rest) rest := by
  match h with
  | .intro hcondition hbody halternative =>
      rw [List.append_assoc, List.append_assoc, level, conditional_eq]
      refine (hcondition.accepts (hbody.stops _)).bind ?_
      exact (hbody.accepts _).bind (halternative.accepts hends)

theorem FitsAlternative.accepts {room : Nat} {tokens rest : List Token} {alternative : Option (List Statement)}
    {condition : Expr} {body : List Statement} (h : FitsAlternative room tokens alternative) (hends : Ends rest) :
    Accepts (afterBlock (level room) condition body) (.ifElse condition body alternative)
      (tokens ++ rest) rest := by
  match h with
  | .absent => exact hends.accepts_afterBlock (level room) condition body
  | .elseIf hkeyword hconditional => exact accepts_afterBlock_elseIf hkeyword (hconditional.accepts _ hends)
  | .elseBlock hkeyword hbody => exact accepts_afterBlock_elseBlock hkeyword (hbody.accepts rest)

theorem FitsBlock.accepts {room : Nat} {tokens : List Token} {body : List Statement}
    (h : FitsBlock room tokens body) (rest : List Token) :
    Accepts (block (level room).statement) body (tokens ++ rest) rest := by
  match h with
  | .intro hopening hbody hclosing =>
      have hend := blockEnds_cons hclosing rest
      rw [List.cons_append, List.append_assoc]
      refine accepts_block hopening (fun lines => ?_) hclosing
      exact hbody.accepts (hbody.length_le.trans (by simp)) hend lines

theorem FitsStatements.accepts {room bound : Nat} {tokens rest : List Token} {body : List Statement}
    (h : FitsStatements room tokens body) (hbound : body.length ≤ bound) (hend : BlockEnds rest) :
    Accepts (statementsWithin (level room).statement bound) body (tokens ++ rest) rest := by
  match h with
  | .nil => exact hend.accepts_statementsWithin _ bound
  | .cons hfirst hstatements =>
      obtain ⟨bound, rfl⟩ : ∃ less, bound = less + 1 := ⟨bound - 1, by simp at hbound; omega⟩
      have hfirstRead := hfirst.accepts (hstatements.ends hend.ends)
      have hrestRead := hstatements.accepts (Nat.le_of_succ_le_succ hbound) hend
      rw [List.append_assoc]
      exact accepts_statementsWithin_cons (hfirst.not_atBlockEnd _) hfirstRead hrestRead

end

theorem blockEnds_nil : BlockEnds [] := by
  intro token htoken
  cases htoken

theorem FitsStatements.ofTokens_eq_ok {tokens : List Token} {result : Program}
    (h : FitsStatements levelLimit (withoutComments tokens) result.statements) :
    Program.ofTokens tokens = .ok result := by
  obtain ⟨lines, hbody⟩ := h.accepts h.length_le blockEnds_nil #[]
  rw [List.append_nil] at hbody
  have hread : Program.readTokens tokens = .ok result ⟨[], lines⟩ := by
    rw [Program.readTokens, program, bind_of_ok]
    · exact bind_of_ok (atEnd_eq_ok.mpr ⟨rfl, rfl⟩) _
    · exact hbody
  rw [Program.ofTokens, hread]

/-- Reading accepts what fits into the limit on levels, and nothing else. -/
theorem ofTokens_eq_ok_iff_fits {tokens : List Token} {result : Program} :
    Program.ofTokens tokens = .ok result ↔
      FitsStatements levelLimit (withoutComments tokens) result.statements :=
  ⟨fits_of_ofTokens, FitsStatements.ofTokens_eq_ok⟩

theorem DerivesProgram.ofTokens_eq_ok {tokens : List Token} {result : Program} {levels : Nat}
    (h : DerivesProgram (withoutComments tokens) result levels) (hlevels : levels ≤ levelLimit) :
    Program.ofTokens tokens = .ok result :=
  FitsStatements.ofTokens_eq_ok (DerivesStatements.fits h hlevels)

/-- A list of tokens is read as a program only if it derives that program, and it is read so whenever the
derivation keeps to the limit on levels. -/
theorem ofTokens_matches_grammar (tokens : List Token) (result : Program) :
    (Program.ofTokens tokens = .ok result →
      ∃ levels, DerivesProgram (withoutComments tokens) result levels) ∧
    ∀ levels, DerivesProgram (withoutComments tokens) result levels → levels ≤ levelLimit →
      Program.ofTokens tokens = .ok result :=
  ⟨fun h => (statementsRead_of_ofTokens h).1, fun _ h hlevels => h.ofTokens_eq_ok hlevels⟩

end Grammar

end ScriptLang
