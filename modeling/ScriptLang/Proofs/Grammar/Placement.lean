import ScriptLang.Proofs.Grammar.Prolonging
/-!
# Where the tokens stand does not matter

A rule looks at the kinds and the texts of tokens and at nothing else. On two lists of tokens that agree in these,
item by item, it does the same: it reads the same, or it fails in the same way, and the two errors name tokens
that correspond to each other. `Parallel` says so for two rules, since what a rule goes on with may name a token
that it has read.

Which tokens correspond is a parameter. Tokens that do must have the same kind and the same text.
-/

namespace ScriptLang

/-- The same kind and the same text, wherever the tokens stand. -/
def Token.Alike (left right : Token) : Prop :=
  left.kind = right.kind ∧ left.text = right.text

/-- The same error, about tokens that correspond. -/
inductive SyntaxError.Corresponds (same : Token → Token → Prop) : SyntaxError → SyntaxError → Prop
  | unexpectedToken {left right : Token} (h : same left right) :
      Corresponds same (.unexpectedToken left) (.unexpectedToken right)
  | endOfInput : Corresponds same .endOfInput .endOfInput
  | literalTooLarge {left right : Token} (h : same left right) :
      Corresponds same (.literalTooLarge left) (.literalTooLarge right)
  | invalidLoopCount {left right : Token} (h : same left right) :
      Corresponds same (.invalidLoopCount left) (.invalidLoopCount right)
  | nestingTooDeep {left right : Token} (h : same left right) :
      Corresponds same (.nestingTooDeep left) (.nestingTooDeep right)

namespace Grammar

namespace Rule

variable {α β : Type}

/-- Both answers are successes with corresponding values, or both are failures with corresponding errors. The
tokens that are left correspond. -/
inductive Answer.Corresponds (same : Token → Token → Prop) (values : α → α → Prop) : Answer α → Answer α → Prop
  | ok {left right : α} {rest rest' : List Token} {lines lines' : Array Nat} (hvalue : values left right)
      (hrest : List.Forall₂ same rest rest') :
      Corresponds same values (.ok left ⟨rest, lines⟩) (.ok right ⟨rest', lines'⟩)
  | error {left right : SyntaxError} {rest rest' : List Token} {lines lines' : Array Nat}
      (herror : left.Corresponds same right) (hrest : List.Forall₂ same rest rest') :
      Corresponds same values (.error left ⟨rest, lines⟩) (.error right ⟨rest', lines'⟩)

/-- From corresponding tokens the rules come to corresponding answers. -/
def Parallel (same : Token → Token → Prop) (values : α → α → Prop) (left right : Rule α) : Prop :=
  ∀ rest rest' lines lines', List.Forall₂ same rest rest' →
    Answer.Corresponds same values (left ⟨rest, lines⟩) (right ⟨rest', lines'⟩)

/-- The rule does not see where tokens stand. -/
abbrev Blind (same : Token → Token → Prop) (rule : Rule α) : Prop := Parallel same Eq rule rule

variable {same : Token → Token → Prop} {values : α → α → Prop} {values' : β → β → Prop}

/-! ### Sequencing -/

theorem Parallel.bind {left right : Rule α} {continued continued' : α → Rule β}
    (h : Parallel same values left right)
    (hcontinued : ∀ value value', values value value' →
      Parallel same values' (continued value) (continued' value')) :
    Parallel same values' (left >>= continued) (right >>= continued') := by
  intro rest rest' lines lines' hrest
  have hanswer := h rest rest' lines lines' hrest
  rw [bind_apply, bind_apply]
  generalize left ⟨rest, lines⟩ = answer at hanswer ⊢
  generalize right ⟨rest', lines'⟩ = answer' at hanswer ⊢
  cases hanswer with
  | ok hvalue hrest => exact hcontinued _ _ hvalue _ _ _ _ hrest
  | error herror hrest => exact .error herror hrest

theorem Parallel.bind_eq {left right : Rule α} {continued continued' : α → Rule β}
    (h : Parallel same Eq left right)
    (hcontinued : ∀ value, Parallel same values' (continued value) (continued' value)) :
    Parallel same values' (left >>= continued) (right >>= continued') := by
  apply h.bind
  rintro value _ rfl
  exact hcontinued value

theorem parallel_pure {left right : α} (h : values left right) :
    Parallel same values (pure left : Rule α) (pure right) :=
  fun _ _ _ _ hrest => .ok h hrest

theorem parallel_throw {left right : SyntaxError} (h : left.Corresponds same right) :
    Parallel same values (throw left : Rule α) (throw right) :=
  fun _ _ _ _ hrest => .error h hrest

theorem parallel_get :
    Parallel same (fun left right => List.Forall₂ same left.rest right.rest) (get : Rule Cursor) get :=
  fun _ _ _ _ hrest => .ok hrest hrest

/-- A success comes again wherever the tokens stand, and whichever lines were closed before. -/
theorem Blind.ok {rule : Rule α} (h : Blind same rule) {tokens tokens' : List Token} {lines : Array Nat} {value : α}
    {cursor : Cursor} (hsame : List.Forall₂ same tokens tokens') (hok : rule ⟨tokens, lines⟩ = .ok value cursor)
    (lines' : Array Nat) :
    ∃ cursor', rule ⟨tokens', lines'⟩ = .ok value cursor' ∧ List.Forall₂ same cursor.rest cursor'.rest := by
  have hanswer := h tokens tokens' lines lines' hsame
  rw [hok] at hanswer
  generalize rule ⟨tokens', lines'⟩ = answer at hanswer ⊢
  cases hanswer with
  | ok hvalue hrest => exact ⟨_, congrArg (EStateM.Result.ok · _) hvalue.symm, hrest⟩

/-! ### Single tokens -/

theorem parallel_next : Parallel same same next next := by
  intro rest rest' lines lines' hrest
  cases hrest with
  | nil => exact .error .endOfInput .nil
  | cons hfirst hrest => exact .ok hfirst hrest

theorem parallel_tooDeep : Parallel same values (tooDeep : Rule α) tooDeep :=
  parallel_next.bind fun _ _ h => parallel_throw (.nestingTooDeep h)

theorem parallel_close (left right : Token) : Parallel same Eq (close left) (close right) :=
  fun _ _ _ _ hrest => .ok rfl hrest

theorem blind_atEnd : Blind same atEnd := by
  intro rest rest' lines lines' hrest
  cases hrest with
  | nil => exact .ok rfl .nil
  | cons hfirst hrest => exact .error (.unexpectedToken hfirst) hrest

section

variable (halike : ∀ left right, same left right → left.Alike right)

include halike

theorem parallel_expect (kind : Kind) : Parallel same same (expect kind) (expect kind) := by
  apply parallel_next.bind
  intro token token' h
  rw [(halike token token' h).1]
  split
  · exact parallel_pure h
  · exact parallel_throw (.unexpectedToken h)

theorem Parallel.takeIf_bind {known : Kind → Option α} {continued continued' : Option (α × Token) → Rule β}
    (hnone : Parallel same values' (continued none) (continued' none))
    (hsome : ∀ found token token', known token.kind = some found → same token token' →
      Parallel same values' (continued (some (found, token))) (continued' (some (found, token')))) :
    Parallel same values' (takeIf known >>= continued) (takeIf known >>= continued') := by
  intro rest rest' lines lines' hrest
  cases hrest with
  | nil => exact hnone [] [] lines lines' .nil
  | @cons first first' rest rest' hfirst hrest =>
      have hkind : first.kind = first'.kind := (halike first first' hfirst).1
      cases hknown : known first.kind with
      | none =>
          rw [bind_of_ok (takeIf_eq_none (by simpa using hknown) lines),
            bind_of_ok (takeIf_eq_none (by simpa [← hkind] using hknown) lines')]
          exact hnone _ _ lines lines' (.cons hfirst hrest)
      | some found =>
          rw [bind_of_ok (takeIf_eq_some hknown rest lines),
            bind_of_ok (takeIf_eq_some (hkind ▸ hknown) rest' lines')]
          exact hsome found first first' hknown hfirst rest rest' lines lines' hrest

end

end Rule

open Rule

section

variable {same : Token → Token → Prop} (halike : ∀ left right, same left right → left.Alike right)

include halike

/-! ### Expressions -/

theorem parallel_number {left right : Token} (h : same left right) :
    Parallel same Eq (number left) (number right) := by
  rw [number, number, (halike left right h).2]
  split
  · exact parallel_pure rfl
  · exact parallel_throw (.literalTooLarge h)

theorem blind_primary {below : Tier → Rule Expr} (hbelow : ∀ tier, Blind same (below tier)) :
    Blind same (primary below) := by
  apply parallel_next.bind
  intro token token' h
  obtain ⟨hkind, htext⟩ := halike token token' h
  rw [hkind, htext]
  split
  · apply (parallel_number halike h).bind_eq
    intro value
    exact parallel_pure rfl
  · exact parallel_pure rfl
  · exact parallel_pure rfl
  · exact parallel_pure rfl
  · exact parallel_pure rfl
  · apply (hbelow .comparison).bind_eq
    intro inside
    exact (parallel_expect halike .closeParen).bind fun _ _ _ => parallel_pure rfl
  · exact parallel_throw (.unexpectedToken h)

theorem blind_unary {below : Tier → Rule Expr} (hbelow : ∀ tier, Blind same (below tier)) :
    Blind same (unary below) := by
  apply Parallel.takeIf_bind halike (blind_primary halike hbelow)
  intro _ _ _ _ _
  exact (hbelow .unary).bind_eq fun _ => parallel_pure rfl

theorem blind_chain {operand : Rule Expr} (hoperand : Blind same operand) (room : Nat) (tier : Tier) (steps : Nat)
    (left : Expr) : Blind same (chain room tier operand steps left) := by
  induction steps generalizing left with
  | zero =>
      apply Parallel.takeIf_bind halike
      · exact parallel_pure rfl
      · intro operator token token' _ h
        exact hoperand.bind fun _ _ _ => parallel_throw (.nestingTooDeep h)
  | succ steps ih =>
      apply Parallel.takeIf_bind halike
      · exact parallel_pure rfl
      · intro operator token token' _ h
        apply hoperand.bind_eq
        intro right
        dsimp only
        split
        · exact ih _
        · exact parallel_throw (.nestingTooDeep h)

theorem blind_expr (room : Nat) (tier : Tier) : Blind same (expr room tier) := by
  induction room generalizing tier with
  | zero => exact parallel_tooDeep
  | succ room ih =>
      induction tier using Tier.induction with
      | unary => exact blind_unary halike ih
      | looser tier htier htighter =>
          rw [expr_succ_eq_bind htier]
          exact htighter.bind_eq (blind_chain halike (ih tier.tighter) (room + 1) tier (room + 1))

/-! ### Statements -/

theorem blind_loopCount : Blind same loopCount := by
  apply (parallel_expect halike .number).bind
  intro token token' h
  apply (parallel_number halike h).bind_eq
  intro value
  split
  · exact parallel_pure rfl
  · exact parallel_throw (.invalidLoopCount h)

theorem atBlockEnd_eq {left right : Cursor} (h : List.Forall₂ same left.rest right.rest) :
    left.atBlockEnd = right.atBlockEnd := by
  obtain ⟨rest, lines⟩ := left
  obtain ⟨rest', lines'⟩ := right
  cases h with
  | nil => rfl
  | cons hfirst hrest => simp only [Cursor.atBlockEnd, (halike _ _ hfirst).1]

theorem blind_statementsWithin {item : Rule Statement} (hitem : Blind same item) (bound : Nat) :
    Blind same (statementsWithin item bound) := by
  induction bound with
  | zero => exact parallel_pure rfl
  | succ bound ih =>
      apply parallel_get.bind
      intro cursor cursor' hcursor
      rw [atBlockEnd_eq halike hcursor]
      split
      · exact parallel_pure rfl
      · apply hitem.bind_eq
        intro first
        apply ih.bind_eq
        intro rest
        exact parallel_pure rfl

theorem blind_statements {item : Rule Statement} (hitem : Blind same item) : Blind same (statements item) := by
  apply parallel_get.bind
  intro cursor cursor' hcursor
  rw [hcursor.length_eq]
  exact blind_statementsWithin halike hitem _

theorem blind_block {item : Rule Statement} (hitem : Blind same item) : Blind same (block item) := by
  apply (parallel_expect halike .openBrace).bind
  intro _ _ _
  apply (blind_statements halike hitem).bind_eq
  intro body
  exact (parallel_expect halike .closeBrace).bind fun _ _ _ => parallel_pure rfl

section

variable {room : Nat} {below : Level} (hstatement : Blind same below.statement)
  (hconditional : ∀ keyword keyword', same keyword keyword' →
    Parallel same Eq (below.conditional keyword) (below.conditional keyword'))

include hstatement hconditional

theorem blind_conditional : Blind same (conditional room below) := by
  have hblock := blind_block halike hstatement
  apply (blind_expr halike room .comparison).bind_eq
  intro condition
  apply hblock.bind_eq
  intro body
  apply Parallel.takeIf_bind halike
  · exact parallel_pure rfl
  · intro found keyword keyword' hknown h
    split at hknown
    · rename_i hkeyword
      obtain rfl := Option.some.inj hknown
      rcases hkeyword with hkeyword | hkeyword
      · rw [hkeyword]
        exact (hconditional keyword keyword' h).bind_eq fun _ => parallel_pure rfl
      · rw [hkeyword]
        exact hblock.bind_eq fun _ => parallel_pure rfl
    · cases hknown

theorem parallel_afterFirst {first first' : Token} (h : same first first') :
    Parallel same Eq (afterFirst room below first) (afterFirst room below first') := by
  have hexpr := blind_expr halike room .comparison
  have hblock := blind_block halike hstatement
  obtain ⟨hkind, htext⟩ := halike first first' h
  rw [afterFirst, afterFirst, hkind, htext]
  split
  · apply (parallel_expect halike .assign).bind
    intro _ _ _
    apply hexpr.bind_eq
    intro value
    exact parallel_pure rfl
  · apply (parallel_expect halike .openParen).bind
    intro _ _ _
    apply hexpr.bind_eq
    intro value
    exact (parallel_expect halike .closeParen).bind fun _ _ _ => parallel_pure rfl
  · exact blind_conditional halike hstatement hconditional
  · apply hexpr.bind_eq
    intro condition
    apply hblock.bind_eq
    intro body
    exact parallel_pure rfl
  · apply (parallel_expect halike .identifier).bind
    intro name name' hname
    apply (parallel_expect halike .inWord).bind
    intro _ _ _
    apply (parallel_expect halike .rangeWord).bind
    intro _ _ _
    apply (parallel_expect halike .openParen).bind
    intro _ _ _
    apply (blind_loopCount halike).bind_eq
    intro count
    apply (parallel_expect halike .closeParen).bind
    intro _ _ _
    apply hblock.bind_eq
    intro body
    exact parallel_pure (by rw [(halike name name' hname).2])
  · exact parallel_throw (.unexpectedToken h)

theorem blind_statement : Blind same (statement room below) := by
  apply parallel_next.bind
  intro first first' h
  apply (parallel_afterFirst halike hstatement hconditional h).bind_eq
  intro result
  exact (parallel_close first first').bind fun _ _ _ => parallel_pure rfl

end

theorem blind_level (room : Nat) :
    Blind same (level room).statement ∧
      ∀ keyword keyword', same keyword keyword' →
        Parallel same Eq ((level room).conditional keyword) ((level room).conditional keyword') := by
  induction room with
  | zero => exact ⟨parallel_tooDeep, fun _ _ h => parallel_throw (.nestingTooDeep h)⟩
  | succ room ih =>
      exact ⟨blind_statement halike ih.1 ih.2, fun _ _ _ => blind_conditional halike ih.1 ih.2⟩

theorem blind_program : Blind same program := by
  apply (blind_statements halike (blind_level halike (roomAt 1)).1).bind_eq
  intro body
  exact blind_atEnd.bind fun _ _ _ => parallel_pure rfl

end

end Grammar

end ScriptLang
