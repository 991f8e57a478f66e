import ScriptLang.Execution
import ScriptLang.Proofs.Grammar.Clauses
import ScriptLang.Proofs.Program.Concatenation
import ScriptLang.Proofs.Program.Height
/-!
# The first clause that holds

A conditional evaluates the conditions of its clauses in the order of the source and in the state in which it begins,
up to the first that fails or holds. `Decides` says this of the row of clauses as the source writes it. At every `if`
of a source that is a program such a row begins, and the statement that it has become there does what the row decides.
-/

namespace ScriptLang

/-! ### Which clause decides -/

/-- The condition of the clause has a value that does not count as true. -/
def Clause.PassedOver (state : State) (clause : Clause) : Prop :=
  ∃ value, clause.condition.eval state.environment = .ok value ∧ value.truth = false

/-- What a row of clauses comes to in a state. Nothing is said about what stands behind the clause that decides. -/
inductive Decides (limit : Nat) (state : State) : List Clause → Option (List Statement) → Outcome → Prop
  | failed (before : List Clause) {after : List Clause} {clause : Clause} {otherwise : Option (List Statement)}
      {error : RuntimeError}
      (hbefore : ∀ passed ∈ before, passed.PassedOver state)
      (herror : clause.condition.eval state.environment = .error error) :
      Decides limit state (before ++ clause :: after) otherwise (.failed error state)
  | chosen (before : List Clause) {after : List Clause} {clause : Clause} {otherwise : Option (List Statement)}
      {value : Value}
      (hbefore : ∀ passed ∈ before, passed.PassedOver state)
      (hvalue : clause.condition.eval state.environment = .ok value) (htruth : value.truth = true) :
      Decides limit state (before ++ clause :: after) otherwise (execBlock limit clause.body state)
  | last {clauses : List Clause} {body : List Statement} (hclauses : ∀ passed ∈ clauses, passed.PassedOver state) :
      Decides limit state clauses (some body) (execBlock limit body state)
  | nothing {clauses : List Clause} (hclauses : ∀ passed ∈ clauses, passed.PassedOver state) :
      Decides limit state clauses none (.done state)

theorem Decides.cons {limit : Nat} {state : State} {clause : Clause} {clauses : List Clause}
    {otherwise : Option (List Statement)} {outcome : Outcome} (hclause : clause.PassedOver state)
    (h : Decides limit state clauses otherwise outcome) :
    Decides limit state (clause :: clauses) otherwise outcome := by
  cases h with
  | failed before hbefore herror =>
      exact .failed (clause :: before) (List.forall_mem_cons.mpr ⟨hclause, hbefore⟩) herror
  | chosen before hbefore hvalue htruth =>
      exact .chosen (clause :: before) (List.forall_mem_cons.mpr ⟨hclause, hbefore⟩) hvalue htruth
  | last hclauses => exact .last (List.forall_mem_cons.mpr ⟨hclause, hclauses⟩)
  | nothing hclauses => exact .nothing (List.forall_mem_cons.mpr ⟨hclause, hclauses⟩)

section

variable {limit : Nat} {state : State} {clause : Clause} {clauses : List Clause} {otherwise : Option (List Statement)}

/-- One step along the row. -/
theorem execAlternative_cons :
    execAlternative limit (alternativeOf (clause :: clauses) otherwise) state =
      Outcome.withValue state clause.condition fun value =>
        if value.truth then execBlock limit clause.body state
        else execAlternative limit (alternativeOf clauses otherwise) state := by
  rw [alternativeOf, execAlternative, execBlock_singleton, Statement.exec]

theorem execAlternative_of_error {error : RuntimeError}
    (herror : clause.condition.eval state.environment = .error error) :
    execAlternative limit (alternativeOf (clause :: clauses) otherwise) state = .failed error state := by
  simp only [execAlternative_cons, Outcome.withValue, herror]

theorem execAlternative_of_truth {value : Value} (hvalue : clause.condition.eval state.environment = .ok value)
    (htruth : value.truth = true) :
    execAlternative limit (alternativeOf (clause :: clauses) otherwise) state = execBlock limit clause.body state := by
  simp only [execAlternative_cons, Outcome.withValue, hvalue, htruth, if_true]

theorem execAlternative_of_passedOver (h : clause.PassedOver state) :
    execAlternative limit (alternativeOf (clause :: clauses) otherwise) state =
      execAlternative limit (alternativeOf clauses otherwise) state := by
  obtain ⟨value, hvalue, htruth⟩ := h
  simp [execAlternative_cons, Outcome.withValue, hvalue, htruth]

theorem execAlternative_append {before : List Clause} (h : ∀ passed ∈ before, passed.PassedOver state) :
    execAlternative limit (alternativeOf (before ++ clauses) otherwise) state =
      execAlternative limit (alternativeOf clauses otherwise) state := by
  induction before with
  | nil => rfl
  | cons first before ih =>
      obtain ⟨hfirst, hbefore⟩ := List.forall_mem_cons.mp h
      rw [List.cons_append, execAlternative_of_passedOver hfirst, ih hbefore]

/-- A row always decides something. -/
theorem decides_execAlternative (limit : Nat) (state : State) (clauses : List Clause)
    (otherwise : Option (List Statement)) :
    Decides limit state clauses otherwise (execAlternative limit (alternativeOf clauses otherwise) state) := by
  induction clauses with
  | nil =>
      cases otherwise with
      | none =>
          rw [alternativeOf, execAlternative]
          exact .nothing (by simp)
      | some body =>
          rw [alternativeOf, execAlternative]
          exact .last (by simp)
  | cons clause clauses ih =>
      cases hvalue : clause.condition.eval state.environment with
      | error error =>
          rw [execAlternative_of_error hvalue]
          exact .failed [] (by simp) hvalue
      | ok value =>
          cases htruth : value.truth with
          | true =>
              rw [execAlternative_of_truth hvalue htruth]
              exact .chosen [] (by simp) hvalue htruth
          | false =>
              rw [execAlternative_of_passedOver ⟨value, hvalue, htruth⟩]
              exact ih.cons ⟨value, hvalue, htruth⟩

/-- And it decides one thing only. -/
theorem Decides.execAlternative_eq {outcome : Outcome} (h : Decides limit state clauses otherwise outcome) :
    execAlternative limit (alternativeOf clauses otherwise) state = outcome := by
  cases h with
  | failed _ hbefore herror => rw [execAlternative_append hbefore, execAlternative_of_error herror]
  | chosen _ hbefore hvalue htruth => rw [execAlternative_append hbefore, execAlternative_of_truth hvalue htruth]
  | last hclauses =>
      rw [← List.append_nil clauses, execAlternative_append hclauses, alternativeOf, execAlternative]
  | nothing hclauses =>
      rw [← List.append_nil clauses, execAlternative_append hclauses, alternativeOf, execAlternative]

/-- The nested conditional does what the row decides. -/
theorem exec_eq_iff_decides {statement : Statement} (h : alternativeOf clauses otherwise = some [statement])
    {outcome : Outcome} : statement.exec limit state = outcome ↔ Decides limit state clauses otherwise outcome := by
  have hexec : execAlternative limit (alternativeOf clauses otherwise) state = statement.exec limit state := by
    rw [h, execAlternative, execBlock_singleton]
  constructor
  · rintro rfl
    rw [← hexec]
    exact decides_execAlternative limit state clauses otherwise
  · intro hdecides
    rw [← hexec, hdecides.execAlternative_eq]

end

/-! ### The statements of a program -/

/-- The statement stands somewhere in the block, at any depth. -/
def Within (statement : Statement) (body : List Statement) : Prop :=
  ∃ first ∈ body, Relation.ReflTransGen (fun parent child : Node => child ∈ parent.children) (.ofStatement first)
    (.ofStatement statement)

theorem within_singleton (statement : Statement) : Within statement [statement] :=
  ⟨statement, List.mem_singleton_self statement, .refl⟩

theorem Within.mono {statement : Statement} {body more : List Statement} (h : Within statement body)
    (hmore : body ⊆ more) : Within statement more := by
  obtain ⟨first, hfirst, hdown⟩ := h
  exact ⟨first, hmore hfirst, hdown⟩

theorem Within.below {statement parent : Statement} {body : List Statement} (h : Within statement body)
    (hparent : body.map Node.ofStatement ⊆ (Node.ofStatement parent).children) : Within statement [parent] := by
  obtain ⟨first, hfirst, hdown⟩ := h
  exact ⟨parent, List.mem_singleton_self parent, .head (hparent (List.mem_map_of_mem hfirst)) hdown⟩

namespace Grammar

/-! ### The rows of a source -/

/-- The first of these tokens are a conditional without its keyword that stands in the block, and no clause follows. -/
def OpensAt (tokens : List Token) (body : List Statement) : Prop :=
  ∃ row rest statement levels, tokens = row ++ rest ∧ NoClause rest ∧ DerivesConditional row statement levels ∧
    Within statement body

theorem OpensAt.mono {tokens : List Token} {body more : List Statement} (h : OpensAt tokens body)
    (hmore : body ⊆ more) : OpensAt tokens more := by
  obtain ⟨row, rest, statement, levels, heq, hrest, hrow, hwithin⟩ := h
  exact ⟨row, rest, statement, levels, heq, hrest, hrow, hwithin.mono hmore⟩

theorem OpensAt.below {tokens : List Token} {parent : Statement} {body : List Statement} (h : OpensAt tokens body)
    (hparent : body.map Node.ofStatement ⊆ (Node.ofStatement parent).children) : OpensAt tokens [parent] := by
  obtain ⟨row, rest, statement, levels, heq, hrest, hrow, hwithin⟩ := h
  exact ⟨row, rest, statement, levels, heq, hrest, hrow, hwithin.below hparent⟩

section

variable {keyword token : Token} {after tokens rest : List Token} (hkeyword : keyword.kind = .ifWord)

include hkeyword

theorem suffix_of_cons (htoken : token.kind ≠ .ifWord) (h : keyword :: after <:+ token :: rest) :
    keyword :: after <:+ rest := by
  rcases List.suffix_cons_iff.mp h with heq | hrest
  · rw [← (List.cons.inj heq).1] at htoken
    exact absurd hkeyword htoken
  · exact hrest

theorem suffix_of_append (htokens : ∀ token ∈ tokens, token.kind ≠ .ifWord)
    (h : keyword :: after <:+ tokens ++ rest) : keyword :: after <:+ rest := by
  induction tokens with
  | nil => exact h
  | cons token tokens ih =>
      obtain ⟨htoken, htokens⟩ := List.forall_mem_cons.mp htokens
      exact ih htokens (suffix_of_cons hkeyword htoken h)

theorem DerivesExpr.suffix {tier : Tier} {expr : Expr} {levels : Nat} (hexpr : DerivesExpr tier tokens expr levels)
    (h : keyword :: after <:+ tokens ++ rest) : keyword :: after <:+ rest :=
  suffix_of_append hkeyword (fun token htoken hif => hexpr.not_isClauseWord token htoken (.inl hif)) h

end

-- By recursion on the derivation. The keyword is in what the phrase takes or in what it leaves over.
mutual

theorem DerivesStatement.opensAt {keyword : Token} (hkeyword : keyword.kind = .ifWord)
    {tokens rest after : List Token} {statement : Statement} {levels : Nat}
    (h : DerivesStatement tokens statement levels) (hends : Ends rest)
    (hsuffix : keyword :: after <:+ tokens ++ rest) :
    keyword :: after <:+ rest ∨ OpensAt after [statement] := by
  match h with
  | .assign hname hequals hvalue =>
      have hinside := suffix_of_cons hkeyword (by simp [hname]) hsuffix
      exact .inl (hvalue.suffix hkeyword (suffix_of_cons hkeyword (by simp [hequals]) hinside))
  | .print hword hopening hvalue hclosing =>
      rw [List.cons_append, List.cons_append, List.append_assoc] at hsuffix
      have hinside := suffix_of_cons hkeyword (by simp [hword]) hsuffix
      have hinside := suffix_of_cons hkeyword (by simp [hopening]) hinside
      exact .inl (suffix_of_cons hkeyword (by simp [hclosing]) (hvalue.suffix hkeyword hinside))
  | .ifElse hword hconditional =>
      rcases List.suffix_cons_iff.mp hsuffix with heq | hinside
      · exact .inr ⟨_, rest, statement, _, (List.cons.inj heq).2, hends.noClause, hconditional,
          within_singleton statement⟩
      · exact hconditional.opensAt hkeyword hends hinside
  | .whileLoop hword hcondition hbody =>
      rw [List.cons_append, List.append_assoc] at hsuffix
      have hinside := suffix_of_cons hkeyword (by simp [hword]) hsuffix
      exact (hbody.opensAt hkeyword (hcondition.suffix hkeyword hinside)).imp_right fun hopens =>
        hopens.below (by simp [Node.children])
  | @DerivesStatement.forRange word name inside range opening number closing _ _ _ _ hword hname hin hrange hopening
      hnumber _ hclosing hbody =>
      have hkinds : ∀ token ∈ [word, name, inside, range, opening, number, closing], token.kind ≠ .ifWord := by
        simp [hword, hname, hin, hrange, hopening, hnumber, hclosing]
      exact (hbody.opensAt hkeyword (suffix_of_append hkeyword hkinds hsuffix)).imp_right fun hopens =>
        hopens.below (by simp [Node.children])
termination_by structural h

theorem DerivesConditional.opensAt {keyword : Token} (hkeyword : keyword.kind = .ifWord)
    {tokens rest after : List Token} {statement : Statement} {levels : Nat}
    (h : DerivesConditional tokens statement levels) (hends : Ends rest)
    (hsuffix : keyword :: after <:+ tokens ++ rest) :
    keyword :: after <:+ rest ∨ OpensAt after [statement] := by
  match h with
  | .intro hcondition hbody halternative =>
      rw [List.append_assoc, List.append_assoc] at hsuffix
      rcases hbody.opensAt hkeyword (hcondition.suffix hkeyword hsuffix) with hinside | hopens
      · exact (halternative.opensAt hkeyword hends hinside).imp_right fun hopens =>
          hopens.below (by simp [Node.children])
      · exact .inr (hopens.below (by simp [Node.children]))
termination_by structural h

theorem DerivesAlternative.opensAt {keyword : Token} (hkeyword : keyword.kind = .ifWord)
    {tokens rest after : List Token} {alternative : Option (List Statement)} {levels : Nat}
    (h : DerivesAlternative tokens alternative levels) (hends : Ends rest)
    (hsuffix : keyword :: after <:+ tokens ++ rest) :
    keyword :: after <:+ rest ∨ OpensAt after (alternative.getD []) := by
  match h with
  | .absent => exact .inl hsuffix
  | .elseIf hword hconditional =>
      exact hconditional.opensAt hkeyword hends (suffix_of_cons hkeyword (by simp [hword]) hsuffix)
  | .elseBlock hword hbody =>
      exact hbody.opensAt hkeyword (suffix_of_cons hkeyword (by simp [hword]) hsuffix)
termination_by structural h

theorem DerivesBlock.opensAt {keyword : Token} (hkeyword : keyword.kind = .ifWord)
    {tokens rest after : List Token} {body : List Statement} {levels : Nat} (h : DerivesBlock tokens body levels)
    (hsuffix : keyword :: after <:+ tokens ++ rest) : keyword :: after <:+ rest ∨ OpensAt after body := by
  match h with
  | .intro hopening hbody hclosing =>
      rw [List.cons_append, List.append_assoc] at hsuffix
      have hinside := suffix_of_cons hkeyword (by simp [hopening]) hsuffix
      exact (hbody.opensAt hkeyword (blockEnds_cons hclosing rest).ends hinside).imp_left
        (suffix_of_cons hkeyword (by simp [hclosing]))
termination_by structural h

theorem DerivesStatements.opensAt {keyword : Token} (hkeyword : keyword.kind = .ifWord)
    {tokens rest after : List Token} {body : List Statement} {levels : Nat}
    (h : DerivesStatements tokens body levels) (hends : Ends rest)
    (hsuffix : keyword :: after <:+ tokens ++ rest) : keyword :: after <:+ rest ∨ OpensAt after body := by
  match h with
  | .nil => exact .inl hsuffix
  | .cons hfirst hstatements =>
      rw [List.append_assoc] at hsuffix
      have hmore := (hstatements.fits (Nat.le_refl _)).ends hends
      rcases hfirst.opensAt hkeyword hmore hsuffix with hinside | hopens
      · exact (hstatements.opensAt hkeyword hends hinside).imp_right fun hopens =>
          hopens.mono (List.subset_cons_self _ _)
      · exact .inr (hopens.mono (by simp))
termination_by structural h

end

/-- At the keyword begins a conditional with these clauses, and no other clause follows it. -/
def RowAt (keyword : Token) (after : List Token) (clauses : List Clause) (otherwise : Option (List Statement)) : Prop :=
  ∃ row rest, after = row ++ rest ∧ NoClause rest ∧ DerivesRow keyword.kind (keyword :: row) clauses otherwise

theorem RowAt.alternativeOf_eq {keyword : Token} {after row rest : List Token} {clauses : List Clause}
    {otherwise : Option (List Statement)} {statement : Statement} {levels : Nat}
    (h : RowAt keyword after clauses otherwise) (heq : after = row ++ rest) (hrest : NoClause rest)
    (hrow : DerivesConditional row statement levels) : alternativeOf clauses otherwise = some [statement] := by
  obtain ⟨row', rest', heq', hrest', hderives⟩ := h
  obtain ⟨_, _, statement', _, hcons, _, hrow', halternative⟩ := hderives.derivesConditional
  obtain ⟨_, rfl⟩ := List.cons.inj hcons
  obtain ⟨rfl, _⟩ := hrow.append_inj hrow' hrest hrest' (heq.symm.trans heq')
  rw [halternative, hrow.unique hrow' keyword]

end Grammar

open Grammar

/-- At every `if` of a source that is a program begins a row of clauses, which is nested to a statement of the program.
In every state it does what the row decides: the conditions are evaluated in order, the first one that fails ends the
statement with its error in the same state, the first one that holds has its block executed, and if none does the last
block is, if there is one. -/
theorem first_clause_decides {source : String} {program : Program} (hok : Program.ofSource source = .ok program)
    {before after : List Token} {keyword : Token}
    (htokens : withoutComments (tokensOf source) = before ++ keyword :: after) (hkeyword : keyword.kind = .ifWord) :
    (∃ clauses otherwise, RowAt keyword after clauses otherwise) ∧
    ∃ statement, Within statement program.statements ∧
      ∀ clauses otherwise, RowAt keyword after clauses otherwise →
        alternativeOf clauses otherwise = some [statement] ∧
        ∀ limit state outcome,
          statement.exec limit state = outcome ↔ Decides limit state clauses otherwise outcome := by
  have hread := (Program.ofSource_eq_ok_iff.mp hok).2
  obtain ⟨_, hderives, _⟩ := (fits_of_ofTokens hread).derives
  have hsuffix : keyword :: after <:+ withoutComments (tokensOf source) ++ [] := by
    rw [List.append_nil, htokens]
    exact List.suffix_append before _
  rcases hderives.opensAt hkeyword ends_nil hsuffix with hnil | ⟨row, rest, statement, _, rfl, hrest, hrow, hwithin⟩
  · simp at hnil
  · obtain ⟨clauses, otherwise, hclauses, _⟩ := hrow.exists_row keyword
    refine ⟨⟨clauses, otherwise, row, rest, rfl, hrest, hclauses⟩, statement, hwithin, ?_⟩
    intro clauses otherwise hat
    have hnested := hat.alternativeOf_eq rfl hrest hrow
    exact ⟨hnested, fun _ _ _ => exec_eq_iff_decides hnested⟩

/-- The second clause holds. It does not matter that the condition of the third one has no value, and the last block is
not executed. -/
theorem first_clause_decides_before_undefined :
    ∃ program statement,
      Program.ofSource "if 0\x7b\x7delseif 2\x7bprint(3)\x7delseif y\x7b\x7delse\x7bprint(4)\x7d" =
        .ok program ∧
      Within statement program.statements ∧
      ∀ limit state, statement.exec limit state = .done (state.emit (.int 3)) := by
  have hsource :
      Program.ofSource "if 0\x7b\x7delseif 2\x7bprint(3)\x7delseif y\x7b\x7delse\x7bprint(4)\x7d" =
        .ok ⟨[.ifElse (.literal (.int 0)) [] (some [.ifElse (.literal (.int 2)) [.print (.literal (.int 3))]
          (some [.ifElse (.var "y") [] (some [.print (.literal (.int 4))])])])]⟩ ∧
      withoutComments (tokensOf "if 0\x7b\x7delseif 2\x7bprint(3)\x7delseif y\x7b\x7delse\x7bprint(4)\x7d") =
        [⟨.ifWord, "if", ⟨1, 1, 0⟩⟩, ⟨.number, "0", ⟨1, 4, 3⟩⟩, ⟨.openBrace, "\x7b", ⟨1, 5, 4⟩⟩,
          ⟨.closeBrace, "\x7d", ⟨1, 6, 5⟩⟩, ⟨.elseifWord, "elseif", ⟨1, 7, 6⟩⟩, ⟨.number, "2", ⟨1, 14, 13⟩⟩,
          ⟨.openBrace, "\x7b", ⟨1, 15, 14⟩⟩, ⟨.printWord, "print", ⟨1, 16, 15⟩⟩, ⟨.openParen, "(", ⟨1, 21, 20⟩⟩,
          ⟨.number, "3", ⟨1, 22, 21⟩⟩, ⟨.closeParen, ")", ⟨1, 23, 22⟩⟩, ⟨.closeBrace, "\x7d", ⟨1, 24, 23⟩⟩,
          ⟨.elseifWord, "elseif", ⟨1, 25, 24⟩⟩, ⟨.identifier, "y", ⟨1, 32, 31⟩⟩, ⟨.openBrace, "\x7b", ⟨1, 33, 32⟩⟩,
          ⟨.closeBrace, "\x7d", ⟨1, 34, 33⟩⟩, ⟨.elseWord, "else", ⟨1, 35, 34⟩⟩, ⟨.openBrace, "\x7b", ⟨1, 39, 38⟩⟩,
          ⟨.printWord, "print", ⟨1, 40, 39⟩⟩, ⟨.openParen, "(", ⟨1, 45, 44⟩⟩, ⟨.number, "4", ⟨1, 46, 45⟩⟩,
          ⟨.closeParen, ")", ⟨1, 47, 46⟩⟩, ⟨.closeBrace, "\x7d", ⟨1, 48, 47⟩⟩] := by
    cbv
    exact ⟨rfl, trivial⟩
  obtain ⟨hok, htokens⟩ := hsource
  obtain ⟨_, statement, hwithin, hrows⟩ := first_clause_decides hok (htokens.trans (List.nil_append _).symm) rfl
  have hnumber {token : Token} {value : Value} (hkind : token.kind = .number)
      (hvalue : numberOf? token.text = some value) : DerivesExpr .comparison [token] (.literal value) 1 :=
    .single (.single (.single (.number hkind hvalue)))
  have hempty {opening closing : Token} (hopening : opening.kind = .openBrace) (hclosing : closing.kind = .closeBrace) :
      DerivesBlock [opening, closing] [] 0 := .intro hopening .nil hclosing
  have hprint {opening keyword paren token paren' closing : Token} {value : Value}
      (hopening : opening.kind = .openBrace) (hkeyword : keyword.kind = .printWord)
      (hparen : paren.kind = .openParen) (hkind : token.kind = .number)
      (hvalue : numberOf? token.text = some value) (hparen' : paren'.kind = .closeParen)
      (hclosing : closing.kind = .closeBrace) :
      DerivesBlock [opening, keyword, paren, token, paren', closing] [.print (.literal value)] 2 :=
    .intro hopening (.cons (.print hkeyword hparen (hnumber hkind hvalue) hparen') .nil) hclosing
  have hfirst : DerivesClause .ifWord (⟨.ifWord, "if", ⟨1, 1, 0⟩⟩ ::
      ([⟨.number, "0", ⟨1, 4, 3⟩⟩] ++ [⟨.openBrace, "\x7b", ⟨1, 5, 4⟩⟩, ⟨.closeBrace, "\x7d", ⟨1, 6, 5⟩⟩]))
      ⟨.literal (.int 0), []⟩ :=
    .intro rfl (hnumber rfl rfl) (hempty rfl rfl)
  have hsecond : DerivesClause .elseifWord (⟨.elseifWord, "elseif", ⟨1, 7, 6⟩⟩ ::
      ([⟨.number, "2", ⟨1, 14, 13⟩⟩] ++ [⟨.openBrace, "\x7b", ⟨1, 15, 14⟩⟩, ⟨.printWord, "print", ⟨1, 16, 15⟩⟩,
        ⟨.openParen, "(", ⟨1, 21, 20⟩⟩, ⟨.number, "3", ⟨1, 22, 21⟩⟩, ⟨.closeParen, ")", ⟨1, 23, 22⟩⟩,
        ⟨.closeBrace, "\x7d", ⟨1, 24, 23⟩⟩])) ⟨.literal (.int 2), [.print (.literal (.int 3))]⟩ :=
    .intro rfl (hnumber rfl rfl) (hprint rfl rfl rfl rfl rfl rfl rfl)
  have hthird : DerivesClause .elseifWord (⟨.elseifWord, "elseif", ⟨1, 25, 24⟩⟩ ::
      ([⟨.identifier, "y", ⟨1, 32, 31⟩⟩] ++ [⟨.openBrace, "\x7b", ⟨1, 33, 32⟩⟩, ⟨.closeBrace, "\x7d", ⟨1, 34, 33⟩⟩]))
      ⟨.var "y", []⟩ :=
    .intro rfl (.single (.single (.single (.var rfl)))) (hempty rfl rfl)
  have helse : DerivesElse (⟨.elseWord, "else", ⟨1, 35, 34⟩⟩ ::
      [⟨.openBrace, "\x7b", ⟨1, 39, 38⟩⟩, ⟨.printWord, "print", ⟨1, 40, 39⟩⟩, ⟨.openParen, "(", ⟨1, 45, 44⟩⟩,
        ⟨.number, "4", ⟨1, 46, 45⟩⟩, ⟨.closeParen, ")", ⟨1, 47, 46⟩⟩, ⟨.closeBrace, "\x7d", ⟨1, 48, 47⟩⟩])
      (some [.print (.literal (.int 4))]) :=
    .block rfl (hprint rfl rfl rfl rfl rfl rfl rfl)
  have hrow := DerivesRow.intro hfirst (.intro (.cons hsecond (.cons hthird .nil)) helse)
  have hdecides := (hrows _ _ ⟨_, [], (List.append_nil _).symm, blockEnds_nil.ends.noClause, hrow⟩).2
  refine ⟨_, statement, hok, hwithin, fun limit state => ?_⟩
  have hpassed : Clause.PassedOver state ⟨.literal (.int 0), []⟩ := ⟨.int 0, rfl, rfl⟩
  have hprinted : execBlock limit [.print (.literal (.int 3))] state = .done (state.emit (.int 3)) := by
    rw [execBlock_singleton, Statement.exec]
    rfl
  rw [hdecides, ← hprinted]
  exact .chosen [_] (List.forall_mem_singleton.mpr hpassed) rfl rfl

end ScriptLang
