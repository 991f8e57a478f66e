import ScriptLang.Proofs.Grammar.Completeness
import ScriptLang.Proofs.Program.Printing
/-!
# A printed program reads back

The layout of every construct is scanned as tokens that the grammar derives the construct from, with as many
levels as the layout nests. One lemma for each construct says so, and the recursion over the program puts them
together. What is derived within the limit is read, by the completeness of the grammar.
-/

namespace ScriptLang

open Grammar

/-! ### Expressions -/

/-- An expression may stand where a looser one is expected. -/
theorem Grammar.DerivesExpr.loosen {tier looser : Tier} {tokens : List Token} {expr : Expr} {levels : Nat}
    (h : DerivesExpr tier tokens expr levels) (hrank : tier.rank ≤ looser.rank) :
    DerivesExpr looser tokens expr levels := by
  cases tier <;> cases looser <;>
    first
      | exact h
      | exact .single h
      | exact .single (.single h)
      | exact .single (.single (.single h))
      | exact absurd hrank (by decide)

theorem Operator.kind_mem_fixedRules (operator : Operator) :
    (operator.kind, operator.symbol) ∈ Kind.fixedRules := by
  cases operator <;> decide

theorem IsName.printable {name : String} (h : IsName name) :
    Lexeme.Printable ⟨.identifier, name.toList⟩ := by
  refine ⟨.identifier h.word, nofun, fun _ => ?_⟩
  rw [String.ofList_toList]
  exact (Lexeme.ofWord_eq name).resolve_right fun hkeyword => h.noKeyword (List.mem_map_of_mem hkeyword)

theorem printable_digitsOf (value : Int64) : Lexeme.Printable ⟨.number, digitsOf value⟩ := by
  refine ⟨.number (Pattern.matches_number_iff.mpr ⟨_, ?_, .inl rfl⟩), nofun, nofun⟩
  exact Pattern.matches_digits_iff.mp (matches_digitsOf value)

theorem scans_fixed {kind : Kind} {text : String} {marks : List Mark} {post : List Token → Prop}
    (hrule : (kind, text) ∈ Kind.fixedRules) (hmarks : Mark.Delimits marks)
    (h : ∀ token : Token, token.kind = kind → Scans marks fun tokens => post (token :: tokens)) :
    Scans (.fixed kind text :: marks) post :=
  .lexeme (Lexeme.printable_fixed hrule) hmarks fun token hkind _ => h token hkind

theorem scans_name {name : String} {marks : List Mark} {post : List Token → Prop} (hname : IsName name)
    (hmarks : Mark.Delimits marks)
    (h : ∀ token : Token, token.kind = .identifier → token.text = name →
      Scans marks fun tokens => post (token :: tokens)) :
    Scans (.name name :: marks) post :=
  .lexeme hname.printable hmarks fun token hkind htext => h token hkind (by simpa using htext)

theorem scans_literal {value : Value} (h : (Expr.literal value).Printable) :
    Scans [value.mark] fun tokens => DerivesExpr .unary tokens (.literal value) 1 := by
  cases value with
  | int value =>
      refine .lexeme (printable_digitsOf value) trivial fun token hkind htext => .nil (.number hkind ?_)
      rw [htext]
      exact numberOf?_digitsOf h
  | float value => exact .float trivial fun token hkind hvalue => .nil (.number hkind hvalue)
  | bool value =>
      cases value <;>
      · refine .lexeme (Lexeme.printable_fixed (by decide)) trivial fun token hkind htext => .nil ?_
        have hderives := DerivesExpr.boolean hkind
        rw [htext] at hderives
        exact hderives
  | string text =>
      have hprintable : Lexeme.Printable ⟨.string, Escape.quoted text⟩ :=
        ⟨.string (Escape.matches_quoted text), nofun, nofun⟩
      refine .lexeme hprintable trivial fun token hkind htext => .nil ?_
      have hderives := DerivesExpr.string hkind
      rw [htext, literalText_quoted] at hderives
      exact hderives
  | null => exact scans_fixed (by decide) trivial fun token hkind => .nil (.null hkind)

theorem Expr.scans {expr : Expr} (h : expr.Printable) (tier : Tier) :
    Scans (expr.marks tier) fun tokens => DerivesExpr tier tokens expr (expr.levels tier) := by
  induction expr generalizing tier with
  | literal value => exact (scans_literal h).mono fun tokens hderives => hderives.loosen (Nat.zero_le _)
  | var name =>
      refine scans_name h trivial fun token hkind htext => .nil ?_
      subst htext
      exact (DerivesExpr.var hkind).loosen (Nat.zero_le _)
  | negate operand ih =>
      refine .opening (.inr rfl) fun minus hminus => (ih h .unary).mono fun tokens hoperand => ?_
      exact (DerivesExpr.negate hminus hoperand).loosen (Nat.zero_le _)
  | binary operator left right ihleft ihright =>
      have hinside : Scans (left.marks operator.binding ++
          .blank ' ' :: .fixed operator.kind operator.symbol :: .blank ' ' :: right.marks operator.binding.tighter)
          fun tokens => DerivesExpr operator.binding tokens (.binary operator left right)
            (max (left.levels operator.binding) (right.levels operator.binding.tighter) + 1) := by
        refine (ihleft h.1 operator.binding).append (Mark.delimits_space _) fun leftTokens hleft => ?_
        refine .blank (by decide) ?_
        refine scans_fixed operator.kind_mem_fixedRules (Mark.delimits_space _) fun token hkind => ?_
        refine .blank (by decide) ((ihright h.2 operator.binding.tighter).mono fun rightTokens hright => ?_)
        exact .binary hleft (hkind ▸ operator.mem_operators_binding) hright
      rw [marks, levels]
      by_cases hparens : tier.rank < operator.binding.rank
      · simp only [if_pos hparens]
        refine .opening (.inl rfl) fun opening hopening => ?_
        refine hinside.append (Mark.delimits_closeParen _) fun tokens htokens => ?_
        refine scans_fixed (by decide) trivial fun closing hclosing => .nil ?_
        have hcomparison : operator.binding.rank ≤ Tier.comparison.rank := by cases operator.binding <;> decide
        exact (DerivesExpr.parens hopening (htokens.loosen hcomparison) hclosing).loosen (Nat.zero_le _)
      · simp only [if_neg hparens]
        exact hinside.mono fun tokens htokens => htokens.loosen (Nat.le_of_not_lt hparens)

/-! ### Statements -/

theorem delimits_lineMarks_append (body : List Statement) {marks : List Mark} (h : Mark.Delimits marks) :
    Mark.Delimits (lineMarks body ++ marks) := by
  cases body with
  | nil => exact h
  | cons statement rest =>
      rw [lineMarks]
      exact Mark.delimits_newline _

theorem delimits_lineMarks (body : List Statement) : Mark.Delimits (lineMarks body) := by
  rw [← List.append_nil (lineMarks body)]
  exact delimits_lineMarks_append body trivial

theorem delimits_alternativeMarks (alternative : Option (List Statement)) :
    Mark.Delimits (alternativeMarks alternative) := by
  unfold alternativeMarks
  split
  · exact trivial
  · exact Mark.delimits_space _
  · exact Mark.delimits_space _

theorem scans_braces {body : List Statement} {levels : Nat}
    (h : Scans (lineMarks body) fun tokens => DerivesStatements tokens body levels) :
    Scans (Mark.braces (lineMarks body)) fun tokens => DerivesBlock tokens body levels := by
  have hlines := delimits_lineMarks_append body (Mark.delimits_newline [.fixed .closeBrace "\x7d"])
  refine scans_fixed (by decide) hlines fun opening hopening => ?_
  refine h.append (Mark.delimits_newline _) fun tokens hbody => .blank (by decide) ?_
  exact scans_fixed (by decide) trivial fun closing hclosing => .nil (.intro hopening hbody hclosing)

theorem scans_conditional {condition : Expr} {block rest : List Mark} {body : List Statement}
    {alternative : Option (List Statement)} {blockLevels restLevels : Nat} (hcondition : condition.Printable)
    (hblock : Scans block fun tokens => DerivesBlock tokens body blockLevels) (hrest : Mark.Delimits rest)
    (halternative : Scans rest fun tokens => DerivesAlternative tokens alternative restLevels) :
    Scans (Mark.conditional (condition.marks .comparison) block rest) fun tokens =>
      DerivesConditional tokens (.ifElse condition body alternative)
        (max (condition.levels .comparison) (max blockLevels restLevels) + 1) := by
  refine .blank (by decide) ?_
  refine (Expr.scans hcondition .comparison).append (Mark.delimits_space _) fun conditionTokens hexpr => ?_
  refine .blank (by decide) (hblock.append hrest fun bodyTokens hbody => ?_)
  exact halternative.mono fun tokens hmore => .intro hexpr hbody hmore

theorem scans_assign {name : String} {value : Expr} (hname : IsName name) (hvalue : value.Printable) :
    Scans (Statement.marks (.assign name value)) fun tokens =>
      DerivesStatement tokens (.assign name value) (value.levels .comparison + 1) := by
  refine scans_name hname (Mark.delimits_space _) fun target htarget htext => .blank (by decide) ?_
  subst htext
  refine scans_fixed (by decide) (Mark.delimits_space _) fun equals hequals => .blank (by decide) ?_
  exact (Expr.scans hvalue .comparison).mono fun tokens htokens => .assign htarget hequals htokens

theorem scans_print {value : Expr} (hvalue : value.Printable) :
    Scans (Statement.marks (.print value)) fun tokens =>
      DerivesStatement tokens (.print value) (value.levels .comparison + 1) := by
  refine scans_fixed (by decide) (Mark.delimits_openParen _) fun keyword hkeyword => ?_
  refine .opening (.inl rfl) fun opening hopening => ?_
  refine (Expr.scans hvalue .comparison).append (Mark.delimits_closeParen _) fun tokens htokens => ?_
  exact scans_fixed (by decide) trivial fun closing hclosing => .nil (.print hkeyword hopening htokens hclosing)

theorem scans_whileLoop {condition : Expr} {body : List Statement} {levels : Nat}
    (hcondition : condition.Printable)
    (hbody : Scans (lineMarks body) fun tokens => DerivesStatements tokens body levels) :
    Scans (Statement.marks (.whileLoop condition body)) fun tokens =>
      DerivesStatement tokens (.whileLoop condition body) (max (condition.levels .comparison) levels + 1) := by
  refine scans_fixed (by decide) (Mark.delimits_space _) fun keyword hkeyword => .blank (by decide) ?_
  refine (Expr.scans hcondition .comparison).append (Mark.delimits_space _) fun conditionTokens hexpr => ?_
  refine .blank (by decide) ((scans_braces hbody).mono fun bodyTokens hblock => ?_)
  exact .whileLoop hkeyword hexpr hblock

theorem scans_forRange {name : String} {count : Int64} {body : List Statement} {levels : Nat}
    (hname : IsName name) (hcount : 0 ≤ count.toInt)
    (hbody : Scans (lineMarks body) fun tokens => DerivesStatements tokens body levels) :
    Scans (Statement.marks (.forRange name count body)) fun tokens =>
      DerivesStatement tokens (.forRange name count body) (levels + 1) := by
  refine scans_fixed (by decide) (Mark.delimits_space _) fun keyword hkeyword => .blank (by decide) ?_
  refine scans_name hname (Mark.delimits_space _) fun counter hcounter htext => .blank (by decide) ?_
  subst htext
  refine scans_fixed (by decide) (Mark.delimits_space _) fun inside hinside => .blank (by decide) ?_
  refine scans_fixed (by decide) (Mark.delimits_openParen _) fun range hrange => ?_
  refine .opening (.inl rfl) fun opening hopening => ?_
  refine .lexeme (printable_digitsOf count) (Mark.delimits_closeParen _) fun number hnumber hdigits => ?_
  have hvalue : numberOf? number.text = some (.int count) := by
    rw [hdigits]
    exact numberOf?_digitsOf hcount
  refine scans_fixed (by decide) (Mark.delimits_space _) fun closing hclosing => .blank (by decide) ?_
  refine (scans_braces hbody).mono fun bodyTokens hblock => ?_
  exact .forRange hkeyword hcounter hinside hrange hopening hnumber hvalue hclosing hblock

/-! ### The recursion over a program -/

mutual

theorem Statement.scans : (statement : Statement) → statement.Printable →
    Scans statement.marks fun tokens => DerivesStatement tokens statement statement.levels
  | .assign _ _, h => scans_assign h.1 h.2
  | .print _, h => scans_print h
  | .ifElse _ body alternative, h => by
      have hblock := scans_braces (scans_lineMarks body h.2.1)
      have hrest := scans_alternativeMarks alternative h.2.2
      refine scans_fixed (by decide) (Mark.delimits_space _) fun keyword hkeyword => ?_
      refine (scans_conditional h.1 hblock (delimits_alternativeMarks _) hrest).mono fun tokens htokens => ?_
      exact .ifElse hkeyword htokens
  | .whileLoop _ body, h => scans_whileLoop h.1 (scans_lineMarks body h.2)
  | .forRange _ _ body, h => scans_forRange h.1 h.2.1 (scans_lineMarks body h.2.2)

theorem scans_lineMarks : (body : List Statement) → BlockPrintable body →
    Scans (lineMarks body) fun tokens => DerivesStatements tokens body (blockLevels body)
  | [], _ => .nil .nil
  | statement :: rest, h => by
      refine .blank (by decide) ?_
      refine (Statement.scans statement h.1).append (delimits_lineMarks rest) fun tokens hfirst => ?_
      exact (scans_lineMarks rest h.2).mono fun more hmore => .cons hfirst hmore

theorem scans_alternativeMarks : (alternative : Option (List Statement)) → AlternativePrintable alternative →
    Scans (alternativeMarks alternative) fun tokens =>
      DerivesAlternative tokens alternative (alternativeLevels alternative)
  | none, _ => .nil .absent
  | some body, h => by
      unfold alternativeMarks
      split
      · contradiction
      · rename_i condition body alternative heq
        cases heq
        have hblock := scans_braces (scans_lineMarks body h.1.2.1)
        have hrest := scans_alternativeMarks alternative h.1.2.2
        refine .blank (by decide) (scans_fixed (by decide) (Mark.delimits_space _) fun keyword hkeyword => ?_)
        refine (scans_conditional h.1.1 hblock (delimits_alternativeMarks _) hrest).mono fun tokens htokens => ?_
        rw [alternativeLevels, blockLevels, blockLevels, Nat.max_zero, Statement.levels]
        exact .elseIf hkeyword htokens
      · rename_i body _ heq
        cases heq
        refine .blank (by decide) (scans_fixed (by decide) (Mark.delimits_space _) fun keyword hkeyword => ?_)
        refine .blank (by decide) ((scans_braces (scans_lineMarks body h)).mono fun tokens htokens => ?_)
        exact .elseBlock hkeyword htokens

end

theorem Program.scans {program : Program} (h : program.Printable) :
    Scans program.marks fun tokens => DerivesProgram tokens program program.levels := by
  obtain ⟨statements⟩ := program
  cases statements with
  | nil => exact .nil .nil
  | cons first rest =>
      refine (Statement.scans first h.1).append (delimits_lineMarks rest) fun tokens hfirst => ?_
      exact (scans_lineMarks rest h.2).mono fun more hmore => .cons hfirst hmore

/-- A layout that derives a program within the limit is read as the program. -/
theorem Scans.ofSource_eq_ok {marks : List Mark} {program : Program} {levels : Nat}
    (h : Scans marks fun tokens => DerivesProgram tokens program levels) {source : String}
    (hsource : Mark.Spelled marks source.toList) (hlevels : levels ≤ levelLimit) :
    Program.ofSource source = .ok program := by
  obtain ⟨tokens, hderives, hkinds, hscan⟩ := h.scan_eq_ok hsource
  have hcomments : withoutComments tokens = tokens :=
    List.filter_eq_self.mpr fun token htoken => decide_eq_true (hkinds token htoken)
  have hread : Program.ofTokens tokens = .ok program :=
    DerivesProgram.ofTokens_eq_ok (hcomments.symm ▸ hderives) hlevels
  rw [Program.ofSource, hscan]
  simp only [hread]

/-- A program whose names, numbers and floats can be written reads back from its canonical text, as long as the
text nests no deeper than the limit. -/
theorem ofSource_text (program : Program) (numerals : List String) (hprintable : program.Printable)
    (hnumerals : List.Forall₂ Spells program.floats numerals) (hlevels : program.levels ≤ levelLimit) :
    Program.ofSource (program.text numerals) = .ok program := by
  have hspelled : Mark.Spelled program.marks (program.text numerals).toList := by
    rw [Program.text, String.toList_ofList]
    exact Mark.spelled_fill hnumerals
  exact (Program.scans hprintable).ofSource_eq_ok hspelled hlevels

/-- A right operand that keeps its parentheses, a sign before a numeral, a text with a quote, a backslash and a
line's end in it, and an `elseif`. -/
theorem ofSource_text_conditional :
    Program.ofSource
        "x = 1 - (y - -1.5)\nif x \x7b\nprint(\"a\\\"\\\\\n\")\n\x7d elseif true \x7b\n\x7d" =
      .ok ⟨[.assign "x" (.binary .subtract (.literal (.int 1))
          (.binary .subtract (.var "y") (.negate (.literal (.float (Decimal.nearest false ⟨15, -1⟩)))))),
        .ifElse (.var "x") [.print (.literal (.string "a\"\\\n"))]
          (some [.ifElse (.literal (.bool true)) [] none])]⟩ := by
  have hx : IsName "x" := ⟨Pattern.matches_identifier_iff.mpr ⟨'x', [], rfl, rfl, List.forall_mem_nil _⟩, by decide⟩
  have hy : IsName "y" := ⟨Pattern.matches_identifier_iff.mpr ⟨'y', [], rfl, rfl, List.forall_mem_nil _⟩, by decide⟩
  have hdigit (char : Char) (h : char.isDigit = true) : Pattern.digit.atLeastOne.Matches [char] :=
    Pattern.matches_digits_iff.mpr ⟨List.cons_ne_nil char [], List.forall_mem_singleton.mpr h⟩
  have hform : Pattern.fractional.Matches "1.5".toList := by
    refine Pattern.matches_seq_iff.mpr ⟨['1'], ['.', '5'], rfl, hdigit '1' rfl, ?_⟩
    exact Pattern.matches_seq_iff.mpr ⟨['.'], ['5'], rfl, .fixed, hdigit '5' rfl⟩
  have hnumeral : Spells (Decimal.nearest false ⟨15, -1⟩) "1.5" := ⟨hform, rfl⟩
  refine (congrArg Program.ofSource ?_).trans (ofSource_text _ ["1.5"] ?_ (.cons hnumeral .nil) (by decide))
  · decide +kernel
  · have hone : 0 ≤ (1 : Int64).toInt := by decide
    exact ⟨⟨hx, hone, hy, trivial⟩, ⟨hx, ⟨trivial, trivial⟩, ⟨trivial, trivial, trivial⟩, trivial⟩, trivial⟩

end ScriptLang
