import Mathlib.Data.List.Forall2
import ScriptLang.Grammar.Expr
import ScriptLang.Proofs.Token.Scanning
/-!
# Laying out tokens

A text to be printed is a list of marks: blanks, lexemes, and places for floats. A float has many numerals,
so the numerals are given beside the marks and filled in one after another.

Scanning finds the lexemes of a layout again if none of them can grow into what follows. It is enough that a
delimiter follows: no lexeme goes on with a blank or a parenthesis, strings apart, and these end by
themselves. An opening parenthesis and a minus sign are never part of anything longer, so anything may follow
them. `Scans` says that a layout is found again, one mark at a time.
-/

namespace ScriptLang

/-- `[0-9]+\.[0-9]+` -/
def Pattern.fractional : Pattern := .seq digit.atLeastOne (.seq (.fixed ".") digit.atLeastOne)

/-- A numeral with a point that reads as the float. -/
structure Spells (value : Float) (numeral : String) : Prop where
  form : Pattern.fractional.Matches numeral.toList
  reads : readFloat? numeral.toList = some value

theorem Spells.matches_number {value : Float} {numeral : String} (h : Spells value numeral) :
    Pattern.number.Matches numeral.toList := by
  obtain ⟨whole, fraction, htext, hwhole, hfraction⟩ := Pattern.matches_seq_iff.mp h.form
  rw [htext]
  exact .seq hwhole (.left hfraction)

theorem Spells.numberOf? {value : Float} {numeral : String} (h : Spells value numeral) :
    Grammar.numberOf? numeral = some (.float value) := by
  obtain ⟨whole, _, htext, _, hfraction⟩ := Pattern.matches_seq_iff.mp h.form
  obtain ⟨_, fraction, rfl, hpoint, _⟩ := Pattern.matches_seq_iff.mp hfraction
  have hcontains : numeral.toList.contains '.' = true := by
    rw [htext, Pattern.matches_fixed_iff.mp hpoint]
    simp
  rw [Grammar.numberOf?, hcontains, h.reads]
  rfl

inductive Mark where
  | blank (char : Char)
  | lexeme (found : Lexeme)
  | float (value : Float)

namespace Mark

def fixed (kind : Kind) (text : String) : Mark := .lexeme ⟨kind, text.toList⟩

def float? : Mark → Option Float
  | .float value => some value
  | _ => none

/-- The text of a layout, with these numerals for its floats in order. -/
def fill : List Mark → List String → List Char
  | [], _ => []
  | .blank char :: marks, numerals => char :: fill marks numerals
  | .lexeme found :: marks, numerals => found.text ++ fill marks numerals
  | .float _ :: marks, numeral :: numerals => numeral.toList ++ fill marks numerals
  | .float _ :: marks, [] => fill marks []

/-- The text is laid out as the marks say, each float by some numeral of it. -/
inductive Spelled : List Mark → List Char → Prop
  | nil : Spelled [] []
  | blank {char : Char} {marks : List Mark} {text : List Char} (h : Spelled marks text) :
      Spelled (.blank char :: marks) (char :: text)
  | lexeme {found : Lexeme} {marks : List Mark} {text : List Char} (h : Spelled marks text) :
      Spelled (.lexeme found :: marks) (found.text ++ text)
  | float {value : Float} {numeral : String} {marks : List Mark} {text : List Char}
      (hspells : Spells value numeral) (h : Spelled marks text) :
      Spelled (.float value :: marks) (numeral.toList ++ text)

theorem spelled_fill {marks : List Mark} {numerals : List String}
    (h : List.Forall₂ Spells (marks.filterMap float?) numerals) : Spelled marks (fill marks numerals) := by
  induction marks generalizing numerals with
  | nil => exact .nil
  | cons mark marks ih =>
      cases mark with
      | blank char => exact .blank (ih h)
      | lexeme found => exact .lexeme (ih h)
      | float value =>
          obtain ⟨numeral, numerals, hspells, hrest, rfl⟩ := List.forall₂_cons_left_iff.mp h
          exact .float hspells (ih hrest)

theorem Spelled.append {before after : List Mark} {front back : List Char} (hfront : Spelled before front)
    (hback : Spelled after back) : Spelled (before ++ after) (front ++ back) := by
  induction hfront with
  | nil => exact hback
  | blank _ ih => exact .blank ih
  | lexeme _ ih =>
      rw [List.append_assoc]
      exact .lexeme ih
  | float hspells _ ih =>
      rw [List.append_assoc]
      exact .float hspells ih

theorem Spelled.of_append {before after : List Mark} {text : List Char} (h : Spelled (before ++ after) text) :
    ∃ front back, text = front ++ back ∧ Spelled before front ∧ Spelled after back := by
  induction before generalizing text with
  | nil => exact ⟨[], text, rfl, .nil, h⟩
  | cons mark before ih =>
      cases h with
      | blank h =>
          obtain ⟨front, back, rfl, hfront, hback⟩ := ih h
          exact ⟨_, back, rfl, .blank hfront, hback⟩
      | lexeme h =>
          obtain ⟨front, back, rfl, hfront, hback⟩ := ih h
          exact ⟨_, back, (List.append_assoc _ _ _).symm, .lexeme hfront, hback⟩
      | float hspells h =>
          obtain ⟨front, back, rfl, hfront, hback⟩ := ih h
          exact ⟨_, back, (List.append_assoc _ _ _).symm, .float hspells hfront, hback⟩

end Mark

/-! ### Delimiters -/

/-- The text is at its end or goes on with a delimiter. -/
def Delimited (text : List Char) : Prop :=
  ∀ char ∈ text.head?, char ∈ [' ', '\n', '(', ')']

/-- A layout whose text is delimited if what follows it is. -/
def Mark.Delimits : List Mark → Prop
  | [] => True
  | .blank char :: _ => char ∈ [' ', '\n']
  | .lexeme found :: _ => found.text ∈ [['('], [')']]
  | .float _ :: _ => False

theorem Mark.delimits_space (marks : List Mark) : Mark.Delimits (.blank ' ' :: marks) :=
  List.mem_cons_self

theorem Mark.delimits_newline (marks : List Mark) : Mark.Delimits (.blank '\n' :: marks) :=
  List.mem_cons_of_mem ' ' List.mem_cons_self

theorem Mark.delimits_openParen (marks : List Mark) : Mark.Delimits (.fixed .openParen "(" :: marks) :=
  List.mem_cons_self

theorem Mark.delimits_closeParen (marks : List Mark) : Mark.Delimits (.fixed .closeParen ")" :: marks) :=
  List.mem_cons_of_mem ['('] List.mem_cons_self

theorem Mark.Delimits.delimited {marks : List Mark} {text rest : List Char} (h : Mark.Delimits marks)
    (hspelled : Mark.Spelled marks text) (hrest : Delimited rest) : Delimited (text ++ rest) := by
  cases hspelled with
  | nil => exact hrest
  | @blank blank _ _ _ =>
      rintro char ⟨⟩
      exact List.mem_append_left ['(', ')'] h
  | @lexeme found _ _ _ =>
      have htext : found.text = ['('] ∨ found.text = [')'] := by simpa [Mark.Delimits] using h
      rcases htext with htext | htext <;>
      · rw [htext]
        rintro char ⟨⟩
        decide
  | float => exact h.elim

theorem Delimited.takeWhile_eq_nil {text : List Char} {condition : Char → Bool} (h : Delimited text)
    (hcondition : [' ', '\n', '(', ')'].any condition = false) : text.takeWhile condition = [] := by
  cases text with
  | nil => rfl
  | cons char rest => exact List.takeWhile_cons_of_neg (List.any_eq_false.mp hcondition char (h char rfl))

theorem Delimited.dropWhile_eq_self {text : List Char} {condition : Char → Bool} (h : Delimited text)
    (hcondition : [' ', '\n', '(', ')'].any condition = false) : text.dropWhile condition = text := by
  cases text with
  | nil => rfl
  | cons char rest => exact List.dropWhile_cons_of_neg (List.any_eq_false.mp hcondition char (h char rfl))

namespace Lexeme

/-! ### Lexemes before a delimiter -/

theorem atFront?_word {text rest : List Char} (hmatches : Pattern.identifier.Matches text)
    (hrest : Delimited rest) : atFront? (text ++ rest) = some ⟨Kind.ofWord (String.ofList text), text⟩ := by
  obtain ⟨first, more, rfl, hfirst, hmore⟩ := Pattern.matches_identifier_iff.mp hmatches
  have hpart : ∀ char ∈ first :: more, isWordPart char = true :=
    List.forall_mem_cons.mpr ⟨isWordPart_of_isWordStart hfirst, hmore⟩
  have htake : (first :: more ++ rest).takeWhile isWordPart = first :: more := by
    rw [List.takeWhile_append_of_pos hpart, hrest.takeWhile_eq_nil rfl, List.append_nil]
  rw [(covers_identifier hmatches (List.prefix_append _ rest)).1, word, htake]

theorem number_whole {whole rest : List Char} (hwhole : ∀ char ∈ whole, char.isDigit = true)
    (hrest : Delimited rest) : number (whole ++ rest) = ⟨.number, whole⟩ := by
  have htake : (whole ++ rest).takeWhile Char.isDigit = whole := by
    rw [List.takeWhile_append_of_pos hwhole, hrest.takeWhile_eq_nil rfl, List.append_nil]
  have hdrop : (whole ++ rest).dropWhile Char.isDigit = rest := by
    rw [List.dropWhile_append_of_pos hwhole, hrest.dropWhile_eq_self rfl]
  rw [number, htake, hdrop]
  split
  · exact absurd (hrest '.' rfl) (by decide)
  · rfl

theorem number_fraction {whole fraction rest : List Char} (hwhole : ∀ char ∈ whole, char.isDigit = true)
    (hne : fraction ≠ []) (hfraction : ∀ char ∈ fraction, char.isDigit = true) (hrest : Delimited rest) :
    number (whole ++ '.' :: fraction ++ rest) = ⟨.number, whole ++ '.' :: fraction⟩ := by
  obtain ⟨digit, more, rfl⟩ := List.exists_cons_of_ne_nil hne
  rw [List.forall_mem_cons] at hfraction
  have hmore : (more ++ rest).takeWhile Char.isDigit = more := by
    rw [List.takeWhile_append_of_pos hfraction.2, hrest.takeWhile_eq_nil rfl, List.append_nil]
  rw [List.append_assoc, List.cons_append, List.cons_append, number_fractional hwhole hfraction.1, hmore]

theorem atFront?_number {text rest : List Char} (hmatches : Pattern.number.Matches text)
    (hrest : Delimited rest) : atFront? (text ++ rest) = some ⟨.number, text⟩ := by
  rw [(covers_number hmatches (List.prefix_append text rest)).1]
  obtain ⟨whole, ⟨_, hwhole⟩, (rfl | ⟨fraction, ⟨hne, hfraction⟩, rfl⟩)⟩ :=
    Pattern.matches_number_iff.mp hmatches
  · rw [number_whole hwhole hrest]
  · rw [number_fraction hwhole hne hfraction hrest]

theorem atFront?_symbol {kind : Kind} {fixed : String} {rest : List Char} (hrule : (kind, fixed) ∈ Kind.symbols)
    (hrest : Delimited rest) : atFront? (fixed.toList ++ rest) = some ⟨kind, fixed.toList⟩ := by
  have hnil : ∀ rule ∈ Kind.symbols, atFront? (rule.2.toList ++ []) = some ⟨rule.1, rule.2.toList⟩ := by decide
  cases rest with
  | nil => exact hnil (kind, fixed) hrule
  | cons char rest =>
      have hchar := hrest char rfl
      simp only [Kind.symbols, List.mem_cons, Prod.mk.injEq, List.not_mem_nil, or_false] at hrule hchar
      rcases hrule with h | h | h | h | h | h | h | h | h | h | h | h | h | h | h | h | h | h | h | h | h <;>
      · obtain ⟨rfl, rfl⟩ := h
        rcases hchar with rfl | rfl | rfl | rfl <;> rfl

/-- A lexeme that can be printed: its kind admits it, and it is neither a comment nor a keyword in the place
of a name. -/
structure Printable (lexeme : Lexeme) : Prop where
  admitted : lexeme.kind.Admits lexeme.text
  noComment : lexeme.kind ≠ .comment
  noKeyword : lexeme.kind = .identifier → Kind.ofWord (String.ofList lexeme.text) = .identifier

theorem printable_fixed {kind : Kind} {fixed : String} (hrule : (kind, fixed) ∈ Kind.fixedRules) :
    Printable ⟨kind, fixed.toList⟩ := by
  have hall : ∀ rule ∈ Kind.fixedRules, rule.1 ≠ .comment ∧ rule.1 ≠ .identifier := by decide
  exact ⟨.fixed hrule, (hall _ hrule).1, fun hkind => absurd hkind (hall _ hrule).2⟩

theorem Printable.atFront? {lexeme : Lexeme} (h : Printable lexeme) {rest : List Char} (hrest : Delimited rest) :
    Lexeme.atFront? (lexeme.text ++ rest) = some lexeme := by
  obtain ⟨kind, text⟩ := lexeme
  cases h.admitted with
  | @fixed kind fixed hrule =>
      rcases List.mem_append.mp hrule with hsymbol | hkeyword
      · exact atFront?_symbol hsymbol hrest
      · have hfound := atFront?_word (matches_identifier_of_mem_keywords hkeyword) hrest
        rw [String.ofList_toList, ofWord_of_mem_keywords hkeyword] at hfound
        exact hfound
  | comment => exact absurd rfl h.noComment
  | number hmatches => exact atFront?_number hmatches hrest
  | string hmatches => exact covers_string hmatches (List.prefix_append text rest)
  | identifier hmatches => rw [atFront?_word hmatches hrest, h.noKeyword rfl]

end Lexeme

theorem Scanned.lexeme {lexeme : Lexeme} {rest : List Char} {position : Position} {tokens : List Token}
    {illegals : List IllegalCharacter} (hfound : Lexeme.atFront? (lexeme.text ++ rest) = some lexeme)
    (hrest : Scanned (position.after lexeme.text) rest tokens illegals) :
    Scanned position (lexeme.text ++ rest) (⟨lexeme.kind, String.ofList lexeme.text, position⟩ :: tokens)
      illegals := by
  have hmunch := Lexeme.munch_of_atFront? hfound
  exact .token (Lexeme.not_blank_of_admits hmunch.admitted) hmunch hrest

theorem Position.after_append (position : Position) (front back : List Char) :
    position.after (front ++ back) = (position.after front).after back :=
  List.foldl_append

/-! ### Scanning a layout -/

/-- Before this rest the text is scanned as tokens with a property, none of them a comment, and scanning goes
on with the rest. -/
def ScansBefore (rest : List Char) (position : Position) (text : List Char) (post : List Token → Prop) : Prop :=
  ∃ tokens, post tokens ∧ (∀ token ∈ tokens, token.kind ≠ .comment) ∧
    ∀ more illegals, Scanned (position.after text) rest more illegals →
      Scanned position (text ++ rest) (tokens ++ more) illegals

/-- Wherever the layout stands before a delimiter, it is scanned as tokens with a property. -/
def Scans (marks : List Mark) (post : List Token → Prop) : Prop :=
  ∀ text, Mark.Spelled marks text → ∀ position rest, Delimited rest → ScansBefore rest position text post

namespace Scans

theorem nil {post : List Token → Prop} (h : post []) : Scans [] post := by
  rintro text ⟨⟩ position rest _
  exact ⟨[], h, by simp, fun _ _ hmore => hmore⟩

theorem mono {marks : List Mark} {post weaker : List Token → Prop} (h : Scans marks post)
    (hpost : ∀ tokens, post tokens → weaker tokens) : Scans marks weaker := by
  intro text hspelled position rest hrest
  obtain ⟨tokens, htokens, hscan⟩ := h text hspelled position rest hrest
  exact ⟨tokens, hpost tokens htokens, hscan⟩

theorem blank {char : Char} {marks : List Mark} {post : List Token → Prop}
    (hchar : char ∈ [' ', '\t', '\r', '\n']) (h : Scans marks post) : Scans (.blank char :: marks) post := by
  rintro _ (_ | @⟨_, _, text, hspelled⟩) position rest hrest
  obtain ⟨tokens, htokens, hkinds, hscan⟩ := h text hspelled (position.advance char) rest hrest
  exact ⟨tokens, htokens, hkinds, fun more illegals hmore => .blank hchar (hscan more illegals hmore)⟩

/-- One lexeme in front of a layout, whatever makes scanning stop behind it. -/
theorem cons_of_found {lexeme : Lexeme} {marks : List Mark} {post : List Token → Prop} {text rest : List Char}
    (hcomment : lexeme.kind ≠ .comment)
    (hfound : Lexeme.atFront? (lexeme.text ++ (text ++ rest)) = some lexeme)
    (h : ∀ token : Token, token.kind = lexeme.kind → token.text = String.ofList lexeme.text →
      Scans marks fun tokens => post (token :: tokens))
    (hspelled : Mark.Spelled marks text) (position : Position) (hrest : Delimited rest) :
    ScansBefore rest position (lexeme.text ++ text) post := by
  have hmarks := h ⟨lexeme.kind, String.ofList lexeme.text, position⟩ rfl rfl
  obtain ⟨tokens, htokens, hkinds, hscan⟩ := hmarks text hspelled (position.after lexeme.text) rest hrest
  refine ⟨_ :: tokens, htokens, List.forall_mem_cons.mpr ⟨hcomment, hkinds⟩, fun more illegals hmore => ?_⟩
  rw [Position.after_append] at hmore
  rw [List.append_assoc]
  exact .lexeme hfound (hscan more illegals hmore)

theorem lexeme {found : Lexeme} {marks : List Mark} {post : List Token → Prop} (hfound : found.Printable)
    (hmarks : Mark.Delimits marks)
    (h : ∀ token : Token, token.kind = found.kind → token.text = String.ofList found.text →
      Scans marks fun tokens => post (token :: tokens)) : Scans (.lexeme found :: marks) post := by
  rintro _ (_ | _ | @⟨_, _, text, hspelled⟩) position rest hrest
  have hfront := hfound.atFront? (hmarks.delimited hspelled hrest)
  exact cons_of_found hfound.noComment hfront h hspelled position hrest

/-- A parenthesis that opens and a minus sign need no delimiter. -/
theorem opening {found : Lexeme} {marks : List Mark} {post : List Token → Prop}
    (hfound : found = ⟨.openParen, ['(']⟩ ∨ found = ⟨.minus, ['-']⟩)
    (h : ∀ token : Token, token.kind = found.kind → Scans marks fun tokens => post (token :: tokens)) :
    Scans (.lexeme found :: marks) post := by
  rintro _ (_ | _ | @⟨_, _, text, hspelled⟩) position rest hrest
  rcases hfound with rfl | rfl <;>
    exact cons_of_found (by decide) rfl (fun token hkind _ => h token hkind) hspelled position hrest

theorem float {value : Float} {marks : List Mark} {post : List Token → Prop} (hmarks : Mark.Delimits marks)
    (h : ∀ token : Token, token.kind = .number → Grammar.numberOf? token.text = some (.float value) →
      Scans marks fun tokens => post (token :: tokens)) : Scans (.float value :: marks) post := by
  rintro _ (_ | _ | _ | @⟨_, numeral, _, text, hspells, hspelled⟩) position rest hrest
  let found : Lexeme := ⟨.number, numeral.toList⟩
  have hfound : Lexeme.atFront? (found.text ++ (text ++ rest)) = some found :=
    Lexeme.atFront?_number hspells.matches_number (hmarks.delimited hspelled hrest)
  have hcomment : Kind.number ≠ .comment := by decide
  refine cons_of_found hcomment hfound (fun token hkind htext => h token hkind ?_) hspelled position hrest
  rw [htext, String.ofList_toList]
  exact hspells.numberOf?

theorem append {before after : List Mark} {middle post : List Token → Prop} (hbefore : Scans before middle)
    (hafter : Mark.Delimits after)
    (h : ∀ tokens, middle tokens → Scans after fun more => post (tokens ++ more)) :
    Scans (before ++ after) post := by
  intro text hspelled position rest hrest
  obtain ⟨front, back, rfl, hfront, hback⟩ := hspelled.of_append
  obtain ⟨tokens, htokens, hkinds, hscan⟩ :=
    hbefore front hfront position (back ++ rest) (hafter.delimited hback hrest)
  obtain ⟨more, hmore, hmoreKinds, hmoreScan⟩ := h tokens htokens back hback (position.after front) rest hrest
  refine ⟨tokens ++ more, hmore, List.forall_mem_append.mpr ⟨hkinds, hmoreKinds⟩, ?_⟩
  intro others illegals hothers
  rw [Position.after_append] at hothers
  rw [List.append_assoc, List.append_assoc]
  exact hscan _ _ (hmoreScan others illegals hothers)

/-- A layout that makes up a whole source. -/
theorem scan_eq_ok {marks : List Mark} {post : List Token → Prop} (h : Scans marks post) {source : String}
    (hsource : Mark.Spelled marks source.toList) :
    ∃ tokens, post tokens ∧ (∀ token ∈ tokens, token.kind ≠ .comment) ∧ scan source = .ok tokens := by
  obtain ⟨tokens, htokens, hkinds, hscan⟩ := h source.toList hsource Position.start [] (by rintro char ⟨⟩)
  have hscanned := hscan [] [] .done
  rw [List.append_nil, List.append_nil] at hscanned
  obtain ⟨hcutTokens, hcutIllegals⟩ := Piece.eq_cut_of_scanned hscanned
  have hillegals : illegalCharactersOf source = [] := hcutIllegals.symm
  refine ⟨tokens, htokens, hkinds, ?_⟩
  rw [scan, hillegals, hcutTokens]
  rfl

end Scans

end ScriptLang
