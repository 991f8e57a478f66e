import ScriptLang.Proofs.Grammar.Placement
import ScriptLang.Proofs.Program.Concatenation
/-!
# Layout and comments do not matter

What a list of tokens is read as depends on the kinds and the texts of its tokens alone, and comments do not count.
Tokens may stand on any line and at any offset, with comments between any two of them. The program is the same, and
so is what is wrong if there is none; only the places that the error tells are those of the list itself, at the token
with the same index.
-/

namespace ScriptLang

/-- What counts of a token when it is read. -/
def Token.spelling (token : Token) : Kind × String := (token.kind, token.text)

theorem Token.forall₂_alike_iff {left right : List Token} :
    List.Forall₂ Token.Alike left right ↔ left.map spelling = right.map spelling := by
  have halike : Token.Alike = fun left right => left.spelling = right.spelling := by
    funext left right
    simp [Alike, spelling]
  rw [halike, ← List.forall₂_eq_eq_eq, List.forall₂_map_left_iff, List.forall₂_map_right_iff]

/-- Tokens of the same kind and text, with the same index in two lists. -/
def Token.SameIndex (left right : List Token) (token token' : Token) : Prop :=
  token.Alike token' ∧ ∃ index : Nat, left[index]? = some token ∧ right[index]? = some token'

theorem Token.forall₂_sameIndex {left right : List Token} (h : List.Forall₂ Token.Alike left right) :
    List.Forall₂ (Token.SameIndex left right) left right := by
  rw [List.forall₂_iff_get] at h ⊢
  refine ⟨h.1, fun index hleft hright => ⟨h.2 index hleft hright, index, ?_, ?_⟩⟩
  · exact List.getElem?_eq_getElem hleft
  · exact List.getElem?_eq_getElem hright

namespace Program

/-- The same program, or the same error about tokens that correspond. -/
inductive Agrees (same : Token → Token → Prop) : Except SyntaxError Program → Except SyntaxError Program → Prop
  | ok (program : Program) : Agrees same (.ok program) (.ok program)
  | error {left right : SyntaxError} (h : left.Corresponds same right) : Agrees same (.error left) (.error right)

theorem Agrees.ok_iff {same : Token → Token → Prop} {left right : Except SyntaxError Program}
    (h : Agrees same left right) (program : Program) : left = .ok program ↔ right = .ok program := by
  cases h with
  | ok => exact Iff.rfl
  | error => simp

theorem agrees_ofTokens {tokens tokens' : List Token}
    (h : List.Forall₂ Token.Alike (withoutComments tokens) (withoutComments tokens')) :
    Agrees (Token.SameIndex (withoutComments tokens) (withoutComments tokens')) (ofTokens tokens)
      (ofTokens tokens') := by
  have hanswers := Grammar.blind_program (fun _ _ hsame => hsame.1) _ _ #[] #[] (Token.forall₂_sameIndex h)
  simp only [ofTokens, readTokens, Grammar.Cursor.start]
  generalize Grammar.program ⟨withoutComments tokens, #[]⟩ = answer at hanswers ⊢
  generalize Grammar.program ⟨withoutComments tokens', #[]⟩ = answer' at hanswers ⊢
  cases hanswers with
  | ok hvalue _ =>
      subst hvalue
      exact .ok _
  | error herror _ => exact .error herror

/-- Two lists of tokens with the same kinds and texts, comments left out, are read as the same program or fail with
the same error, each at its own token of one index. So two sources with the same such tokens are the same program. -/
theorem spacing_and_comments_irrelevant :
    (∀ tokens tokens',
      (withoutComments tokens).map Token.spelling = (withoutComments tokens').map Token.spelling →
      Agrees (Token.SameIndex (withoutComments tokens) (withoutComments tokens')) (ofTokens tokens)
        (ofTokens tokens')) ∧
    ∀ source source', illegalCharactersOf source = [] → illegalCharactersOf source' = [] →
      (withoutComments (tokensOf source)).map Token.spelling =
        (withoutComments (tokensOf source')).map Token.spelling →
      ∀ program, ofSource source = .ok program ↔ ofSource source' = .ok program := by
  constructor
  · intro tokens tokens' hspelling
    exact agrees_ofTokens (Token.forall₂_alike_iff.mpr hspelling)
  · intro source source' hlegal hlegal' hspelling program
    have hagrees := agrees_ofTokens (Token.forall₂_alike_iff.mpr hspelling)
    rw [ofSource_eq_ok_iff, ofSource_eq_ok_iff, hagrees.ok_iff program]
    simp only [hlegal, hlegal']

theorem spacing_and_comments_irrelevant_for_header :
    ofSource "for i # rounds\n  in range # a whole number\n(2)\t\x7bprint(-i)\x7d" =
      .ok ⟨[.forRange "i" 2 [.print (.negate (.var "i"))]]⟩ := by
  have hsources :
      illegalCharactersOf "for i # rounds\n  in range # a whole number\n(2)\t\x7bprint(-i)\x7d" = [] ∧
      illegalCharactersOf "for i in range(2) \x7b print(- i) \x7d" = [] ∧
      (withoutComments (tokensOf "for i # rounds\n  in range # a whole number\n(2)\t\x7bprint(-i)\x7d")).map
          Token.spelling =
        (withoutComments (tokensOf "for i in range(2) \x7b print(- i) \x7d")).map Token.spelling ∧
      ofSource "for i in range(2) \x7b print(- i) \x7d" = .ok ⟨[.forRange "i" 2 [.print (.negate (.var "i"))]]⟩ := by
    cbv
  obtain ⟨hlegal, hlegal', hspelling, hplain⟩ := hsources
  exact (spacing_and_comments_irrelevant.2 _ _ hlegal hlegal' hspelling _).mpr hplain

end Program

end ScriptLang
