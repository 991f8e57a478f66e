import Mathlib.Data.List.Pairwise
import ScriptLang.Proofs.Token.Munch
/-!
# The pieces of a source make it up

Scanning loses nothing and repeats nothing. The invariant of the scan is `Laid`: the pieces that it has cut lie
end to end from some place on, each token and each illegal character knows its own place, and no token is
empty. Where a piece stands is then the place behind the text of all pieces before it, and whatever else is
said about offsets follows from that.
-/

namespace ScriptLang

/-- The byte behind a token. -/
def Token.stop (token : Token) : Nat := token.position.offset + token.text.utf8ByteSize

/-- The byte behind an illegal character. -/
def IllegalCharacter.stop (illegal : IllegalCharacter) : Nat := illegal.position.offset + illegal.char.utf8Size

/-- The place that a piece knows of itself. -/
def Piece.position? : Piece → Option Position
  | .blank _ => none
  | .token found => some found.position
  | .illegal found => some found.position

/-- The pieces make up the source, and these are the tokens and illegal characters among them. -/
structure Tiling (source : String) (pieces : List Piece) (tokens : List Token)
    (illegals : List IllegalCharacter) : Prop where
  text : pieces.flatMap Piece.text = source.toList
  tokens_eq : pieces.filterMap Piece.token? = tokens
  illegals_eq : pieces.filterMap Piece.illegal? = illegals
  blanks : ∀ char, Piece.blank char ∈ pieces → char ∈ [' ', '\t', '\r', '\n']
  offsets : ∀ before piece after, pieces = before ++ piece :: after → ∀ position ∈ piece.position?,
    position.offset = (String.ofList (before.flatMap Piece.text)).utf8ByteSize
  nonempty : ∀ token ∈ tokens, token.text ≠ ""
  increasing : tokens.Pairwise fun first second => first.position.offset < second.position.offset
  disjoint : tokens.Pairwise fun first second => first.stop ≤ second.position.offset
  apart : ∀ token ∈ tokens, ∀ illegal ∈ illegals,
    token.stop ≤ illegal.position.offset ∨ illegal.stop ≤ token.position.offset
  slices : ∀ token ∈ tokens,
    source.toByteArray.extract token.position.offset token.stop = token.text.toByteArray

theorem Position.offset_advance (position : Position) (char : Char) :
    (position.advance char).offset = position.offset + char.utf8Size := by
  unfold Position.advance
  split <;> rfl

theorem utf8ByteSize_ofList_cons (char : Char) (rest : List Char) :
    (String.ofList (char :: rest)).utf8ByteSize = char.utf8Size + (String.ofList rest).utf8ByteSize := by
  rw [← List.singleton_append, String.ofList_append, String.utf8ByteSize_append, ← String.singleton_eq_ofList,
    String.utf8ByteSize_singleton]

theorem Position.offset_after (position : Position) (text : List Char) :
    (position.after text).offset = position.offset + (String.ofList text).utf8ByteSize := by
  induction text generalizing position with
  | nil => simp [Position.after]
  | cons char rest ih =>
      show ((position.advance char).after rest).offset = _
      rw [ih, Position.offset_advance, utf8ByteSize_ofList_cons, Nat.add_assoc]

namespace Piece

/-- From this place on the pieces lie end to end. -/
inductive Laid : Position → List Piece → Prop
  | nil {position : Position} : Laid position []
  | blank {position : Position} {char : Char} {pieces : List Piece} (hblank : char ∈ [' ', '\t', '\r', '\n'])
      (h : Laid (position.advance char) pieces) : Laid position (.blank char :: pieces)
  | token {kind : Kind} {text : String} {position : Position} {pieces : List Piece} (hne : text ≠ "")
      (h : Laid (position.after text.toList) pieces) : Laid position (.token ⟨kind, text, position⟩ :: pieces)
  | illegal {char : Char} {position : Position} {pieces : List Piece} (h : Laid (position.advance char) pieces) :
      Laid position (.illegal ⟨char, position⟩ :: pieces)

/-! ### The invariant holds of a scan -/

theorem append_drop_of_atFront? {first : Char} {rest : List Char} {lexeme : Lexeme}
    (h : Lexeme.atFront? (first :: rest) = some lexeme) :
    lexeme.text ≠ [] ∧ lexeme.text ++ rest.drop (lexeme.text.length - 1) = first :: rest := by
  obtain ⟨hne, ⟨more, hmore⟩, _⟩ := Lexeme.munch_of_atFront? h
  obtain ⟨char, chars, htext⟩ := List.exists_cons_of_ne_nil hne
  refine ⟨hne, ?_⟩
  rw [htext, List.cons_append, List.cons.injEq] at hmore
  rw [htext, ← hmore.1, ← hmore.2]
  simp

theorem laid_cut (position : Position) (text : List Char) : Laid position (cut position text) := by
  fun_induction cut position text with
  | case1 => exact .nil
  | case2 position first rest hblank ih =>
      apply Laid.blank _ ih
      simpa [isBlank, or_assoc] using hblank
  | case3 position first rest _ lexeme hfound ih =>
      have hne : String.ofList lexeme.text ≠ "" := by
        intro hempty
        exact (append_drop_of_atFront? hfound).1 (by simpa using congrArg String.toList hempty)
      apply Laid.token hne
      rw [String.toList_ofList]
      exact ih
  | case4 position first rest _ _ ih => exact .illegal ih

theorem flatMap_text_cut (position : Position) (text : List Char) :
    (cut position text).flatMap Piece.text = text := by
  fun_induction cut position text with
  | case1 => rfl
  | case2 position first rest _ ih => simp [Piece.text, ih]
  | case3 position first rest _ lexeme hfound ih =>
      rw [List.flatMap_cons, ih, Piece.text, String.toList_ofList]
      exact (append_drop_of_atFront? hfound).2
  | case4 position first rest _ _ ih => simp [Piece.text, ih]

/-! ### What follows from the invariant -/

theorem Laid.of_append {position : Position} {before after : List Piece} (h : Laid position (before ++ after)) :
    Laid (position.after (before.flatMap Piece.text)) after := by
  induction before generalizing position with
  | nil => exact h
  | cons piece before ih =>
      rw [List.flatMap_cons]
      unfold Position.after
      rw [List.foldl_append]
      cases h with
      | blank _ h => exact ih h
      | token _ h => exact ih h
      | illegal h => exact ih h

theorem Laid.position_eq {position place : Position} {before after : List Piece} {piece : Piece}
    (h : Laid position (before ++ piece :: after)) (hplace : place ∈ piece.position?) :
    place = position.after (before.flatMap Piece.text) := by
  cases h.of_append with
  | blank => cases hplace
  | token => exact (Option.some.inj hplace).symm
  | illegal => exact (Option.some.inj hplace).symm

theorem Laid.mem_blanks {position : Position} {pieces : List Piece} {char : Char} (h : Laid position pieces)
    (hmem : Piece.blank char ∈ pieces) : char ∈ [' ', '\t', '\r', '\n'] := by
  obtain ⟨before, after, rfl⟩ := List.append_of_mem hmem
  cases h.of_append with
  | blank hblank => exact hblank

theorem Laid.text_ne_empty {position : Position} {pieces : List Piece} {found : Token} (h : Laid position pieces)
    (hmem : Piece.token found ∈ pieces) : found.text ≠ "" := by
  obtain ⟨before, after, rfl⟩ := List.append_of_mem hmem
  cases h.of_append with
  | token hne => exact hne

/-- The byte behind a piece that knows its place. -/
def stop? : Piece → Option Nat
  | .blank _ => none
  | .token found => some found.stop
  | .illegal found => some found.stop

/-- One piece ends before the other begins. -/
def Precedes (first second : Piece) : Prop :=
  ∀ stop ∈ first.stop?, ∀ place ∈ second.position?, stop ≤ place.offset

theorem Laid.le_offset {position place : Position} {pieces : List Piece} {piece : Piece}
    (h : Laid position pieces) (hmem : piece ∈ pieces) (hplace : place ∈ piece.position?) :
    position.offset ≤ place.offset := by
  obtain ⟨before, after, rfl⟩ := List.append_of_mem hmem
  rw [h.position_eq hplace, Position.offset_after]
  exact Nat.le_add_right _ _

theorem Laid.pairwise_precedes {position : Position} {pieces : List Piece} (h : Laid position pieces) :
    pieces.Pairwise Precedes := by
  induction h with
  | nil => exact .nil
  | blank _ _ ih => exact .cons (fun _ _ _ hstop => by cases hstop) ih
  | @token kind text position pieces _ h ih =>
      apply List.Pairwise.cons _ ih
      rintro piece hmem _ ⟨⟩ place hplace
      have hle := h.le_offset hmem hplace
      rw [Position.offset_after, String.ofList_toList] at hle
      exact hle
  | @illegal char position pieces h ih =>
      apply List.Pairwise.cons _ ih
      rintro piece hmem _ ⟨⟩ place hplace
      have hle := h.le_offset hmem hplace
      rw [Position.offset_advance] at hle
      exact hle

theorem token?_eq_some_iff {piece : Piece} {found : Token} : piece.token? = some found ↔ piece = .token found := by
  cases piece <;> simp [token?]

theorem illegal?_eq_some_iff {piece : Piece} {found : IllegalCharacter} :
    piece.illegal? = some found ↔ piece = .illegal found := by
  cases piece <;> simp [illegal?]

end Piece

theorem mem_tokensOf_iff {source : String} {token : Token} :
    token ∈ tokensOf source ↔ .token token ∈ pieces source := by
  simp [tokensOf, Piece.token?_eq_some_iff]

theorem mem_illegalCharactersOf_iff {source : String} {illegal : IllegalCharacter} :
    illegal ∈ illegalCharactersOf source ↔ .illegal illegal ∈ pieces source := by
  simp [illegalCharactersOf, Piece.illegal?_eq_some_iff]

theorem laid_pieces (source : String) : Piece.Laid Position.start (pieces source) :=
  Piece.laid_cut Position.start source.toList

/-! ### Spans of bytes -/

theorem stop_le_of_tokensOf (source : String) :
    (tokensOf source).Pairwise fun first second => first.stop ≤ second.position.offset := by
  apply List.Pairwise.filterMap Piece.token? _ (laid_pieces source).pairwise_precedes
  intro first second hprecedes token htoken other hother
  rw [Piece.token?_eq_some_iff] at htoken hother
  subst htoken hother
  exact hprecedes token.stop rfl other.position rfl

theorem stop_le_or_stop_le {source : String} {token : Token} {illegal : IllegalCharacter}
    (htoken : token ∈ tokensOf source) (hillegal : illegal ∈ illegalCharactersOf source) :
    token.stop ≤ illegal.position.offset ∨ illegal.stop ≤ token.position.offset := by
  rw [mem_tokensOf_iff] at htoken
  rw [mem_illegalCharactersOf_iff] at hillegal
  -- Of two pieces one stands before the other, whichever it is.
  have hpairwise : (pieces source).Pairwise fun first second => first.Precedes second ∨ second.Precedes first :=
    (laid_pieces source).pairwise_precedes.imp Or.inl
  have hsymm : Std.Symm fun first second : Piece => first.Precedes second ∨ second.Precedes first :=
    ⟨fun _ _ => Or.symm⟩
  rcases hpairwise.forall htoken hillegal nofun with h | h
  · exact .inl (h token.stop rfl illegal.position rfl)
  · exact .inr (h illegal.stop rfl token.position rfl)

theorem extract_append (before text after : String) :
    (before ++ (text ++ after)).toByteArray.extract before.utf8ByteSize
      (before.utf8ByteSize + text.utf8ByteSize) = text.toByteArray := by
  have hempty : before.toByteArray.extract before.utf8ByteSize (before.utf8ByteSize + text.utf8ByteSize) =
      ByteArray.empty := by
    rw [ByteArray.extract_eq_empty_iff, String.size_toByteArray]
    omega
  rw [String.toByteArray_append, ByteArray.extract_append, hempty, ByteArray.empty_append, String.size_toByteArray,
    Nat.sub_self, Nat.add_sub_cancel_left, String.toByteArray_append]
  exact ByteArray.extract_append_eq_left String.size_toByteArray.symm

theorem offset_eq_of_pieces {source : String} {before after : List Piece} {piece : Piece} {position : Position}
    (hpieces : pieces source = before ++ piece :: after) (hposition : position ∈ piece.position?) :
    position.offset = (String.ofList (before.flatMap Piece.text)).utf8ByteSize := by
  have hlaid := laid_pieces source
  rw [hpieces] at hlaid
  rw [hlaid.position_eq hposition, Position.offset_after]
  exact Nat.zero_add _

theorem extract_of_mem_tokensOf {source : String} {token : Token} (h : token ∈ tokensOf source) :
    source.toByteArray.extract token.position.offset token.stop = token.text.toByteArray := by
  obtain ⟨before, after, hpieces⟩ := List.append_of_mem (mem_tokensOf_iff.mp h)
  have hsource : source = String.ofList (before.flatMap Piece.text) ++
      (token.text ++ String.ofList (after.flatMap Piece.text)) := by
    have htext := Piece.flatMap_text_cut Position.start source.toList
    rw [← pieces, hpieces, List.flatMap_append, List.flatMap_cons] at htext
    apply String.toList_inj.mp
    rw [← htext]
    simp [Piece.text]
  rw [Token.stop, offset_eq_of_pieces hpieces rfl, hsource]
  exact extract_append _ _ _

/-- Scanning loses nothing and repeats nothing: the pieces of a source make it up, and every token stands at the
bytes that its offset says. -/
theorem tiling_pieces (source : String) :
    Tiling source (pieces source) (tokensOf source) (illegalCharactersOf source) := by
  have hlaid := laid_pieces source
  have hnonempty : ∀ token ∈ tokensOf source, token.text ≠ "" := fun token htoken =>
    hlaid.text_ne_empty (mem_tokensOf_iff.mp htoken)
  constructor
  case text => exact Piece.flatMap_text_cut Position.start source.toList
  case tokens_eq => rfl
  case illegals_eq => rfl
  case blanks => exact fun char => hlaid.mem_blanks
  case offsets => exact fun before piece after hpieces position => offset_eq_of_pieces hpieces
  case nonempty => exact hnonempty
  case increasing =>
    apply (stop_le_of_tokensOf source).imp_of_mem
    intro first second hfirst _ hstop
    have hpos : first.text.utf8ByteSize ≠ 0 := mt String.utf8ByteSize_eq_zero_iff.mp (hnonempty first hfirst)
    unfold Token.stop at hstop
    omega
  case disjoint => exact stop_le_of_tokensOf source
  case apart => exact fun token htoken illegal => stop_le_or_stop_le htoken
  case slices => exact fun token => extract_of_mem_tokensOf

end ScriptLang
