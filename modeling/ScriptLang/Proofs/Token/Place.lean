import Mathlib
import ScriptLang.Proofs.Token.Seam
import ScriptLang.Proofs.Token.Tiling
/-!
# Places tell the truth

Scanning never looks back: it keeps a place and moves it on over every character that it passes. What the place
says can be read off the source itself. The offset is the number of bytes in front of it, the line counts the line
breaks among them, and the column counts the characters behind the last one, whatever lies there: blanks, characters
of several bytes, illegal characters, or strings that go on over a line break.
-/

namespace ScriptLang

namespace Position

/-! ### The place behind a text -/

theorem line_advance (position : Position) (char : Char) :
    (position.advance char).line = position.line + [char].count '\n' := by
  unfold advance
  split
  · rename_i hchar
    rw [hchar, List.count_singleton_self]
  · rename_i hchar
    rw [List.count_eq_zero_of_not_mem (by simpa using Ne.symm hchar)]
    rfl

theorem line_after (position : Position) (text : List Char) :
    (position.after text).line = position.line + text.count '\n' := by
  induction text generalizing position with
  | nil => rfl
  | cons char rest ih =>
      show ((position.advance char).after rest).line = _
      rw [ih, line_advance, Nat.add_assoc, ← List.count_append]
      rfl

/-- The column starts afresh behind every line break. -/
theorem column_after (text : List Char) :
    (start.after text).column = 1 + (text.rtakeWhile (· ≠ '\n')).length := by
  induction text using List.reverseRecOn with
  | nil => rfl
  | append_singleton front char ih =>
      rw [after_append]
      show ((start.after front).advance char).column = _
      unfold advance
      split
      · rename_i hchar
        rw [List.rtakeWhile_concat_neg _ _ _ (by simpa using hchar)]
        rfl
      · rename_i hchar
        rw [List.rtakeWhile_concat_pos _ _ _ (by simpa using hchar), List.length_append]
        exact congrArg (· + 1) ih

/-! ### Places in a source -/

/-- The text stands in the source at this place. Its offset is a byte of the source where the text begins; in front of
this byte there is one line break less than the line says, and from the last of them, or from the start if there is
none, one character less than the column says. -/
structure IsTrue (source text : String) (position : Position) : Prop where
  stands : ∃ before after, source = before ++ text ++ after ∧ before.utf8ByteSize = position.offset
  line : ∀ before after, source = before ++ after → before.utf8ByteSize = position.offset →
    position.line = 1 + before.toList.count '\n'
  column : ∀ before after, source = before ++ after → before.utf8ByteSize = position.offset →
    position.column = 1 + (before.toList.rtakeWhile (· ≠ '\n')).length

end Position

/-- A byte splits a source in one way. -/
theorem eq_of_utf8ByteSize_eq {before before' after after' : String}
    (h : before ++ after = before' ++ after') (hsize : before.utf8ByteSize = before'.utf8ByteSize) :
    before = before' := by
  have hbytes : before.toByteArray ++ after.toByteArray = before'.toByteArray ++ after'.toByteArray := by
    rw [← String.toByteArray_append, ← String.toByteArray_append, h]
  apply String.toByteArray_inj.mp
  calc before.toByteArray
      = (before.toByteArray ++ after.toByteArray).extract 0 before.utf8ByteSize :=
        (ByteArray.extract_append_eq_left String.size_toByteArray.symm).symm
    _ = (before'.toByteArray ++ after'.toByteArray).extract 0 before'.utf8ByteSize := by rw [hbytes, hsize]
    _ = before'.toByteArray := ByteArray.extract_append_eq_left String.size_toByteArray.symm

/-- The place that is reached behind the text in front is a true one. -/
theorem Position.isTrue_after (before text after : String) :
    (start.after before.toList).IsTrue (before ++ text ++ after) text := by
  have hoffset : before.utf8ByteSize = (start.after before.toList).offset := by
    rw [offset_after, String.ofList_toList]
    exact (Nat.zero_add _).symm
  -- Whatever else ends at this byte is the same text.
  have hunique {other behind : String} (hsource : before ++ text ++ after = other ++ behind)
      (hsize : other.utf8ByteSize = (start.after before.toList).offset) : before = other := by
    rw [String.append_assoc] at hsource
    exact eq_of_utf8ByteSize_eq hsource (hoffset.trans hsize.symm)
  constructor
  case stands => exact ⟨before, after, rfl, hoffset⟩
  case line =>
    intro other behind hsource hsize
    obtain rfl := hunique hsource hsize
    exact line_after start before.toList
  case column =>
    intro other behind hsource hsize
    obtain rfl := hunique hsource hsize
    exact column_after before.toList

/-- The place that a piece knows of itself is true. -/
theorem isTrue_of_mem_pieces {source : String} {piece : Piece} {position : Position} (h : piece ∈ pieces source)
    (hposition : position ∈ piece.position?) : position.IsTrue source (String.ofList piece.text) := by
  obtain ⟨before, after, hpieces⟩ := List.append_of_mem h
  have hlaid := laid_pieces source
  rw [hpieces] at hlaid
  have hsource : source = String.ofList (before.flatMap Piece.text) ++ String.ofList piece.text ++
      String.ofList (after.flatMap Piece.text) := by
    have htext := Piece.flatMap_text_cut Position.start source.toList
    rw [← pieces, hpieces, List.flatMap_append, List.flatMap_cons] at htext
    apply String.toList_inj.mp
    rw [← htext]
    simp
  have htrue := Position.isTrue_after (String.ofList (before.flatMap Piece.text)) (String.ofList piece.text)
    (String.ofList (after.flatMap Piece.text))
  rw [← hsource, String.toList_ofList, ← hlaid.position_eq hposition] at htrue
  exact htrue

/-- Every token and every illegal character of a source stands where its place says. -/
theorem positions_isTrue (source : String) :
    (∀ token ∈ tokensOf source, token.position.IsTrue source token.text) ∧
      ∀ illegal ∈ illegalCharactersOf source, illegal.position.IsTrue source (String.singleton illegal.char) := by
  constructor
  · intro token htoken
    have htrue := isTrue_of_mem_pieces (mem_tokensOf_iff.mp htoken) rfl
    rw [Piece.text, String.ofList_toList] at htrue
    exact htrue
  · intro illegal hillegal
    have htrue := isTrue_of_mem_pieces (mem_illegalCharactersOf_iff.mp hillegal) rfl
    rw [Piece.text, ← String.singleton_eq_ofList] at htrue
    exact htrue

/-- Behind a character of two bytes, a carriage return and a string that goes on over a line break. -/
theorem positions_isTrue_behind_string :
    Position.IsTrue "é\r\"\n\"!x" "x" ⟨2, 3, 7⟩ ∧ Position.IsTrue "é\r\"\n\"!x" "!" ⟨2, 2, 6⟩ := by
  have hscan : tokensOf "é\r\"\n\"!x" = [⟨.string, "\"\n\"", ⟨1, 3, 3⟩⟩, ⟨.identifier, "x", ⟨2, 3, 7⟩⟩] ∧
      illegalCharactersOf "é\r\"\n\"!x" = [⟨'é', ⟨1, 1, 0⟩⟩, ⟨'!', ⟨2, 2, 6⟩⟩] := by
    cbv
  obtain ⟨htoken, hillegal⟩ := positions_isTrue "é\r\"\n\"!x"
  rw [hscan.1] at htoken
  rw [hscan.2] at hillegal
  exact ⟨htoken ⟨.identifier, "x", ⟨2, 3, 7⟩⟩ (by simp), hillegal ⟨'!', ⟨2, 2, 6⟩⟩ (by simp)⟩

/-! ### Behind a line break -/

/-- If nothing in a source is illegal, what follows it on a new line is scanned on its own. It has the same tokens and
illegal characters in the same columns, as many lines further down as the first source has, and behind its bytes and
the line break. -/
theorem scan_append_newline {source : String} (h : illegalCharactersOf source = []) (more : String) :
    let lines := source.toList.count '\n' + 1
    let bytes := source.utf8ByteSize + 1
    tokensOf (source ++ "\n" ++ more) = tokensOf source ++ (tokensOf more).map (Token.shift lines bytes) ∧
      illegalCharactersOf (source ++ "\n" ++ more) =
        (illegalCharactersOf more).map (IllegalCharacter.shift lines bytes) := by
  have hline : (Position.start.after source.toList).line = source.toList.count '\n' + 1 := by
    rw [Position.line_after]
    exact Nat.add_comm _ _
  have hoffset : (Position.start.after source.toList).offset = source.utf8ByteSize := by
    rw [Position.offset_after, String.ofList_toList]
    exact Nat.zero_add _
  intro lines bytes
  obtain ⟨htokens, hillegals⟩ := tokensOf_append_newline h more
  rw [hline, hoffset] at htokens hillegals
  exact ⟨htokens, hillegals⟩

/-- The first source ends with a comment, and a string in it goes on over a line break. -/
theorem scan_append_newline_quotation :
    illegalCharactersOf "s = \"é\n\" # c" = [] ∧
      tokensOf ("s = \"é\n\" # c" ++ "\n" ++ "!x") =
        tokensOf "s = \"é\n\" # c" ++ [⟨.identifier, "x", ⟨3, 2, 15⟩⟩] ∧
      illegalCharactersOf ("s = \"é\n\" # c" ++ "\n" ++ "!x") = [⟨'!', ⟨3, 1, 14⟩⟩] := by
  have hsources : illegalCharactersOf "s = \"é\n\" # c" = [] ∧
      tokensOf "!x" = [⟨.identifier, "x", ⟨1, 2, 1⟩⟩] ∧ illegalCharactersOf "!x" = [⟨'!', ⟨1, 1, 0⟩⟩] := by
    cbv
  obtain ⟨hlegal, htokens, hillegals⟩ := hsources
  have hscan := scan_append_newline hlegal "!x"
  rw [htokens, hillegals] at hscan
  exact ⟨hlegal, hscan⟩

end ScriptLang
