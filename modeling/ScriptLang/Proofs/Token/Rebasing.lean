import Mathlib
import ScriptLang.Proofs.Token.Place
/-!
# Scanning by bytes

Scanning can be told closer to the bytes of a source. A lexer runs over a text and counts the bytes that are behind it.
At an illegal character the lexer is given up, and a new one starts one character further on. It counts its bytes from
there, so the byte where it starts is its base. Lines and columns are not kept along the way. They are looked up: an
index has the byte where each line begins, a binary search finds the last of them that is not beyond the byte in
question, and the column counts the characters between the two.

Cutting a text at a byte inside of a character, and looking up an entry that an index does not have, give nothing. This
never happens, and the result is the one that scanning from left to right has.
-/

namespace ScriptLang

/-! ### Cutting at a byte -/

/-- The two sides of a byte, unless it is inside of a character or beyond the text. -/
def splitAtByte? : Nat → List Char → Option (List Char × List Char)
  | 0, text => some ([], text)
  | _ + 1, [] => none
  | byte + 1, char :: rest =>
    if char.utf8Size ≤ byte + 1 then
      (splitAtByte? (byte + 1 - char.utf8Size) rest).map fun (front, back) => (char :: front, back)
    else none

theorem splitAtByte?_append (front back : List Char) :
    splitAtByte? (String.ofList front).utf8ByteSize (front ++ back) = some (front, back) := by
  induction front with
  | nil => rw [String.ofList_nil, String.utf8ByteSize_empty, List.nil_append, splitAtByte?]
  | cons char front ih =>
      have hpos := char.utf8Size_pos
      obtain ⟨byte, hbyte⟩ : ∃ byte, (String.ofList (char :: front)).utf8ByteSize = byte + 1 :=
        Nat.exists_eq_add_one.mpr (by rw [utf8ByteSize_ofList_cons]; omega)
      rw [hbyte, List.cons_append, splitAtByte?, ← hbyte, utf8ByteSize_ofList_cons, if_pos (Nat.le_add_right _ _),
        Nat.add_sub_cancel_left, ih]
      rfl

theorem le_of_splitAtByte? {byte : Nat} {text : List Char} {sides : List Char × List Char}
    (h : splitAtByte? byte text = some sides) : byte ≤ (String.ofList text).utf8ByteSize := by
  induction text generalizing byte sides with
  | nil =>
      cases byte with
      | zero => exact Nat.zero_le _
      | succ byte => cases h
  | cons char rest ih =>
      cases byte with
      | zero => exact Nat.zero_le _
      | succ byte =>
          rw [splitAtByte?] at h
          split at h
          · obtain ⟨sides, hsides, -⟩ := Option.map_eq_some_iff.mp h
            have hle := ih hsides
            rw [utf8ByteSize_ofList_cons]
            omega
          · cases h

/-! ### Finding a place by halves -/

/-- Finds where the entries that hold end, between two places. -/
def bisect (entries : Array Nat) (holds : Nat → Bool) (low high : Nat) : Nat :=
  if low < high then
    let middle := (low + high) / 2
    if holds (entries.getD middle 0) then bisect entries holds (middle + 1) high else bisect entries holds low middle
  else low
termination_by high - low

/-- Everything below the lower place holds and nothing from the upper one on, so they meet where the entries change. -/
theorem bisect_eq {front back : List Nat} {holds : Nat → Bool} (hfront : ∀ entry ∈ front, holds entry = true)
    (hback : ∀ entry ∈ back, holds entry = false) {low high : Nat} (hlow : low ≤ front.length)
    (hhigh : front.length ≤ high) (hsize : high ≤ (front ++ back).length) :
    bisect (front ++ back).toArray holds low high = front.length := by
  have hentry {middle : Nat} (hmiddle : middle < (front ++ back).length) :
      holds ((front ++ back).toArray.getD middle 0) = true ↔ middle < front.length := by
    rw [Array.getD_eq_getD_getElem?, List.getElem?_toArray, List.getElem?_eq_getElem hmiddle, Option.getD_some,
      List.getElem_append]
    split_ifs with hlt
    · exact iff_of_true (hfront _ (List.getElem_mem hlt)) hlt
    · exact iff_of_false (by rw [hback _ (List.getElem_mem _)]; exact Bool.false_ne_true) hlt
  fun_induction bisect (front ++ back).toArray holds low high with
  | case1 low high hlt middle hholds ih =>
      rw [hentry (by omega)] at hholds
      exact ih (by omega) hhigh hsize
  | case2 low high hlt middle hholds ih =>
      rw [hentry (by omega)] at hholds
      exact ih hlow (by omega) (by omega)
  | case3 low high hlt => omega

/-! ### The index of lines -/

/-- Where the lines behind the first one begin, if the text itself begins at this byte. -/
def lineStartsBehind (byte : Nat) : List Char → List Nat
  | [] => []
  | char :: rest =>
    if char = '\n' then (byte + 1) :: lineStartsBehind (byte + char.utf8Size) rest
    else lineStartsBehind (byte + char.utf8Size) rest

theorem lineStartsBehind_append (byte : Nat) (front back : List Char) :
    lineStartsBehind byte (front ++ back) =
      lineStartsBehind byte front ++ lineStartsBehind (byte + (String.ofList front).utf8ByteSize) back := by
  induction front generalizing byte with
  | nil => simp [lineStartsBehind]
  | cons char front ih =>
      rw [List.cons_append, lineStartsBehind, lineStartsBehind, ih, utf8ByteSize_ofList_cons, Nat.add_assoc]
      split_ifs with hchar
      · rfl
      · rfl

theorem length_lineStartsBehind (byte : Nat) (text : List Char) :
    (lineStartsBehind byte text).length = text.count '\n' := by
  induction text generalizing byte with
  | nil => rfl
  | cons char rest ih =>
      rw [lineStartsBehind]
      split_ifs with hchar
      · rw [List.length_cons, ih, hchar, List.count_cons_self]
      · rw [ih, List.count_cons_of_ne hchar]

/-- A line begins behind the start of a text and not behind its end. -/
theorem lineStartsBehind_bounds {byte : Nat} {text : List Char} {start : Nat} (h : start ∈ lineStartsBehind byte text) :
    byte < start ∧ start ≤ byte + (String.ofList text).utf8ByteSize := by
  induction text generalizing byte with
  | nil => cases h
  | cons char rest ih =>
      have hpos := char.utf8Size_pos
      rw [lineStartsBehind] at h
      rw [utf8ByteSize_ofList_cons]
      split_ifs at h with hchar
      · rcases List.mem_cons.mp h with rfl | hmem
        · omega
        · have hbounds := ih hmem
          omega
      · have hbounds := ih h
        omega

/-- The last line that begins in a text begins behind its last line break. -/
theorem getLast_lineStarts (text : List Char) :
    (0 :: lineStartsBehind 0 text).getLast? =
      some (String.ofList (text.rdropWhile (· ≠ '\n'))).utf8ByteSize := by
  induction text using List.reverseRecOn with
  | nil => rfl
  | append_singleton front char ih =>
      rw [lineStartsBehind_append, lineStartsBehind, lineStartsBehind]
      split_ifs with hchar
      · rw [List.rdropWhile_concat_neg _ _ _ (by simpa using hchar), ← List.cons_append, List.getLast?_concat, hchar,
          String.ofList_append, String.utf8ByteSize_append, Nat.zero_add]
        rfl
      · rw [List.rdropWhile_concat_pos _ _ _ (by simpa using hchar), List.append_nil]
        exact ih

/-- A source with the bytes where its lines begin. -/
structure LineIndex where
  source : List Char
  starts : Array Nat

namespace LineIndex

def ofSource (source : List Char) : LineIndex :=
  ⟨source, (0 :: lineStartsBehind 0 source).toArray⟩

/-- The line and the column of a byte. -/
def locate? (index : LineIndex) (byte : Nat) : Option (Nat × Nat) :=
  match bisect index.starts (· ≤ byte) 0 index.starts.size with
  | 0 => none
  | line + 1 => do
    let lineStart ← index.starts[line]?
    let (_, fromLine) ← splitAtByte? lineStart index.source
    let (onLine, _) ← splitAtByte? (byte - lineStart) fromLine
    return (line + 1, onLine.length + 1)

/-- The search comes to the last line that begins in front of the byte. -/
theorem bisect_starts (before after : List Char) :
    bisect (ofSource (before ++ after)).starts (· ≤ (String.ofList before).utf8ByteSize) 0
        (ofSource (before ++ after)).starts.size = before.count '\n' + 1 := by
  rw [ofSource, lineStartsBehind_append, ← List.cons_append, List.size_toArray, bisect_eq]
  · rw [List.length_cons, length_lineStartsBehind]
  · intro start hstart
    rcases List.mem_cons.mp hstart with rfl | hmem
    · exact decide_eq_true (Nat.zero_le _)
    · have hbounds := lineStartsBehind_bounds hmem
      exact decide_eq_true (by omega)
  · intro start hstart
    have hbounds := lineStartsBehind_bounds hstart
    exact decide_eq_false (by omega)
  · exact Nat.zero_le _
  · rw [List.length_append]
    exact Nat.le_add_right _ _
  · exact Nat.le_refl _

theorem getElem?_starts (before after : List Char) :
    (ofSource (before ++ after)).starts[before.count '\n']? =
      some (String.ofList (before.rdropWhile (· ≠ '\n'))).utf8ByteSize := by
  rw [← getLast_lineStarts, ofSource, lineStartsBehind_append, ← List.cons_append, List.getElem?_toArray,
    List.getElem?_append_left (by rw [List.length_cons, length_lineStartsBehind]; omega), List.getLast?_eq_getElem?,
    List.length_cons, length_lineStartsBehind, Nat.add_sub_cancel]

theorem locate?_eq (before after : List Char) :
    (ofSource (before ++ after)).locate? (String.ofList before).utf8ByteSize =
      some ((Position.start.after before).line, (Position.start.after before).column) := by
  have hbefore : before.rdropWhile (· ≠ '\n') ++ before.rtakeWhile (· ≠ '\n') = before :=
    List.rdropWhile_append_rtakeWhile ..
  have hbytes : (String.ofList before).utf8ByteSize - (String.ofList (before.rdropWhile (· ≠ '\n'))).utf8ByteSize =
      (String.ofList (before.rtakeWhile (· ≠ '\n'))).utf8ByteSize := by
    nth_rewrite 1 [← hbefore]
    rw [String.ofList_append, String.utf8ByteSize_append, Nat.add_sub_cancel_left]
  have hsource : (ofSource (before ++ after)).source =
      before.rdropWhile (· ≠ '\n') ++ (before.rtakeWhile (· ≠ '\n') ++ after) := by
    rw [← List.append_assoc, hbefore, ofSource]
  rw [locate?, bisect_starts]
  simp only [getElem?_starts, hsource, splitAtByte?_append, hbytes, Option.bind_eq_bind, Option.bind_some]
  rw [Position.line_after, Position.column_after, Nat.add_comm 1, Nat.add_comm Position.start.line]
  rfl

end LineIndex

/-! ### The lexer and its restarts -/

/-- What a lexer has in front of it, and the bytes behind it. -/
structure Lexer where
  rest : List Char
  bytes : Nat

namespace Lexer

/-- Goes on over blanks to the next token or illegal character. Gives the byte where it begins, the token if there is
one, and the lexer behind it. -/
def next? : Lexer → Option (Nat × Option Lexeme × Lexer)
  | ⟨[], _⟩ => none
  | ⟨first :: rest, bytes⟩ =>
    if isBlank first then next? ⟨rest, bytes + first.utf8Size⟩
    else
      match Lexeme.atFront? (first :: rest) with
      | some lexeme =>
        some (bytes, some lexeme,
          ⟨rest.drop (lexeme.text.length - 1), bytes + (String.ofList lexeme.text).utf8ByteSize⟩)
      | none => some (bytes, none, ⟨rest, bytes + first.utf8Size⟩)
termination_by lexer => lexer.rest.length

theorem length_rest_lt_of_next? {lexer next : Lexer} {start : Nat} {found : Option Lexeme}
    (h : lexer.next? = some (start, found, next)) : next.rest.length < lexer.rest.length := by
  revert h
  fun_induction next? lexer with
  | case1 => nofun
  | case2 first rest bytes hblank ih =>
      intro h
      exact Nat.lt_succ_of_lt (ih h)
  | case3 first rest bytes hblank lexeme hfound =>
      rintro ⟨⟩
      exact Nat.lt_succ_of_le (List.drop_sublist _ _).length_le
  | case4 first rest bytes hblank hnone =>
      rintro ⟨⟩
      exact Nat.lt_succ_self _

end Lexer

/-- The tokens and the illegal characters that were found. -/
structure Lexed where
  tokens : Array Token
  illegals : Array IllegalCharacter

/-- Scans on with a lexer that has started at the base. -/
def Lexed.scanFrom (lines : LineIndex) (base : Nat) (lexer : Lexer) (lexed : Lexed) : Option Lexed :=
  match hnext : lexer.next? with
  | none => some lexed
  | some (start, some lexeme, next) => do
    have := Lexer.length_rest_lt_of_next? hnext
    let (line, column) ← lines.locate? (base + start)
    let token : Token := ⟨lexeme.kind, String.ofList lexeme.text, ⟨line, column, base + start⟩⟩
    scanFrom lines base next { lexed with tokens := lexed.tokens.push token }
  | some (start, none, _) =>
    match splitAtByte? (base + start) lines.source with
    | none => none
    | some (_, []) => some lexed
    | some (_, char :: _) =>
      -- The next lexer starts behind the illegal character.
      match hrestart : splitAtByte? (base + start + char.utf8Size) lines.source with
      | none => none
      | some (_, rest) => do
        have := le_of_splitAtByte? hrestart
        have := char.utf8Size_pos
        let (line, column) ← lines.locate? (base + start)
        let illegal : IllegalCharacter := ⟨char, ⟨line, column, base + start⟩⟩
        scanFrom lines (base + start + char.utf8Size) ⟨rest, 0⟩
          { lexed with illegals := lexed.illegals.push illegal }
termination_by ((String.ofList lines.source).utf8ByteSize - base, lexer.rest.length)

namespace Lexed

/-- The pieces of a source are added to what was found before. -/
def append (lexed : Lexed) (pieces : List Piece) : Lexed :=
  ⟨lexed.tokens ++ pieces.filterMap Piece.token?, lexed.illegals ++ pieces.filterMap Piece.illegal?⟩

section

variable {lines : LineIndex} {base : Nat} {lexer : Lexer} {lexed : Lexed}

theorem scanFrom_of_none (h : lexer.next? = none) : scanFrom lines base lexer lexed = some lexed := by
  rw [scanFrom]
  split
  next => rfl
  next hnext => cases h.symm.trans hnext
  next hnext => cases h.symm.trans hnext

theorem scanFrom_of_token {start line column : Nat} {lexeme : Lexeme} {next : Lexer}
    (h : lexer.next? = some (start, some lexeme, next)) (hplace : lines.locate? (base + start) = some (line, column)) :
    scanFrom lines base lexer lexed =
      scanFrom lines base next { lexed with
        tokens := lexed.tokens.push ⟨lexeme.kind, String.ofList lexeme.text, ⟨line, column, base + start⟩⟩ } := by
  rw [scanFrom]
  split
  next hnext => cases h.symm.trans hnext
  next hnext =>
    cases h.symm.trans hnext
    rw [hplace]
    rfl
  next hnext => cases h.symm.trans hnext

theorem scanFrom_of_illegal {start line column : Nat} {next : Lexer} {char : Char} {front front' rest rest' : List Char}
    (h : lexer.next? = some (start, none, next)) (hplace : lines.locate? (base + start) = some (line, column))
    (hchar : splitAtByte? (base + start) lines.source = some (front, char :: rest))
    (hrestart : splitAtByte? (base + start + char.utf8Size) lines.source = some (front', rest')) :
    scanFrom lines base lexer lexed =
      scanFrom lines (base + start + char.utf8Size) ⟨rest', 0⟩ { lexed with
        illegals := lexed.illegals.push ⟨char, ⟨line, column, base + start⟩⟩ } := by
  rw [scanFrom]
  split
  next hnext => cases h.symm.trans hnext
  next hnext => cases h.symm.trans hnext
  next hnext =>
    cases h.symm.trans hnext
    simp only [hchar]
    split
    next hnone => cases hrestart.symm.trans hnone
    next hsome =>
      cases hrestart.symm.trans hsome
      rw [hplace]
      rfl

end

theorem append_token (lexed : Lexed) (token : Token) (pieces : List Piece) :
    lexed.append (.token token :: pieces) = { lexed with tokens := lexed.tokens.push token }.append pieces := by
  simp [append, List.filterMap_cons, Piece.token?, Piece.illegal?]

theorem append_illegal (lexed : Lexed) (illegal : IllegalCharacter) (pieces : List Piece) :
    lexed.append (.illegal illegal :: pieces) =
      { lexed with illegals := lexed.illegals.push illegal }.append pieces := by
  simp [append, List.filterMap_cons, Piece.token?, Piece.illegal?]

end Lexed

/-! ### What the lexers find -/

/-- The text is the part of the source behind this place. -/
def Position.Precedes (position : Position) (source text : List Char) : Prop :=
  ∃ before, source = before ++ text ∧ position = start.after before

namespace Position.Precedes

variable {position : Position} {source text : List Char}

theorem behind {taken rest : List Char} (h : position.Precedes source (taken ++ rest)) :
    (position.after taken).Precedes source rest := by
  obtain ⟨before, rfl, rfl⟩ := h
  exact ⟨before ++ taken, (List.append_assoc ..).symm, (after_append ..).symm⟩

theorem splitAtByte?_eq (h : position.Precedes source text) :
    ∃ before, splitAtByte? position.offset source = some (before, text) := by
  obtain ⟨before, rfl, rfl⟩ := h
  refine ⟨before, ?_⟩
  rw [offset_after, start, Nat.zero_add, splitAtByte?_append]

theorem locate?_eq (h : position.Precedes source text) :
    (LineIndex.ofSource source).locate? position.offset = some (position.line, position.column) := by
  obtain ⟨before, rfl, rfl⟩ := h
  rw [← LineIndex.locate?_eq before text, offset_after, start, Nat.zero_add]

end Position.Precedes

/-- A lexer with some text in front of it finds the pieces of the text. -/
theorem Lexed.scanFrom_eq {source text : List Char} {position : Position} (hplace : position.Precedes source text)
    {base bytes : Nat} (hbytes : base + bytes = position.offset) {lexer : Lexer}
    (hlexer : lexer.next? = Lexer.next? ⟨text, bytes⟩) (lexed : Lexed) :
    scanFrom (.ofSource source) base lexer lexed = some (lexed.append (Piece.cut position text)) := by
  fun_induction Piece.cut position text generalizing base bytes lexer lexed with
  | case1 position =>
      rw [scanFrom_of_none (hlexer.trans (by rw [Lexer.next?])), append]
      simp
  | case2 position first rest hblank ih =>
      rw [Lexer.next?, if_pos hblank] at hlexer
      have hnext : (position.after [first]).Precedes source rest := hplace.behind
      rw [ih hnext (by rw [Position.offset_advance]; omega) hlexer]
      rfl
  | case3 position first rest hblank lexeme hfound ih =>
      rw [Lexer.next?, if_neg hblank, hfound] at hlexer
      have htext := (Piece.append_drop_of_atFront? hfound).2
      have hnext : (position.after lexeme.text).Precedes source (rest.drop (lexeme.text.length - 1)) :=
        (htext ▸ hplace).behind
      have hlocate := hplace.locate?_eq
      rw [← hbytes] at hlocate
      rw [scanFrom_of_token hlexer hlocate, hbytes, append_token]
      exact ih hnext (by rw [Position.offset_after]; omega) rfl _
  | case4 position first rest hblank hnone ih =>
      rw [Lexer.next?, if_neg hblank, hnone] at hlexer
      have hnext : (position.after [first]).Precedes source rest := hplace.behind
      obtain ⟨before, hchar⟩ := hplace.splitAtByte?_eq
      obtain ⟨before', hrestart⟩ := hnext.splitAtByte?_eq
      have hlocate := hplace.locate?_eq
      rw [← hbytes] at hlocate hchar
      have hoffset : (position.advance first).offset = base + bytes + first.utf8Size := by
        rw [Position.offset_advance, hbytes]
      rw [show (position.after [first]).offset = base + bytes + first.utf8Size from hoffset] at hrestart
      rw [scanFrom_of_illegal hlexer hlocate hchar hrestart, hbytes, append_illegal]
      exact ih hnext (by rw [hoffset, hbytes, Nat.add_zero]) rfl _

/-- Scans a source by its bytes. -/
def tokenize (source : String) : Option Lexed :=
  Lexed.scanFrom (.ofSource source.toList) 0 ⟨source.toList, 0⟩ ⟨#[], #[]⟩

/-- Scanning by bytes has the result of scanning from left to right: every restart begins in front of a character, and
every look-up of a line finds one. -/
theorem tokenize_eq (source : String) :
    tokenize source = some ⟨(tokensOf source).toArray, (illegalCharactersOf source).toArray⟩ := by
  have hstart : Position.start.Precedes source.toList source.toList := ⟨[], rfl, rfl⟩
  rw [tokenize, Lexed.scanFrom_eq hstart rfl rfl, Lexed.append]
  simp [tokensOf, illegalCharactersOf, pieces]

end ScriptLang
