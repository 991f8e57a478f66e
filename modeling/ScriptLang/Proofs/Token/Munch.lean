import Mathlib.Data.List.TakeWhile
import ScriptLang.Proofs.Token.Pattern
/-!
# The token at the front of a text is the longest one

Two facts about `Lexeme.atFront?` carry this. What it finds is admitted by the rule of its kind; and whatever
text some rule admits at the front, what it finds is at least as long. The kinds split by their first
character, so the second fact is proved family by family: for symbols, comments, numbers, strings and words.
-/

namespace ScriptLang

/-- The text is the longest that some rule admits at the front, and its kind is that of the rule; a rule with
a fixed text goes before the others. -/
structure Munch (text : List Char) (kind : Kind) (taken : List Char) : Prop where
  nonempty : taken ≠ []
  front : taken <+: text
  admitted : kind.Admits taken
  longest : ∀ (other : Kind) (chars : List Char), other.Admits chars → chars <+: text → chars.length ≤ taken.length
  fixedFirst : ∀ other fixed, (other, fixed) ∈ Kind.fixedRules → fixed.toList = taken → other = kind

namespace Lexeme

/-! ### What is found is admitted -/

theorem isWordPart_of_isWordStart {char : Char} (h : isWordStart char = true) : isWordPart char = true := by
  rw [← Pattern.isWordStart_or_digit, h, Bool.true_or]

theorem ofWord_eq (word : String) : Kind.ofWord word = .identifier ∨ (Kind.ofWord word, word) ∈ Kind.keywords := by
  unfold Kind.ofWord
  split <;> simp [Kind.keywords]

theorem ofWord_of_mem_keywords {kind : Kind} {word : String} (h : (kind, word) ∈ Kind.keywords) :
    Kind.ofWord word = kind := by
  simp only [Kind.keywords, List.mem_cons, Prod.mk.injEq, List.not_mem_nil, or_false] at h
  rcases h with h | h | h | h | h | h | h | h | h | h | h <;>
  · rw [h.1, h.2]
    rfl

theorem symbol?_mem {text : List Char} {lexeme : Lexeme} (h : symbol? text = some lexeme) :
    (lexeme.kind, String.ofList lexeme.text) ∈ Kind.symbols ∧ lexeme.text <+: text := by
  unfold symbol? at h
  split at h <;> cases h <;> exact ⟨by decide, by simp⟩

theorem number_kind (text : List Char) : (number text).kind = .number := by
  unfold number
  dsimp only
  split
  · split <;> rfl
  · rfl

theorem matches_number {text : List Char} {first : Char} (hfirst : first ∈ text.head?)
    (hdigit : first.isDigit = true) :
    Pattern.number.Matches (number text).text ∧ (number text).text <+: text := by
  have hwhole : text.takeWhile Char.isDigit ≠ [] ∧
      ∀ char ∈ text.takeWhile Char.isDigit, char.isDigit = true := by
    refine ⟨?_, fun char hchar => List.mem_takeWhile_imp hchar⟩
    cases text with
    | nil => cases hfirst
    | cons head rest =>
        cases hfirst
        simp [hdigit]
  unfold number
  dsimp only
  split
  · rename_i digit rest hrest
    split
    · rename_i hdigit
      refine ⟨Pattern.matches_number_iff.mpr ⟨_, hwhole, .inr ⟨_, ⟨List.cons_ne_nil _ _, ?_⟩, rfl⟩⟩, ?_⟩
      · exact List.forall_mem_cons.mpr ⟨hdigit, fun char hchar => List.mem_takeWhile_imp hchar⟩
      · have hfraction : '.' :: digit :: rest.takeWhile Char.isDigit <+: text.dropWhile Char.isDigit := by
          rw [hrest, List.cons_prefix_cons, List.cons_prefix_cons]
          exact ⟨rfl, rfl, List.takeWhile_prefix _⟩
        calc
          _ <+: text.takeWhile Char.isDigit ++ text.dropWhile Char.isDigit :=
            (List.prefix_append_right_inj _).mpr hfraction
          _ = text := List.takeWhile_append_dropWhile
    · exact ⟨Pattern.matches_number_iff.mpr ⟨_, hwhole, .inl rfl⟩, List.takeWhile_prefix _⟩
  · exact ⟨Pattern.matches_number_iff.mpr ⟨_, hwhole, .inl rfl⟩, List.takeWhile_prefix _⟩

theorem matches_string {rest tail : List Char} (h : quotedTail? rest = some tail) :
    (∃ inner, tail = inner ++ ['"'] ∧ (Pattern.many .stringUnit).Matches inner) ∧ tail <+: rest := by
  fun_induction quotedTail? rest generalizing tail with
  | case1 => cases h
  | case2 rest =>
      cases h
      exact ⟨⟨[], rfl, .manyNil⟩, by simp⟩
  | case3 => cases h
  | case4 => cases h
  | case5 escaped rest hescaped ih =>
      obtain ⟨tail, htail, rfl⟩ := Option.map_eq_some_iff.mp h
      obtain ⟨⟨inner, rfl, hinner⟩, hfront⟩ := ih htail
      refine ⟨⟨'\\' :: escaped :: inner, rfl, ?_⟩, by simpa using hfront⟩
      exact .manyCons (Pattern.matches_stringUnit_iff.mpr (.inr ⟨escaped, rfl, hescaped⟩)) hinner
  | case6 char rest hquote hlast hescape ih =>
      have hbackslash : char ≠ '\\' := by
        intro heq
        cases rest with
        | nil => exact hlast heq rfl
        | cons escaped rest => exact hescape escaped rest heq rfl
      obtain ⟨tail, htail, rfl⟩ := Option.map_eq_some_iff.mp h
      obtain ⟨⟨inner, rfl, hinner⟩, hfront⟩ := ih htail
      refine ⟨⟨char :: inner, rfl, ?_⟩, by simpa using hfront⟩
      exact .manyCons (Pattern.matches_stringUnit_iff.mpr (.inl ⟨char, rfl, hquote, hbackslash⟩)) hinner

theorem admits_word {first : Char} {rest : List Char} (hfirst : isWordStart first = true) :
    (word (first :: rest)).kind.Admits (word (first :: rest)).text := by
  have hidentifier : Pattern.identifier.Matches (word (first :: rest)).text := by
    rw [Pattern.matches_identifier_iff, word, List.takeWhile_cons_of_pos (isWordPart_of_isWordStart hfirst)]
    exact ⟨first, _, rfl, hfirst, fun char hchar => List.mem_takeWhile_imp hchar⟩
  rcases ofWord_eq (String.ofList (word (first :: rest)).text) with hkind | hkeyword
  · rw [show (word (first :: rest)).kind = .identifier from hkind]
    exact .identifier hidentifier
  · have hadmits := Kind.Admits.fixed (List.mem_append_right Kind.symbols hkeyword)
    rw [String.toList_ofList] at hadmits
    exact hadmits

/-- What is found at the front of a text is there, and the rule of its kind admits it. -/
theorem admits_of_atFront? {text : List Char} {lexeme : Lexeme} (h : atFront? text = some lexeme) :
    lexeme.kind.Admits lexeme.text ∧ lexeme.text <+: text := by
  cases text with
  | nil => cases h
  | cons first rest =>
      rw [atFront?] at h
      split_ifs at h with hword hdigit hcomment hquote
      · cases h
        exact ⟨admits_word hword, List.takeWhile_prefix _⟩
      · cases h
        obtain ⟨hmatches, hfront⟩ := matches_number (List.head?_cons) hdigit
        rw [number_kind]
        exact ⟨.number hmatches, hfront⟩
      · cases h
        subst hcomment
        refine ⟨.comment (Pattern.matches_comment_iff.mpr ⟨rest.takeWhile (· ≠ '\n'), rfl, ?_⟩),
          List.takeWhile_prefix _⟩
        intro char hchar
        simpa using List.mem_takeWhile_imp hchar
      · obtain ⟨tail, htail, rfl⟩ := Option.map_eq_some_iff.mp h
        obtain ⟨⟨inner, rfl, hinner⟩, hfront⟩ := matches_string htail
        subst hquote
        refine ⟨.string (Pattern.matches_string_iff.mpr ⟨inner, rfl, hinner⟩), ?_⟩
        exact List.cons_prefix_cons.mpr ⟨rfl, hfront⟩
      · obtain ⟨hmem, hfront⟩ := symbol?_mem h
        have hadmits := Kind.Admits.fixed (List.mem_append_left Kind.keywords hmem)
        rw [String.toList_ofList] at hadmits
        exact ⟨hadmits, hfront⟩

/-! ### Whatever a rule admits is covered

For every family of kinds: if a rule admits some text at the front, then something is found there that is at
least as long. -/

theorem length_le_takeWhile {condition : Char → Bool} {chars text : List Char}
    (hall : ∀ char ∈ chars, condition char = true) (hfront : chars <+: text) :
    chars.length ≤ (text.takeWhile condition).length := by
  obtain ⟨more, rfl⟩ := hfront
  rw [List.takeWhile_append_of_pos hall, List.length_append]
  exact Nat.le_add_right _ _

theorem takeWhile_le_number (text : List Char) :
    (text.takeWhile Char.isDigit).length ≤ (number text).text.length := by
  unfold number
  dsimp only
  split
  · split <;> simp
  · exact Nat.le_refl _

theorem isWordStart_of_isDigit {char : Char} (h : char.isDigit = true) : isWordStart char = false := by
  have hdigit := Char.isDigit_iff_toNat.mp h
  -- Every letter stands above the last digit.
  have habove (low : Char) (hlow : '9'.toNat < low.toNat) : ¬low.val ≤ char.val := fun hle =>
    absurd (hlow.trans_le (UInt32.le_iff_toNat_le.mp hle)) (Nat.not_lt.mpr hdigit.2)
  have hupper : char.isUpper = false := decide_eq_false fun hle => habove 'A' (by decide) hle.1
  have hlower : char.isLower = false := by
    show (decide ('a'.val ≤ char.val) && decide (char.val ≤ 'z'.val)) = false
    rw [decide_eq_false (habove 'a' (by decide)), Bool.false_and]
  have hunderscore : char ≠ '_' := by
    rintro rfl
    exact absurd h (by decide)
  show (char.isUpper || char.isLower || char == '_') = false
  rw [hupper, hlower, beq_eq_false_iff_ne.mpr hunderscore]
  rfl

theorem covers_identifier {chars text : List Char} (hmatches : Pattern.identifier.Matches chars)
    (hfront : chars <+: text) :
    atFront? text = some (word text) ∧ chars.length ≤ (word text).text.length := by
  obtain ⟨first, rest, rfl, hfirst, hrest⟩ := Pattern.matches_identifier_iff.mp hmatches
  have hpart : ∀ char ∈ first :: rest, isWordPart char = true :=
    List.forall_mem_cons.mpr ⟨isWordPart_of_isWordStart hfirst, hrest⟩
  refine ⟨?_, length_le_takeWhile hpart hfront⟩
  obtain ⟨more, rfl⟩ := hfront
  exact if_pos hfirst

theorem covers_comment {chars text : List Char} (hmatches : Pattern.comment.Matches chars)
    (hfront : chars <+: text) :
    atFront? text = some (comment text) ∧ chars.length ≤ (comment text).text.length := by
  obtain ⟨rest, rfl, hrest⟩ := Pattern.matches_comment_iff.mp hmatches
  have hline : ∀ char ∈ '#' :: rest, decide (char ≠ '\n') = true := by
    intro char hchar
    rcases List.mem_cons.mp hchar with rfl | hchar
    · rfl
    · exact decide_eq_true (hrest char hchar)
  refine ⟨?_, length_le_takeWhile hline hfront⟩
  obtain ⟨more, rfl⟩ := hfront
  rfl

theorem number_fractional {whole rest : List Char} {digit : Char} (hwhole : ∀ char ∈ whole, char.isDigit = true)
    (hdigit : digit.isDigit = true) :
    number (whole ++ '.' :: digit :: rest) =
      ⟨.number, whole ++ '.' :: digit :: rest.takeWhile Char.isDigit⟩ := by
  have htake : (whole ++ '.' :: digit :: rest).takeWhile Char.isDigit = whole := by
    rw [List.takeWhile_append_of_pos hwhole]
    simp
  have hdrop : (whole ++ '.' :: digit :: rest).dropWhile Char.isDigit = '.' :: digit :: rest := by
    rw [List.dropWhile_append_of_pos hwhole]
    rfl
  rw [number, htake, hdrop]
  simp only [hdigit, if_true]

theorem covers_number {chars text : List Char} (hmatches : Pattern.number.Matches chars)
    (hfront : chars <+: text) :
    atFront? text = some (number text) ∧ chars.length ≤ (number text).text.length := by
  obtain ⟨whole, ⟨hne, hwhole⟩, hchars⟩ := Pattern.matches_number_iff.mp hmatches
  have hfound : atFront? text = some (number text) := by
    obtain ⟨first, rest, rfl⟩ := List.exists_cons_of_ne_nil hne
    have hfirst : first.isDigit = true := hwhole first List.mem_cons_self
    have htext : first :: rest <+: text := by
      rcases hchars with rfl | ⟨fraction, _, rfl⟩
      · exact hfront
      · exact (List.prefix_append _ _).trans hfront
    obtain ⟨more, rfl⟩ := htext
    rw [List.cons_append, atFront?, if_neg (by simp [isWordStart_of_isDigit hfirst]), if_pos hfirst]
  refine ⟨hfound, ?_⟩
  rcases hchars with rfl | ⟨fraction, ⟨hfractionNe, hfraction⟩, rfl⟩
  · exact (length_le_takeWhile hwhole hfront).trans (takeWhile_le_number text)
  · obtain ⟨more, rfl⟩ := hfront
    obtain ⟨digit, rest, rfl⟩ := List.exists_cons_of_ne_nil hfractionNe
    rw [List.forall_mem_cons] at hfraction
    rw [List.append_assoc, List.cons_append, List.cons_append, number_fractional hwhole hfraction.1]
    have hlength := length_le_takeWhile hfraction.2 (List.prefix_append rest more)
    simp only [List.length_append, List.length_cons]
    omega

theorem quotedTail?_of_matches {inner : List Char} (h : (Pattern.many .stringUnit).Matches inner)
    (more : List Char) : quotedTail? (inner ++ '"' :: more) = some (inner ++ ['"']) := by
  generalize hpattern : Pattern.many .stringUnit = pattern at h
  induction h with
  | manyNil => rfl
  | @manyCons item first rest hfirst _ _ ih =>
      cases hpattern
      rw [List.append_assoc]
      rcases Pattern.matches_stringUnit_iff.mp hfirst with ⟨char, rfl, hquote, hbackslash⟩ | ⟨char, rfl, hchar⟩
      · rw [List.singleton_append, quotedTail?, ih rfl]
        · rfl
        · exact hquote
        · exact fun heq _ => hbackslash heq
        · exact fun _ _ heq _ => hbackslash heq
      · rw [List.cons_append, List.singleton_append, quotedTail?, if_neg hchar, ih rfl]
        rfl
  | _ => cases hpattern

theorem covers_string {chars text : List Char} (hmatches : Pattern.string.Matches chars)
    (hfront : chars <+: text) : atFront? text = some ⟨.string, chars⟩ := by
  obtain ⟨inner, rfl, hinner⟩ := Pattern.matches_string_iff.mp hmatches
  obtain ⟨more, rfl⟩ := hfront
  have htail := quotedTail?_of_matches hinner more
  have hfound (rest : List Char) : atFront? ('"' :: rest) =
      (quotedTail? rest).map fun tail => ⟨.string, '"' :: tail⟩ := rfl
  rw [List.cons_append, List.append_assoc, List.singleton_append, hfound, htail]
  rfl

/-- The three symbols that an equals sign makes longer. -/
theorem covers_extendable {first : Char} {kind : Kind}
    (hfirst : (first, kind) ∈ [('=', Kind.assign), ('<', .less), ('>', .greater)]) (more : List Char) :
    ∃ lexeme, atFront? (first :: more) = some lexeme ∧ 1 ≤ lexeme.text.length ∧
      (1 = lexeme.text.length → lexeme.kind = kind) := by
  simp only [List.mem_cons, Prod.mk.injEq, List.not_mem_nil, or_false] at hfirst
  rcases more with _ | ⟨second, more⟩
  · rcases hfirst with ⟨rfl, rfl⟩ | ⟨rfl, rfl⟩ | ⟨rfl, rfl⟩ <;>
      exact ⟨_, rfl, Nat.le_refl _, fun _ => rfl⟩
  · by_cases hsecond : second = '='
    · subst hsecond
      rcases hfirst with ⟨rfl, rfl⟩ | ⟨rfl, rfl⟩ | ⟨rfl, rfl⟩ <;> exact ⟨_, rfl, by decide, by decide⟩
    · have hsymbol : atFront? (first :: second :: more) = some ⟨kind, [first]⟩ := by
        rcases hfirst with ⟨rfl, rfl⟩ | ⟨rfl, rfl⟩ | ⟨rfl, rfl⟩ <;>
        · change symbol? (_ :: second :: more) = _
          simp [symbol?, hsecond]
      exact ⟨_, hsymbol, Nat.le_refl _, fun _ => rfl⟩

theorem covers_symbol {kind : Kind} {fixed : String} {text : List Char} (hrule : (kind, fixed) ∈ Kind.symbols)
    (hfront : fixed.toList <+: text) :
    ∃ lexeme, atFront? text = some lexeme ∧ fixed.toList.length ≤ lexeme.text.length ∧
      (fixed.toList.length = lexeme.text.length → lexeme.kind = kind) := by
  obtain ⟨more, rfl⟩ := hfront
  simp only [Kind.symbols, List.mem_cons, Prod.mk.injEq, List.not_mem_nil, or_false] at hrule
  rcases hrule with h | h | h | h | h | h | h | h | h | h | h | h | h | h | h | h | h | h | h | h | h <;>
  · obtain ⟨rfl, rfl⟩ := h
    first
      | exact ⟨_, rfl, Nat.le_refl _, fun _ => rfl⟩
      | exact covers_extendable (by decide) more

theorem matches_identifier_of_mem_keywords {kind : Kind} {word : String} (h : (kind, word) ∈ Kind.keywords) :
    Pattern.identifier.Matches word.toList := by
  simp only [Kind.keywords, List.mem_cons, Prod.mk.injEq, List.not_mem_nil, or_false] at h
  rw [Pattern.matches_identifier_iff]
  rcases h with h | h | h | h | h | h | h | h | h | h | h <;>
  · rw [h.2]
    exact ⟨_, _, rfl, rfl, List.all_eq_true.mp rfl⟩

theorem eq_of_front_of_length {chars taken text : List Char} (hchars : chars <+: text)
    (htaken : taken <+: text) (hlength : chars.length = taken.length) : chars = taken :=
  (List.prefix_of_prefix_length_le hchars htaken (Nat.le_of_eq hlength)).eq_of_length hlength

/-- Whatever a rule admits at the front of a text, something at least as long is found there. If it is no
longer, it has the kind of the rule, except that a keyword is not an identifier. -/
theorem covers {kind : Kind} {chars text : List Char} (hadmits : kind.Admits chars) (hfront : chars <+: text) :
    ∃ lexeme, atFront? text = some lexeme ∧ chars.length ≤ lexeme.text.length ∧
      (chars.length = lexeme.text.length → lexeme.kind = kind ∨
        (kind = .identifier ∧ (lexeme.kind, String.ofList lexeme.text) ∈ Kind.fixedRules)) := by
  cases hadmits with
  | @fixed kind fixed hrule =>
      rcases List.mem_append.mp hrule with hsymbol | hkeyword
      · obtain ⟨lexeme, hfound, hlength, hkind⟩ := covers_symbol hsymbol hfront
        exact ⟨lexeme, hfound, hlength, fun heq => .inl (hkind heq)⟩
      · obtain ⟨hfound, hlength⟩ := covers_identifier (matches_identifier_of_mem_keywords hkeyword) hfront
        refine ⟨word text, hfound, hlength, fun heq => .inl ?_⟩
        have htext : fixed.toList = (word text).text :=
          eq_of_front_of_length hfront (List.takeWhile_prefix _) heq
        change Kind.ofWord (String.ofList (word text).text) = kind
        rw [← htext, String.ofList_toList]
        exact ofWord_of_mem_keywords hkeyword
  | comment hmatches =>
      obtain ⟨hfound, hlength⟩ := covers_comment hmatches hfront
      exact ⟨_, hfound, hlength, fun _ => .inl rfl⟩
  | number hmatches =>
      obtain ⟨hfound, hlength⟩ := covers_number hmatches hfront
      exact ⟨_, hfound, hlength, fun _ => .inl (number_kind text)⟩
  | string hmatches => exact ⟨_, covers_string hmatches hfront, Nat.le_refl _, fun _ => .inl rfl⟩
  | identifier hmatches =>
      obtain ⟨hfound, hlength⟩ := covers_identifier hmatches hfront
      refine ⟨word text, hfound, hlength, fun _ => ?_⟩
      rcases ofWord_eq (String.ofList (word text).text) with hkind | hkeyword
      · exact .inl hkind
      · exact .inr ⟨rfl, List.mem_append_right Kind.symbols hkeyword⟩

/-! ### The longest token -/

theorem ne_nil_of_admits {kind : Kind} {chars : List Char} (h : kind.Admits chars) : chars ≠ [] := by
  cases h with
  | @fixed kind fixed hrule =>
      have hall : ∀ rule ∈ Kind.fixedRules, rule.2.toList ≠ [] := by decide
      exact hall (kind, fixed) hrule
  | comment hmatches =>
      obtain ⟨rest, rfl, _⟩ := Pattern.matches_comment_iff.mp hmatches
      exact List.cons_ne_nil _ _
  | number hmatches =>
      obtain ⟨whole, ⟨hne, _⟩, (rfl | ⟨fraction, _, rfl⟩)⟩ := Pattern.matches_number_iff.mp hmatches
      · exact hne
      · simp
  | string hmatches =>
      obtain ⟨inner, rfl, _⟩ := Pattern.matches_string_iff.mp hmatches
      exact List.cons_ne_nil _ _
  | identifier hmatches =>
      obtain ⟨first, rest, rfl, _⟩ := Pattern.matches_identifier_iff.mp hmatches
      exact List.cons_ne_nil _ _

theorem munch_of_atFront? {text : List Char} {lexeme : Lexeme} (h : atFront? text = some lexeme) :
    Munch text lexeme.kind lexeme.text := by
  obtain ⟨hadmits, hfront⟩ := admits_of_atFront? h
  refine ⟨ne_nil_of_admits hadmits, hfront, hadmits, ?_, ?_⟩
  · intro other chars hother hchars
    obtain ⟨found, hfound, hlength, _⟩ := covers hother hchars
    obtain rfl : lexeme = found := Option.some.inj (h.symm.trans hfound)
    exact hlength
  · intro other fixed hrule htext
    obtain ⟨found, hfound, _, hkind⟩ := covers (.fixed hrule) (htext ▸ hfront)
    obtain rfl : lexeme = found := Option.some.inj (h.symm.trans hfound)
    rcases hkind (congrArg List.length htext) with hkind | ⟨rfl, _⟩
    · exact hkind.symm
    · have hall : ∀ rule ∈ Kind.fixedRules, rule.1 ≠ .identifier := by decide
      exact absurd rfl (hall _ hrule)

theorem atFront?_of_munch {text : List Char} {kind : Kind} {taken : List Char} (h : Munch text kind taken) :
    atFront? text = some ⟨kind, taken⟩ := by
  obtain ⟨⟨found, chars⟩, hfound, hlength, hkind⟩ := covers h.admitted h.front
  obtain ⟨hadmits, hfront⟩ := admits_of_atFront? hfound
  have heq : taken.length = chars.length := Nat.le_antisymm hlength (h.longest found chars hadmits hfront)
  obtain rfl : taken = chars := eq_of_front_of_length h.front hfront heq
  rcases hkind heq with rfl | ⟨rfl, hrule⟩
  · exact hfound
  · obtain rfl : found = .identifier := h.fixedFirst found _ hrule (String.toList_ofList)
    exact hfound

theorem atFront?_eq_none_iff {text : List Char} :
    atFront? text = none ↔ ∀ (kind : Kind) (chars : List Char), kind.Admits chars → ¬chars <+: text := by
  constructor
  · intro h kind chars hadmits hfront
    obtain ⟨lexeme, hfound, _⟩ := covers hadmits hfront
    rw [h] at hfound
    cases hfound
  · intro h
    cases hfound : atFront? text with
    | none => rfl
    | some lexeme =>
        obtain ⟨hadmits, hfront⟩ := admits_of_atFront? hfound
        exact absurd hfront (h lexeme.kind lexeme.text hadmits)

end Lexeme

end ScriptLang
