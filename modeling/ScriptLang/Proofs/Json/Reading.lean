import Mathlib
import ScriptLang.Text.Escape
import ScriptLang.Proofs.Decimal.Layout
import ScriptLang.Proofs.Decimal.Shortest
/-!
# Reading JSON

A reader for documents that are written without any space. It gives back every document as it was written, which is
as it was but for the floats that are no finite numbers: they are all written as `null`. Numbers are told apart by
their spelling, since a float always has a point or an exponent and a whole number never has.
-/

namespace ScriptLang

namespace Json

/-! ### Texts -/

/-- What a backslash with this character stands for, if it needs no digits. -/
def unescaped? : Char → Option Char
  | '"' => some '"'
  | '\\' => some '\\'
  | 'b' => some '\x08'
  | 'f' => some '\x0c'
  | 'n' => some '\n'
  | 'r' => some '\r'
  | 't' => some '\t'
  | _ => none

/-- A text up to its closing quote, and what follows it. -/
def readText? : List Char → Option (List Char × List Char)
  | [] => none
  | '"' :: rest => some ([], rest)
  | '\\' :: 'u' :: '0' :: '0' :: high :: low :: rest =>
    (Escape.code? 16 [high, low]).bind fun code => (readText? rest).map (Prod.map (Char.ofNat code :: ·) id)
  | '\\' :: mark :: rest => (unescaped? mark).bind fun char => (readText? rest).map (Prod.map (char :: ·) id)
  | char :: rest => (readText? rest).map (Prod.map (char :: ·) id)

theorem code?_digitChar {n : Nat} (h : n < 32) :
    Escape.code? 16 [(n / 16).digitChar, (n % 16).digitChar] = some n := by
  revert n
  decide

theorem readText?_escape (char : Char) (rest : List Char) :
    readText? (escape char ++ rest) = (readText? rest).map (Prod.map (char :: ·) id) := by
  unfold escape
  split
  iterate 7
    · rw [List.cons_append, List.cons_append, List.nil_append, readText?]
      · rfl
      · nofun
  next hquote hbackslash _ _ _ _ _ =>
    split_ifs with hcontrol
    · show readText?
        ('\\' :: 'u' :: '0' :: '0' :: (char.toNat / 16).digitChar :: (char.toNat % 16).digitChar :: rest) = _
      rw [readText?, code?_digitChar hcontrol, Option.bind_some, Char.ofNat_toNat]
    · rw [List.singleton_append, readText?]
      · exact hquote
      · intro _ _ _ h
        exact (hbackslash h).elim
      · intro _ _ h
        exact (hbackslash h).elim

theorem readText?_escapes (text rest : List Char) :
    readText? (text.flatMap escape ++ '"' :: rest) = some (text, rest) := by
  induction text with
  | nil => rw [List.flatMap_nil, List.nil_append, readText?]
  | cons char text ih =>
      rw [List.flatMap_cons, List.append_assoc, readText?_escape, ih]
      rfl

/-! ### Numbers -/

/-- The characters that a number is written with. -/
def isNumberPart (char : Char) : Bool :=
  char.isDigit || char = '-' || char = '+' || char = '.' || char = 'e'

/-- A number with a point or an exponent is a float, and any other one is whole. -/
def readNumber? (text : List Char) : Option Json :=
  if text.any fun char => char = '.' || char = 'e' then
    let (negative, numeral) := splitSign text
    (Decimal.readNumeral? numeral).map fun d => .float (d.nearest negative)
  else (readInt? text).map .int

theorem isNumberPart_of_isDigit {char : Char} (h : char.isDigit = true) : isNumberPart char = true := by
  simp [isNumberPart, h]

/-- A numeral starts with digits, and a point or an exponent follows them. -/
theorem numeral_eq_append (d : Decimal) : ∃ whole mark tail, numeral d = whole ++ mark :: tail ∧
    (whole ≠ [] ∧ ∀ char ∈ whole, char.isDigit = true) ∧ (mark = '.' ∨ mark = 'e') ∧
    ∀ char ∈ tail, isNumberPart char = true := by
  unfold numeral
  split_ifs with hplain hexponent
  · exact ⟨d.positional, '.', ['0'], rfl, (d.positional_eq_whole hexponent).1, .inl rfl, by simp [isNumberPart]⟩
  · obtain ⟨whole, fraction, hlayout, hwhole, hfraction, -⟩ := d.positional_eq_point (not_le.mp hexponent)
    exact ⟨whole, '.', fraction, hlayout, hwhole, .inl rfl, fun char h => isNumberPart_of_isDigit (hfraction char h)⟩
  · have hpower : ∀ char ∈ (if d.leadingPower < 0 then '-' else '+') :: Nat.toDigits 10 d.leadingPower.natAbs,
        isNumberPart char = true := by
      refine List.forall_mem_cons.mpr ⟨?_, fun char h => isNumberPart_of_isDigit (isDigit_of_mem_toDigits h)⟩
      split_ifs <;> rfl
    rw [Decimal.scientific]
    split
    · rw [List.append_nil]
      exact ⟨_, 'e', _, rfl, d.take_digits one_ne_zero, .inr rfl, hpower⟩
    · rw [List.append_assoc, List.cons_append]
      refine ⟨d.digits.take 1, '.', _, rfl, d.take_digits one_ne_zero, .inl rfl, fun char hchar => ?_⟩
      rcases List.mem_append.mp hchar with hdigit | hmark
      · exact isNumberPart_of_isDigit (d.isDigit_of_mem_digits (List.mem_of_mem_drop hdigit))
      · rcases List.mem_cons.mp hmark with rfl | hchar
        · rfl
        · exact hpower char hchar

theorem mem_repr {n : Int} {char : Char} (h : char ∈ n.repr.toList) : char = '-' ∨ char.isDigit = true := by
  rw [Int.repr_eq_if] at h
  split_ifs at h
  · rw [Nat.toList_repr] at h
    exact .inr (isDigit_of_mem_toDigits h)
  · rw [String.toList_append, Nat.toList_repr] at h
    exact (List.mem_cons.mp h).imp_right isDigit_of_mem_toDigits

theorem readNumber?_repr (n : Int) : readNumber? n.repr.toList = some (.int n) := by
  have hwhole : ¬n.repr.toList.any (fun char => char = '.' || char = 'e') = true := by
    rw [List.any_eq_true]
    rintro ⟨char, hchar, hmark⟩
    rcases mem_repr hchar with rfl | hdigit
    · exact absurd hmark (by decide)
    · rw [Bool.or_eq_true, decide_eq_true_eq, decide_eq_true_eq] at hmark
      rcases hmark with rfl | rfl <;> exact absurd hdigit (by decide)
  rw [readNumber?, if_neg hwhole, readInt?_repr, Option.map_some]

theorem isNumberPart_of_mem_numeral {d : Decimal} {char : Char} (h : char ∈ numeral d) :
    isNumberPart char = true := by
  obtain ⟨whole, mark, tail, hnumeral, hwhole, hmark, htail⟩ := numeral_eq_append d
  rw [hnumeral, List.mem_append, List.mem_cons] at h
  rcases h with hchar | rfl | hchar
  · exact isNumberPart_of_isDigit (hwhole.2 char hchar)
  · rcases hmark with rfl | rfl <;> rfl
  · exact htail char hchar

/-- The text of a finite float, with its sign. -/
theorem toList_renderFloat {x : Float} {negative : Bool} {significand shift : Nat}
    (hx : Binary64.ofFloat x = .finite negative significand shift) :
    (renderFloat x).toList =
      (if negative then ['-'] else []) ++ numeral (Decimal.shortest .even significand shift) := by
  rw [renderFloat, hx, String.toList_ofList]
  cases negative <;> rfl

theorem readNumber?_renderFloat {x : Float} {negative : Bool} {significand shift : Nat}
    (hx : Binary64.ofFloat x = .finite negative significand shift) :
    readNumber? (renderFloat x).toList = some (.float x) := by
  obtain ⟨d, hread, hvalue⟩ := Decimal.readNumeral?_numeral (Decimal.shortest .even significand shift)
  obtain ⟨whole, mark, tail, hnumeral, hwhole, hmark, -⟩ :=
    numeral_eq_append (Decimal.shortest .even significand shift)
  have hsign : splitSign (renderFloat x).toList = (negative, numeral (Decimal.shortest .even significand shift)) := by
    rw [toList_renderFloat hx]
    cases negative with
    | true => rfl
    | false =>
        apply splitSign_of_isDigit
        obtain ⟨first, more, rfl⟩ := List.exists_cons_of_ne_nil hwhole.1
        rw [hnumeral]
        rintro char ⟨⟩
        exact hwhole.2 _ List.mem_cons_self
  have hany : (renderFloat x).toList.any (fun char => char = '.' || char = 'e') = true := by
    rw [toList_renderFloat hx, hnumeral, List.any_eq_true]
    exact ⟨mark, by simp, by simpa using hmark⟩
  rw [readNumber?, if_pos hany, hsign]
  dsimp only
  rw [hread, Option.map_some, Decimal.nearest_eq_of_toRat_eq hx hvalue]

/-! ### Documents -/

section

variable {α : Type}

/-- Items with commas between them, up to a closing bracket. -/
def readSequence? (closing : Char) (readItem? : List Char → Option (α × List Char)) :
    Nat → List Char → Option (List α × List Char)
  | 0, _ => none
  | limit + 1, text =>
    (readItem? text).bind fun (item, rest) =>
      match rest with
      | [] => none
      | char :: rest =>
        if char = ',' then (readSequence? closing readItem? limit rest).map (Prod.map (item :: ·) id)
        else if char = closing then some ([item], rest)
        else none

/-- The items after an opening bracket, which may be none at all. -/
def readEnclosed? (closing : Char) (readItem? : List Char → Option (α × List Char)) (text : List Char) :
    Option (List α × List Char) :=
  match text with
  | [] => none
  | char :: rest => if char = closing then some ([], rest) else readSequence? closing readItem? text.length text

end

/-- A name with a colon, and a value. -/
def readField? (readValue? : List Char → Option (Json × List Char)) :
    List Char → Option ((String × Json) × List Char)
  | '"' :: rest =>
    (readText? rest).bind fun (name, rest) =>
      match rest with
      | ':' :: rest => (readValue? rest).map (Prod.map ((String.ofList name, ·)) id)
      | _ => none
  | _ => none

/-- A document without any space that is nested no deeper than there is room, and what follows it. -/
def readValue? : Nat → List Char → Option (Json × List Char)
  | 0, _ => none
  | room + 1, text =>
    match text with
    | 'n' :: 'u' :: 'l' :: 'l' :: rest => some (.null, rest)
    | 't' :: 'r' :: 'u' :: 'e' :: rest => some (.bool true, rest)
    | 'f' :: 'a' :: 'l' :: 's' :: 'e' :: rest => some (.bool false, rest)
    | '"' :: rest => (readText? rest).map (Prod.map (fun text => .string (String.ofList text)) id)
    | '[' :: rest => (readEnclosed? ']' (readValue? room) rest).map (Prod.map .array id)
    | '{' :: rest => (readEnclosed? '}' (readField? (readValue? room)) rest).map (Prod.map .object id)
    | text => (readNumber? (text.takeWhile isNumberPart)).map (·, text.dropWhile isNumberPart)

/-- The document that a text is, as a whole. -/
def read? (text : String) : Option Json :=
  match readValue? (text.toList.length + 1) text.toList with
  | some (json, []) => some json
  | _ => none

/-! ### Reading what was written -/

mutual

/-- What is left of a document when it is written: a float that is no finite number becomes `null`. -/
def shown : Json → Json
  | .null => .null
  | .bool value => .bool value
  | .int value => .int value
  | .float value =>
    match Binary64.ofFloat value with
    | .finite _ _ _ => .float value
    | _ => .null
  | .string value => .string value
  | .array items => .array (shownItems items)
  | .object fields => .object (shownFields fields)

def shownItems : List Json → List Json
  | [] => []
  | item :: rest => item.shown :: shownItems rest

def shownFields : List (String × Json) → List (String × Json)
  | [] => []
  | (name, value) :: rest => (name, value.shown) :: shownFields rest

end

/-- What can come after a value in a document. -/
def Follows (rest : List Char) : Prop :=
  ∀ char ∈ rest.head?, char = ',' ∨ char = ']' ∨ char = '}'

theorem Follows.isNumberPart {rest : List Char} (h : Follows rest) :
    ∀ char ∈ rest.head?, isNumberPart char = false := by
  intro char hchar
  rcases h char hchar with rfl | rfl | rfl <;> rfl

section

variable {α : Type} {readItem? : List Char → Option (α × List Char)} {closing : Char}

/-- The text is read as the item wherever it stands in a document. -/
def Reads (readItem? : List Char → Option (α × List Char)) (text : List Char) (item : α) : Prop :=
  ∀ rest, Follows rest → readItem? (text ++ rest) = some (item, rest)

variable {texts : List (List Char)} {items : List α}

theorem readSequence?_items (hclosing : closing = ']' ∨ closing = '}')
    (hitems : List.Forall₂ (Reads readItem?) texts items) (hne : texts ≠ []) {limit : Nat}
    (hlimit : ([','].intercalate texts).length < limit) (rest : List Char) :
    readSequence? closing readItem? limit ([','].intercalate texts ++ closing :: rest) = some (items, rest) := by
  induction hitems generalizing limit with
  | nil => exact absurd rfl hne
  | @cons text item texts items hitem hitems ih =>
      obtain ⟨limit, rfl⟩ : ∃ smaller, limit = smaller + 1 := ⟨limit - 1, by omega⟩
      cases texts with
      | nil =>
          cases hitems
          have hfollows : Follows (closing :: rest) := by
            rintro char ⟨⟩
            exact .inr hclosing
          have hcomma : closing ≠ ',' := by rcases hclosing with rfl | rfl <;> decide
          rw [List.intercalate_singleton, readSequence?, hitem _ hfollows]
          simp [hcomma]
      | cons next texts =>
          rw [List.intercalate_cons_cons, List.length_append, List.length_append, List.length_singleton] at hlimit
          have hfollows : Follows (',' :: ([','].intercalate (next :: texts) ++ closing :: rest)) := by
            rintro char ⟨⟩
            exact .inl rfl
          rw [List.intercalate_cons_cons, List.append_assoc, List.append_assoc, List.singleton_append, readSequence?,
            hitem _ hfollows, Option.bind_some]
          dsimp only
          rw [if_pos rfl, ih (List.cons_ne_nil _ _) (by omega)]
          rfl

theorem readEnclosed?_items (hclosing : closing = ']' ∨ closing = '}')
    (hnone : ∀ rest, readItem? (closing :: rest) = none) (hitems : List.Forall₂ (Reads readItem?) texts items)
    (rest : List Char) :
    readEnclosed? closing readItem? ([','].intercalate texts ++ closing :: rest) = some (items, rest) := by
  by_cases hne : texts = []
  · subst hne
    cases hitems
    exact if_pos rfl
  · have hlimit : ([','].intercalate texts).length < ([','].intercalate texts ++ closing :: rest).length := by
      rw [List.length_append, List.length_cons]
      omega
    have hread := readSequence?_items hclosing hitems hne hlimit rest
    generalize [','].intercalate texts ++ closing :: rest = text at hread
    cases text with
    | nil => cases hread
    | cons char more =>
        -- The first item was read, so it did not start with the closing bracket.
        have hchar : char ≠ closing := by
          rintro rfl
          rw [List.length_cons, readSequence?, hnone] at hread
          cases hread
        rw [readEnclosed?, if_neg hchar]
        exact hread

end

/-- No other document starts with a character that a number is written with. -/
theorem reads_number {text : List Char} {json : Json} (room : Nat) (hne : text ≠ [])
    (hpart : ∀ char ∈ text, isNumberPart char = true) (hread : readNumber? text = some json) :
    Reads (readValue? (room + 1)) text json := by
  intro rest hrest
  have hnumber : (readNumber? ((text ++ rest).takeWhile isNumberPart)).map
      (·, (text ++ rest).dropWhile isNumberPart) = some (json, rest) := by
    rw [takeWhile_append_of_head hpart hrest.isNumberPart, dropWhile_append_of_head hpart hrest.isNumberPart, hread]
    rfl
  obtain ⟨first, more, rfl⟩ := List.exists_cons_of_ne_nil hne
  have hfirst := hpart first List.mem_cons_self
  rw [List.cons_append] at hnumber ⊢
  rw [readValue?]
  · exact hnumber
  all_goals
    intro _ heq
    rw [(List.cons.inj heq).1] at hfirst
    exact absurd hfirst (by decide)

theorem length_le_intercalate {texts : List (List Char)} {text : List Char} (h : text ∈ texts) :
    text.length ≤ ([','].intercalate texts).length := by
  induction texts with
  | nil => cases h
  | cons first texts ih =>
      cases texts with
      | nil =>
          rw [List.mem_singleton.mp h, List.intercalate_singleton]
      | cons next texts =>
          rw [List.intercalate_cons_cons, List.length_append, List.length_append]
          rcases List.mem_cons.mp h with rfl | hmem
          · omega
          · have := ih hmem
            omega

theorem toList_enclose (opening closing : String) (items : List String) :
    (enclose opening closing items).toList =
      opening.toList ++ ([','].intercalate (items.map String.toList) ++ closing.toList) := by
  rw [enclose, String.toList_append, String.toList_append, String.toList_intercalate, List.append_assoc]
  rfl

theorem length_lt_enclose {opening closing text : String} {items : List String} (hopening : opening.toList ≠ [])
    (h : text ∈ items) : text.toList.length < (enclose opening closing items).toList.length := by
  have hpos := List.length_pos_iff.mpr hopening
  have hle := @length_le_intercalate (items.map String.toList) text.toList (List.mem_map_of_mem h)
  rw [toList_enclose, List.length_append, List.length_append]
  omega

theorem toList_quote_append (text : String) (rest : List Char) :
    (quote text).toList ++ rest = '"' :: (text.toList.flatMap escape ++ '"' :: rest) := by
  rw [quote, String.toList_ofList, List.append_assoc]
  rfl

theorem readValue?_closing (room : Nat) (rest : List Char) : readValue? room (']' :: rest) = none := by
  cases room <;> rfl

theorem reads_repr (room : Nat) (n : Int) : Reads (readValue? (room + 1)) n.repr.toList (.int n) := by
  apply reads_number room _ _ (readNumber?_repr n)
  · rw [Int.repr_eq_if]
    split_ifs <;> simp
  · intro char hchar
    rcases mem_repr hchar with rfl | hdigit
    · rfl
    · exact isNumberPart_of_isDigit hdigit

theorem reads_renderFloat (room : Nat) (x : Float) :
    Reads (readValue? (room + 1)) (renderFloat x).toList (Json.float x).shown := by
  rw [shown]
  cases hx : Binary64.ofFloat x with
  | nan | infinite _ =>
      rw [renderFloat, hx]
      show Reads _ "null".toList Json.null
      exact fun rest _ => rfl
  | finite negative significand shift =>
      apply reads_number room _ _ (readNumber?_renderFloat hx)
      · obtain ⟨whole, mark, tail, hnumeral, -⟩ := numeral_eq_append (Decimal.shortest .even significand shift)
        rw [toList_renderFloat hx, hnumeral]
        simp
      · intro char hchar
        rw [toList_renderFloat hx] at hchar
        rcases List.mem_append.mp hchar with hsign | hchar
        · cases negative with
          | true =>
              rw [List.mem_singleton.mp hsign]
              rfl
          | false => cases hsign
        · exact isNumberPart_of_mem_numeral hchar

mutual

theorem reads_render (room : Nat) (json : Json) :
    json.render.toList.length < room → Reads (readValue? room) json.render.toList json.shown := by
  cases room with
  | zero => exact fun hroom => absurd hroom (Nat.not_lt_zero _)
  | succ room =>
      match json with
      | .null => exact fun _ rest _ => rfl
      | .bool true => exact fun _ rest _ => rfl
      | .bool false => exact fun _ rest _ => rfl
      | .int value =>
          rw [render, shown]
          exact fun _ => reads_repr room value
      | .float value =>
          rw [render]
          exact fun _ => reads_renderFloat room value
      | .string value =>
          intro _ rest _
          rw [render, shown, toList_quote_append, readValue?, readText?_escapes, Option.map_some, Prod.map_apply,
            String.ofList_toList]
          rfl
      | .array items =>
          rw [render, shown]
          intro hroom rest _
          have hitems := reads_renderItems room items fun text htext =>
            (length_lt_enclose (by decide) htext).trans_le (Nat.le_of_lt_succ hroom)
          rw [toList_enclose, List.append_assoc, List.append_assoc]
          show readValue? (room + 1) ('[' :: (_ ++ ']' :: rest)) = _
          rw [readValue?, readEnclosed?_items (.inl rfl) (readValue?_closing room) hitems rest]
          rfl
      | .object fields =>
          rw [render, shown]
          intro hroom rest _
          have hfields := reads_renderFields room fields fun text htext =>
            (length_lt_enclose (by decide) htext).trans_le (Nat.le_of_lt_succ hroom)
          rw [toList_enclose, List.append_assoc, List.append_assoc]
          show readValue? (room + 1) ('{' :: (_ ++ '}' :: rest)) = _
          rw [readValue?, readEnclosed?_items (.inr rfl) (fun _ => rfl) hfields rest]
          rfl

theorem reads_renderItems (room : Nat) (items : List Json)
    (hroom : ∀ text ∈ renderItems items, text.toList.length < room) :
    List.Forall₂ (Reads (readValue? room)) ((renderItems items).map String.toList) (shownItems items) := by
  match items with
  | [] => exact .nil
  | item :: rest =>
      rw [renderItems] at hroom ⊢
      rw [List.map_cons, shownItems]
      exact .cons (reads_render room item (hroom _ List.mem_cons_self))
        (reads_renderItems room rest fun text htext => hroom text (List.mem_cons_of_mem _ htext))

theorem reads_renderFields (room : Nat) (fields : List (String × Json))
    (hroom : ∀ text ∈ renderFields fields, text.toList.length < room) :
    List.Forall₂ (Reads (readField? (readValue? room))) ((renderFields fields).map String.toList)
      (shownFields fields) := by
  match fields with
  | [] => exact .nil
  | (name, value) :: rest =>
      rw [renderFields] at hroom ⊢
      rw [List.map_cons, shownFields]
      have hlength := hroom _ List.mem_cons_self
      rw [String.toList_append, List.length_append] at hlength
      have hvalue := reads_render room value (by omega)
      refine .cons ?_ (reads_renderFields room rest fun text htext => hroom text (List.mem_cons_of_mem _ htext))
      intro following hfollows
      rw [String.toList_append, String.toList_append, List.append_assoc, List.append_assoc, toList_quote_append,
        readField?, readText?_escapes, Option.bind_some]
      show (readValue? room (value.render.toList ++ following)).map _ = _
      rw [hvalue following hfollows]
      simp

end

/-- A written document is read as it is shown. -/
theorem read?_render (json : Json) : read? json.render = some json.shown := by
  have hread := reads_render _ json (Nat.lt_succ_self _) [] nofun
  rw [List.append_nil] at hread
  rw [read?, hread]

end Json

end ScriptLang
