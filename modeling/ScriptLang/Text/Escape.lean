/-!
# Escapes in string literals

A literal's inner text is split into segments: plain characters, escapes that stand for a fixed text, and
codes written with digits. Decoding joins what the segments stand for. If one code is incomplete or no
character, the whole inner text is taken as it is written.
-/

namespace ScriptLang

namespace Escape

/-- A part of an escaped text: either what it stands for, or the digits of a character's code. -/
inductive Segment where
  | verbatim (text : List Char)
  | octal (digits : List Char)
  | hex (count : Nat) (digits : List Char)
  deriving DecidableEq

def isOctalDigit (char : Char) : Bool :=
  '0' ≤ char && char ≤ '7'

def hexDigit? (char : Char) : Option Nat :=
  if '0' ≤ char ∧ char ≤ '9' then some (char.toNat - '0'.toNat)
  else if 'a' ≤ char ∧ char ≤ 'f' then some (char.toNat - 'a'.toNat + 10)
  else if 'A' ≤ char ∧ char ≤ 'F' then some (char.toNat - 'A'.toNat + 10)
  else none

/-- What a backslash with this character stands for, if it needs no digits; an unknown escape stands for
itself. -/
def simple : Char → List Char
  | '\\' => ['\\']
  | '"' => ['"']
  | '\'' => ['\'']
  | 'n' => ['\n']
  | 't' => ['\t']
  | 'r' => ['\r']
  | 'a' => ['\x07']
  | 'b' => ['\x08']
  | 'f' => ['\x0c']
  | 'v' => ['\x0b']
  | '\n' => []
  | other => ['\\', other]

/-- How many hexadecimal digits the escape with this letter takes. -/
def hexCount? : Char → Option Nat
  | 'x' => some 2
  | 'u' => some 4
  | 'U' => some 8
  | _ => none

/-- The first segment of a text, and what is left behind it. Octal digits are taken greedily, three at most; a
backslash at the very end stands for itself. -/
def first? : List Char → Option (Segment × List Char)
  | [] => none
  | ['\\'] => some (.verbatim ['\\'], [])
  | '\\' :: char :: rest =>
    if isOctalDigit char then
      let more := (rest.take 2).takeWhile isOctalDigit
      some (.octal (char :: more), rest.drop more.length)
    else
      match hexCount? char with
      | some count => some (.hex count (rest.take count), rest.drop count)
      | none => some (.verbatim (simple char), rest)
  | char :: rest => some (.verbatim [char], rest)

theorem length_lt_of_first? {text rest : List Char} {segment : Segment} (h : first? text = some (segment, rest)) :
    rest.length < text.length := by
  revert h
  fun_cases first? text with
  | case1 => nofun
  | case2 =>
      rintro ⟨⟩
      exact Nat.zero_lt_one
  | case3 char tail hoctal more =>
      rintro ⟨⟩
      exact Nat.lt_of_le_of_lt (List.drop_sublist _ _).length_le (Nat.lt_add_of_pos_right Nat.two_pos)
  | case4 char tail hoctal count hcount =>
      rintro ⟨⟩
      exact Nat.lt_of_le_of_lt (List.drop_sublist _ _).length_le (Nat.lt_add_of_pos_right Nat.two_pos)
  | case5 char tail hoctal hcount =>
      rintro ⟨⟩
      exact Nat.lt_add_of_pos_right Nat.two_pos
  | case6 char tail _ _ =>
      rintro ⟨⟩
      exact Nat.lt_succ_self _

/-- Splits a text from left to right. -/
def segments (text : List Char) : List Segment :=
  match hfirst : first? text with
  | none => []
  | some (segment, rest) =>
    have := length_lt_of_first? hfirst
    segment :: segments rest
termination_by text.length

theorem first?_plain {char : Char} (rest : List Char) (h : char ≠ '\\') :
    first? (char :: rest) = some (.verbatim [char], rest) := by
  rw [first?]
  · exact fun heq _ => h heq
  · exact fun _ _ heq _ => h heq

theorem first?_simple {char : Char} (rest : List Char) (hoctal : isOctalDigit char = false)
    (hcount : hexCount? char = none) : first? ('\\' :: char :: rest) = some (.verbatim (simple char), rest) := by
  rw [first?, hoctal, hcount]
  rfl

theorem segments_eq (text : List Char) :
    segments text =
      match first? text with
      | none => []
      | some (segment, rest) => segment :: segments rest := by
  rw [segments]
  split
  next hfirst => rw [hfirst]
  next segment rest hfirst => simp only [hfirst]

theorem segments_nil : segments [] = [] :=
  segments_eq []

theorem segments_of_first? {text rest : List Char} {segment : Segment} (h : first? text = some (segment, rest)) :
    segments text = segment :: segments rest := by
  rw [segments_eq, h]

/-- The character with this code, if there is one. -/
def charOfCode? (code : Nat) : Option Char :=
  if code.isValidChar then some (Char.ofNat code) else none

/-- The number that digits stand for in a base, if all are digits. -/
def code? (base : Nat) (digits : List Char) : Option Nat :=
  digits.foldlM (fun code char => (hexDigit? char).map (base * code + ·)) 0

namespace Segment

/-- What a segment stands for. -/
def value? : Segment → Option (List Char)
  | verbatim text => some text
  | octal digits => do return [← charOfCode? (← code? 8 digits)]
  | hex count digits =>
    if digits.length = count then do return [← charOfCode? (← code? 16 digits)] else none

end Segment

/-- The text without its quotes, or the text itself unless it has one at each end. -/
def inner (literal : List Char) : List Char :=
  match literal with
  | '"' :: rest => if rest.getLast? = some '"' then rest.dropLast else literal
  | _ => literal

/-- Decodes all segments, or leaves the text as it is. -/
def decode (text : List Char) : List Char :=
  match (segments text).mapM Segment.value? with
  | some values => values.flatten
  | none => text

end Escape

/-- The text that a string literal stands for. -/
def literalText (literal : String) : String :=
  String.ofList (Escape.decode (Escape.inner literal.toList))

end ScriptLang
