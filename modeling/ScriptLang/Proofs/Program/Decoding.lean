import Mathlib
import ScriptLang.Program.Json
import ScriptLang.Proofs.Json.Reading
import ScriptLang.Proofs.Program.WellFormed
/-!
# Programs from their JSON text

Every node is named for its kind, so a document tells which program it was made from. What it cannot tell apart are
floats that are no finite numbers, since all of them are `null`. A program may be built with any of them, but in a
source no numeral has a sign and none stands for anything but a number, so only one of them is ever read: positive
infinity, from a numeral that is too large. The decoder takes `null` for that one, and then recovers both the
programs whose floats are finite and those that were read from a source.
-/

namespace ScriptLang

/-! ### The decoder -/

/-- The number in a literal. A number that is `null` is taken for positive infinity. -/
def Value.ofNumber? : Json → Option Value
  | .int n => (int64? n).map .int
  | .float x => some (.float x)
  | .null => some (.float (Binary64.pack false Binary64.infinityBits))
  | _ => none

def Expr.ofJson? : Json → Option Expr
  | .object [("Number", .object [("value", value)])] => (Value.ofNumber? value).map .literal
  | .object [("Boolean", .object [("value", .bool value)])] => some (.literal (.bool value))
  | .object [("String", .object [("value", .string value)])] => some (.literal (.string value))
  | .object [("Null", .object [])] => some (.literal .null)
  | .object [("Var", .object [("name", .string name)])] => some (.var name)
  | .object [("UnaryOp", .object [("op", .string "-"), ("operand", operand)])] => (ofJson? operand).map .negate
  | .object [("BinOp", .object [("left", left), ("op", .string symbol), ("right", right)])] => do
    return .binary (← Operator.ofSymbol? symbol) (← ofJson? left) (← ofJson? right)
  | _ => none

mutual

def Statement.ofJson? : Json → Option Statement
  | .object [("Assign", .object [("expr", value), ("name", .string name)])] => do
    return .assign name (← Expr.ofJson? value)
  | .object [("Print", .object [("expr", value)])] => do
    return .print (← Expr.ofJson? value)
  | .object [("If", .object [("condition", condition), ("else_branch", alternative),
      ("then_branch", .array body)])] => do
    return .ifElse (← Expr.ofJson? condition) (← blockOfJson? body) (← alternativeOfJson? alternative)
  | .object [("While", .object [("body", .array body), ("condition", condition)])] => do
    return .whileLoop (← Expr.ofJson? condition) (← blockOfJson? body)
  | .object [("For", .object [("body", .array body), ("count", .int count), ("var", .string name)])] => do
    return .forRange name (← int64? count) (← blockOfJson? body)
  | _ => none

def blockOfJson? : List Json → Option (List Statement)
  | [] => some []
  | statement :: rest => do
    return (← Statement.ofJson? statement) :: (← blockOfJson? rest)

def alternativeOfJson? : Json → Option (Option (List Statement))
  | .null => some none
  | .array body => (blockOfJson? body).map some
  | _ => none

end

def Program.ofJson? : Json → Option Program
  | .object [("Program", .object [("statements", .array body)])] => (blockOfJson? body).map .mk
  | _ => none

/-- The program whose JSON text this is. -/
def Program.ofJsonText? (text : String) : Option Program :=
  (Json.read? text).bind Program.ofJson?

/-! ### Decoding what was shown -/

/-- The floats that are not confused with another one: the finite ones and positive infinity. -/
def Binary64.Recoverable (x : Float) : Prop :=
  x.isFinite = true ∨ ofFloat x = .infinite false

theorem Json.shown_node (name : String) (parts : List (String × Json)) :
    (node name parts).shown = node name (shownFields parts) := by
  simp only [node, shown, shownFields]

theorem Value.ofNumber?_float {x : Float} (h : Binary64.Recoverable x) :
    Value.ofNumber? (Json.float x).shown = some (.float x) := by
  rw [Json.shown]
  rcases h with hfinite | hinfinite
  · obtain ⟨negative, significand, shift, hx⟩ := (Binary64.isFinite_iff x).mp hfinite
    rw [hx]
    rfl
  · rw [hinfinite, Binary64.eq_pack_infinityBits hinfinite]
    rfl

theorem Operator.ofSymbol?_symbol (operator : Operator) : Operator.ofSymbol? operator.symbol = some operator := by
  cases operator <;> rfl

theorem Expr.ofJson?_toJson (expr : Expr) (h : ∀ x, .value (.float x) ∈ expr.leaves → Binary64.Recoverable x) :
    Expr.ofJson? expr.toJson.shown = some expr := by
  induction expr with
  | literal value =>
      cases value with
      | int n =>
          simp only [toJson, Json.ofLiteral, Json.shown_node, Json.shownFields, Value.toJson, Json.shown]
          rw [Json.node, ofJson?, Value.ofNumber?, int64?_toInt]
          rfl
      | float x =>
          simp only [toJson, Json.ofLiteral, Json.shown_node, Json.shownFields, Value.toJson]
          rw [Json.node, ofJson?, Value.ofNumber?_float (h x List.mem_cons_self)]
          rfl
      | bool | string | null =>
          simp only [toJson, Json.ofLiteral, Json.shown_node, Json.shownFields, Value.toJson, Json.shown]
          rw [Json.node, ofJson?]
  | var name =>
      simp only [toJson, Json.shown_node, Json.shownFields, Json.shown]
      rw [Json.node, ofJson?]
  | negate operand ih =>
      simp only [toJson, Json.shown_node, Json.shownFields, Json.shown]
      rw [Json.node, ofJson?, ih h]
      rfl
  | binary operator left right ihleft ihright =>
      simp only [toJson, Json.shown_node, Json.shownFields, Json.shown]
      rw [Json.node, ofJson?, ihleft fun x hx => h x (List.mem_append_left _ hx),
        ihright fun x hx => h x (List.mem_append_right _ hx), Operator.ofSymbol?_symbol]
      rfl

mutual

theorem Statement.ofJson?_toJson (statement : Statement)
    (h : ∀ x, .value (.float x) ∈ statement.leaves → Binary64.Recoverable x) :
    Statement.ofJson? statement.toJson.shown = some statement := by
  match statement with
  | .assign name value =>
      rw [Statement.leaves] at h
      simp only [Statement.toJson, Json.shown_node, Json.shownFields, Json.shown]
      rw [Json.node, Statement.ofJson?, Expr.ofJson?_toJson value fun x hx => h x (List.mem_cons_of_mem _ hx)]
      rfl
  | .print value =>
      rw [Statement.leaves] at h
      simp only [Statement.toJson, Json.shown_node, Json.shownFields]
      rw [Json.node, Statement.ofJson?, Expr.ofJson?_toJson value h]
      rfl
  | .ifElse condition body alternative =>
      rw [Statement.leaves] at h
      have hbranches := fun x hx => h x (List.mem_append_right _ hx)
      simp only [Statement.toJson, Json.shown_node, Json.shownFields, Json.shown]
      rw [Json.node, Statement.ofJson?, Expr.ofJson?_toJson condition fun x hx => h x (List.mem_append_left _ hx),
        blockOfJson?_toJson body fun x hx => hbranches x (List.mem_append_left _ hx),
        alternativeOfJson?_toJson alternative fun x hx => hbranches x (List.mem_append_right _ hx)]
      rfl
  | .whileLoop condition body =>
      rw [Statement.leaves] at h
      simp only [Statement.toJson, Json.shown_node, Json.shownFields, Json.shown]
      rw [Json.node, Statement.ofJson?, Expr.ofJson?_toJson condition fun x hx => h x (List.mem_append_left _ hx),
        blockOfJson?_toJson body fun x hx => h x (List.mem_append_right _ hx)]
      rfl
  | .forRange name count body =>
      rw [Statement.leaves] at h
      simp only [Statement.toJson, Json.shown_node, Json.shownFields, Json.shown]
      rw [Json.node, Statement.ofJson?, int64?_toInt,
        blockOfJson?_toJson body fun x hx => h x (List.mem_cons_of_mem _ (List.mem_cons_of_mem _ hx))]
      rfl

theorem blockOfJson?_toJson (body : List Statement)
    (h : ∀ x, .value (.float x) ∈ blockLeaves body → Binary64.Recoverable x) :
    blockOfJson? (Json.shownItems (blockToJson body)) = some body := by
  match body with
  | [] => rfl
  | statement :: rest =>
      rw [blockLeaves] at h
      rw [blockToJson, Json.shownItems, blockOfJson?,
        Statement.ofJson?_toJson statement fun x hx => h x (List.mem_append_left _ hx),
        blockOfJson?_toJson rest fun x hx => h x (List.mem_append_right _ hx)]
      rfl

theorem alternativeOfJson?_toJson (alternative : Option (List Statement))
    (h : ∀ x, .value (.float x) ∈ alternativeLeaves alternative → Binary64.Recoverable x) :
    alternativeOfJson? (alternativeToJson alternative).shown = some alternative := by
  match alternative with
  | none => rfl
  | some body =>
      rw [alternativeLeaves] at h
      rw [alternativeToJson, Json.shown, alternativeOfJson?, blockOfJson?_toJson body h]
      rfl

end

theorem Program.ofJson?_toJson (program : Program)
    (h : ∀ x, .value (.float x) ∈ program.leaves → Binary64.Recoverable x) :
    Program.ofJson? program.toJson.shown = some program := by
  simp only [Program.toJson, Json.shown_node, Json.shownFields, Json.shown]
  rw [Json.node, Program.ofJson?, blockOfJson?_toJson program.statements h]
  rfl

theorem Program.ofJsonText?_render {program : Program}
    (h : ∀ x, .value (.float x) ∈ program.leaves → Binary64.Recoverable x) :
    Program.ofJsonText? program.toJson.render = some program := by
  rw [Program.ofJsonText?, Json.read?_render, Option.bind_some, Program.ofJson?_toJson program h]

/-! ### Floats of a source -/

theorem Token.of_leaf?_eq_float {token : Token} {x : Float} (h : token.leaf? = some (.value (.float x))) :
    token.kind = .number ∧ readFloat? token.text.toList = some x := by
  rw [leaf?] at h
  split at h
  case h_2 hkind =>
    obtain ⟨_, hnumber, hvalue⟩ := Option.map_eq_some_iff.mp h
    cases hvalue
    rw [Grammar.numberOf?] at hnumber
    split_ifs at hnumber
    · obtain ⟨_, hread, hvalue⟩ := Option.map_eq_some_iff.mp hnumber
      cases hvalue
      exact ⟨hkind, hread⟩
    · obtain ⟨_, _, hvalue⟩ := Option.map_eq_some_iff.mp hnumber
      cases hvalue
  all_goals cases h

/-- A numeral of a source has no sign, so it stands for no negative float; if it is too large it stands for infinity. -/
theorem recoverable_of_ofSource {source : String} {program : Program} (h : Program.ofSource source = .ok program)
    {x : Float} (hx : .value (.float x) ∈ program.leaves) : Binary64.Recoverable x := by
  have hwrites := writes_of_ofTokens (Program.ofSource_eq_ok_iff.mp h).2
  obtain ⟨token, htoken, hleaf⟩ := hwrites.exists_token _ hx
  obtain ⟨hkind, hread⟩ := Token.of_leaf?_eq_float hleaf
  have hdigit : ∀ char ∈ token.text.toList.head?, char.isDigit = true := by
    obtain ⟨whole, ⟨hne, hwhole⟩, htext⟩ := Pattern.matches_number_iff.mp (matches_number htoken hkind)
    obtain ⟨first, more, rfl⟩ := List.exists_cons_of_ne_nil hne
    rcases htext with htext | ⟨fraction, _, htext⟩
    all_goals
      rw [htext]
      rintro char ⟨⟩
      exact hwhole _ List.mem_cons_self
  rw [readFloat?, splitSign_of_isDigit hdigit] at hread
  obtain ⟨d, _, rfl⟩ := Option.map_eq_some_iff.mp hread
  obtain ⟨bits, hbits, hpack⟩ := Decimal.exists_nearest_eq_pack false d
  rw [hpack]
  rcases Binary64.ofFloat_pack hbits with ⟨significand, shift, hfinite⟩ | hinfinite
  · exact .inl ((Binary64.isFinite_iff _).mpr ⟨_, _, _, hfinite⟩)
  · exact .inr hinfinite

/-! ### Nothing is lost -/

/-- Every float literal of the program is finite. -/
def Program.HasFiniteFloats (program : Program) : Prop :=
  ∀ x, .value (.float x) ∈ program.leaves → x.isFinite = true

/-- One decoder recovers from its JSON text every program that has only finite floats, whether or not any source is
read as it, and every program at all that some source is read as. So two programs of these kinds with the same text
are the same, down to the bits of their floats. -/
theorem jsonText_lossless :
    (∀ program : Program, program.HasFiniteFloats → Program.ofJsonText? program.toJson.render = some program) ∧
    (∀ source program, Program.ofSource source = .ok program →
      Program.ofJsonText? program.toJson.render = some program) ∧
    ∀ left right : Program,
      (left.HasFiniteFloats ∨ ∃ source, Program.ofSource source = .ok left) →
      (right.HasFiniteFloats ∨ ∃ source, Program.ofSource source = .ok right) →
      left.toJson.render = right.toJson.render → left = right := by
  have hfinite (program : Program) (h : program.HasFiniteFloats) :
      Program.ofJsonText? program.toJson.render = some program :=
    Program.ofJsonText?_render fun x hx => .inl (h x hx)
  have hparsed (source : String) (program : Program) (h : Program.ofSource source = .ok program) :
      Program.ofJsonText? program.toJson.render = some program :=
    Program.ofJsonText?_render fun _ hx => recoverable_of_ofSource h hx
  have hboth (program : Program) (h : program.HasFiniteFloats ∨ ∃ source, Program.ofSource source = .ok program) :
      Program.ofJsonText? program.toJson.render = some program :=
    h.elim (hfinite program) fun ⟨source, hsource⟩ => hparsed source program hsource
  refine ⟨hfinite, hparsed, fun left right hleft hright heq => ?_⟩
  have hread := hboth left hleft
  rw [heq, hboth right hright] at hread
  exact (Option.some.inj hread).symm

/-- A whole number and a float of the same value, no alternative and an empty one, and a source with a quote, a
backslash and a line's end in a text. -/
theorem jsonText_lossless_lookalikes :
    (Program.mk [.print (.literal (.int 1))]).toJson.render ≠
      (Program.mk [.print (.literal (.float (Float.ofBits 0x3ff0000000000000)))]).toJson.render ∧
    (Program.mk [.ifElse (.literal .null) [] none]).toJson.render ≠
      (Program.mk [.ifElse (.literal .null) [] (some [])]).toJson.render ∧
    ∃ program, Program.ofSource "print(\"\\\"\\\\\n\" + -0.1)" = .ok program ∧
      Program.ofJsonText? program.toJson.render = some program := by
  have hparsed : (Program.ofSource "print(\"\\\"\\\\\n\" + -0.1)").isOk = true := by decide +kernel
  have hwhole : (Program.mk [.print (.literal (.int 1))]).HasFiniteFloats := nofun
  have hfloat : (Program.mk [.print (.literal (.float (Float.ofBits 0x3ff0000000000000)))]).HasFiniteFloats := by
    intro x hx
    cases List.mem_singleton.mp hx
    rfl
  have habsent : (Program.mk [.ifElse (.literal .null) [] none]).HasFiniteFloats := nofun
  have hempty : (Program.mk [.ifElse (.literal .null) [] (some [])]).HasFiniteFloats := nofun
  refine ⟨?_, ?_, ?_⟩
  · intro heq
    cases jsonText_lossless.2.2 _ _ (.inl hwhole) (.inl hfloat) heq
  · intro heq
    cases jsonText_lossless.2.2 _ _ (.inl habsent) (.inl hempty) heq
  · cases hprogram : Program.ofSource "print(\"\\\"\\\\\n\" + -0.1)" with
    | ok program => exact ⟨program, rfl, jsonText_lossless.2.1 _ program hprogram⟩
    | error =>
        rw [hprogram] at hparsed
        cases hparsed

end ScriptLang
