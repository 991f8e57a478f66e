import Mathlib
import ScriptLang.Proofs.Decimal.Display
import ScriptLang.Proofs.Diagram.Lines
import ScriptLang.Proofs.Program.Decoding
/-!
# A diagram shows everything of its program

The text of a diagram determines its tree, and the tree determines the program. A node tells by its style, its label and
the number of its children which construct it stands for. Its label holds a name, an operator or a literal as it is:
only a text stands in quotes, only a float has a point, and the other literals are words. In the label of a loop the
count is what stands behind the last parenthesis, whatever the name of its variable is.
-/

namespace ScriptLang

/-! ### Literals -/

namespace Value

/-- A literal in the label of its node. -/
def shown : Value → String
  | .string text => "\"" ++ text ++ "\""
  | other => other.text

theorem diagramLabel_eq (value : Value) : value.diagramLabel = "Literal = " ++ value.shown := by
  cases value with
  | string text =>
      have hopen : "Literal = \"" = "Literal = " ++ "\"" := rfl
      rw [diagramLabel, shown, hopen, String.append_assoc, String.append_assoc, String.append_assoc]
  | _ => rfl

/-- The literals that are words. -/
def words : List (String × Value) :=
  [("null", .null), ("true", .bool true), ("false", .bool false), ("NaN", .float (Float.ofBits 0x7ff8000000000000)),
    ("inf", .float (Binary64.pack false Binary64.infinityBits)),
    ("-inf", .float (Binary64.pack true Binary64.infinityBits))]

/-- Reads a literal from the label of its node. -/
def ofShown? (shown : String) : Option Value :=
  if shown.toList.head? = some '"' then some (.string (String.ofList shown.toList.tail.dropLast))
  else match words.lookup shown with
    | some value => some value
    | none =>
      if '.' ∈ shown.toList then (readFloat? shown.toList).map .float
      else ((readInt? shown.toList).bind int64?).map .int

theorem ofShown?_numeral {shown : String} (h : ∀ char ∈ shown.toList, Json.isNumberPart char = true) :
    ofShown? shown = if '.' ∈ shown.toList then (readFloat? shown.toList).map .float
      else ((readInt? shown.toList).bind int64?).map .int := by
  have hquote : shown.toList.head? ≠ some '"' := by
    intro hhead
    exact absurd (h '"' (List.mem_of_mem_head? hhead)) (by decide)
  have hwords : ∀ word ∈ words, ∃ char ∈ word.1.toList, Json.isNumberPart char = false := by
    simp [words, Json.isNumberPart]
  have hlookup : words.lookup shown = none := by
    rw [List.lookup_eq_none_iff]
    intro word hword
    obtain ⟨char, hchar, hletter⟩ := hwords word hword
    rw [bne_iff_ne]
    rintro rfl
    rw [h char hchar] at hletter
    cases hletter
  rw [ofShown?, if_neg hquote, hlookup]

theorem ofShown?_floatText (x : Float) : ofShown? (floatText x) = some (.float x) := by
  cases hx : Binary64.ofFloat x with
  | nan =>
      have hnan : x = Float.ofBits 0x7ff8000000000000 := by
        refine Binary64.eq_of_isNaN ?_ (by decide +kernel)
        rw [Binary64.isNaN_iff, ← Binary64.ofBits_eq_nan_iff]
        exact hx
      rw [floatText, hx, hnan]
      rfl
  | infinite negative =>
      rw [floatText, hx, Binary64.eq_pack_infinityBits hx]
      cases negative <;> rfl
  | finite negative significand shift =>
      obtain ⟨whole, fraction, hlayout, ⟨-, hwhole⟩, -, hfraction⟩ :=
        displayed_eq_point (Binary64.ofFloat_eq_finite hx).1
      have hpoint : '.' ∈ (floatText x).toList := by simp [toList_floatText hx, hlayout]
      rw [ofShown?_numeral ?_, if_pos hpoint, readFloat?_floatText hx, Option.map_some]
      intro char hchar
      rw [toList_floatText hx, hlayout, List.mem_append, List.mem_append, List.mem_cons] at hchar
      rcases hchar with hsign | hchar | rfl | hchar
      · cases negative
        · cases hsign
        · rw [List.mem_singleton.mp hsign]
          rfl
      · exact Json.isNumberPart_of_isDigit (hwhole char hchar)
      · rfl
      · exact Json.isNumberPart_of_isDigit (hfraction char hchar)

theorem ofShown?_repr (n : Int64) : ofShown? n.toInt.repr = some (.int n) := by
  have hpoint : '.' ∉ n.toInt.repr.toList := by
    intro h
    rcases Json.mem_repr h with h | h <;> exact absurd h (by decide)
  rw [ofShown?_numeral ?_, if_neg hpoint, readInt?_repr, Option.bind_some, int64?_toInt, Option.map_some]
  intro char hchar
  rcases Json.mem_repr hchar with rfl | hdigit
  · rfl
  · exact Json.isNumberPart_of_isDigit hdigit

theorem ofShown?_shown (value : Value) : ofShown? value.shown = some value := by
  cases value with
  | int n => exact ofShown?_repr n
  | float x => exact ofShown?_floatText x
  | bool value => cases value <;> rfl
  | string text =>
      have htext : ("\"" ++ text ++ "\"").toList = '"' :: (text.toList ++ ['"']) := by simp
      rw [shown, ofShown?, htext, List.head?_cons, if_pos rfl, List.tail_cons, List.dropLast_concat,
        String.ofList_toList]
  | null => rfl

theorem diagramLabel_injective : Function.Injective diagramLabel := by
  intro value value' h
  rw [diagramLabel_eq, diagramLabel_eq, String.append_right_inj] at h
  exact Option.some.inj ((ofShown?_shown value).symm.trans ((congrArg ofShown? h).trans (ofShown?_shown value')))

end Value

/-! ### Expressions -/

theorem Operator.symbol_injective : Function.Injective Operator.symbol := by
  intro operator operator' h
  have hread := congrArg Operator.ofSymbol? h
  rw [ofSymbol?_symbol, ofSymbol?_symbol] at hread
  exact Option.some.inj hread

/-- Whatever stands between two fixed texts can be read off. -/
theorem between_inj {before after name name' : String} (h : before ++ name ++ after = before ++ name' ++ after) :
    name = name' :=
  (String.append_right_inj before).mp ((String.append_left_inj after).mp h)

theorem Expr.diagram_injective : Function.Injective Expr.diagram := by
  intro expr expr' h
  induction expr generalizing expr' with
  | literal value =>
      cases expr' with
      | literal value' =>
          simp only [diagram, Diagram.node.injEq] at h
          rw [Value.diagramLabel_injective h.2.1]
      | _ => simp [diagram] at h
  | var name =>
      cases expr' with
      | var name' =>
          simp only [diagram, Diagram.node.injEq] at h
          have hname : name = name' := between_inj h.2.1
          rw [hname]
      | _ => simp [diagram] at h
  | negate operand ih =>
      cases expr' with
      | negate operand' =>
          simp only [diagram, Diagram.node.injEq, List.cons.injEq] at h
          rw [ih h.2.2.1]
      | _ => simp [diagram] at h
  | binary operator left right ihleft ihright =>
      cases expr' with
      | binary operator' left' right' =>
          simp only [diagram, Diagram.node.injEq, List.cons.injEq] at h
          obtain ⟨-, hlabel, hleft, hright, -⟩ := h
          rw [Operator.symbol_injective (between_inj hlabel), ihleft hleft, ihright hright]
      | _ => simp [diagram] at h

/-! ### Statements -/

theorem toInt_repr_injective {count count' : Int64} (h : count.toInt.repr = count'.toInt.repr) : count = count' := by
  have hread := congrArg (readInt? ∘ String.toList) h
  simp only [Function.comp_apply, readInt?_repr, Option.some.injEq] at hread
  exact Int64.toInt_inj.mp hread

/-- The count of a loop stands behind the last parenthesis that opens. -/
theorem rangeLabel_inj {name name' : String} {count count' : Int64}
    (h : "For (" ++ name ++ " in range(" ++ count.toInt.repr ++ "))" =
      "For (" ++ name' ++ " in range(" ++ count'.toInt.repr ++ "))") : name = name' ∧ count = count' := by
  have hreverse (name count : String) : ("For (" ++ name ++ " in range(" ++ count).toList.reverse =
      count.toList.reverse ++ '(' :: ("For (" ++ name ++ " in range").toList.reverse := by
    simp
  have hcount (count : Int64) : ∀ char ∈ count.toInt.repr.toList.reverse, (char != '(') = true := by
    intro char hchar
    rw [bne_iff_ne]
    rintro rfl
    rcases Json.mem_repr (List.mem_reverse.mp hchar) with h | h <;> exact absurd h (by decide)
  rw [String.append_left_inj] at h
  have hlabel := congrArg (List.reverse ∘ String.toList) h
  simp only [Function.comp_apply, hreverse] at hlabel
  obtain ⟨hrepr, -⟩ := Diagram.append_inj_of_head (hcount count) (hcount count') (by simp) (by simp) hlabel
  obtain rfl := toInt_repr_injective (String.toList_inj.mp (List.reverse_injective hrepr))
  rw [String.append_left_inj] at h
  exact ⟨between_inj h, rfl⟩

mutual

theorem Statement.diagram_inj {statement statement' : Statement} (h : statement.diagram = statement'.diagram) :
    statement = statement' := by
  match statement with
  | .assign name value =>
      cases statement' with
      | assign name' value' =>
          simp only [Statement.diagram, Diagram.node.injEq, List.cons.injEq] at h
          obtain ⟨-, hlabel, hvalue, -⟩ := h
          have hname : name = name' := between_inj hlabel
          rw [hname, Expr.diagram_injective hvalue]
      | _ => simp [Statement.diagram] at h
  | .print value =>
      cases statement' with
      | print value' =>
          simp only [Statement.diagram, Diagram.node.injEq, List.cons.injEq] at h
          rw [Expr.diagram_injective h.2.2.1]
      | _ => simp [Statement.diagram] at h
  | .ifElse condition body alternative =>
      cases statement' with
      | ifElse condition' body' alternative' =>
          simp only [Statement.diagram, Diagram.node.injEq, List.cons.injEq, true_and] at h
          obtain ⟨hcondition, hbody, halternative⟩ := h
          rw [Expr.diagram_injective hcondition, blockDiagrams_inj hbody, alternativeDiagrams_inj halternative]
      | _ => simp [Statement.diagram] at h
  | .whileLoop condition body =>
      cases statement' with
      | whileLoop condition' body' =>
          simp only [Statement.diagram, Diagram.node.injEq, List.cons.injEq, true_and, and_true] at h
          obtain ⟨hcondition, hbody⟩ := h
          rw [Expr.diagram_injective hcondition, blockDiagrams_inj hbody]
      | _ => simp [Statement.diagram] at h
  | .forRange name count body =>
      cases statement' with
      | forRange name' count' body' =>
          simp only [Statement.diagram, Diagram.node.injEq, List.cons.injEq, true_and, and_true] at h
          obtain ⟨hlabel, hbody⟩ := h
          have hrange : name = name' ∧ count = count' := rangeLabel_inj hlabel
          rw [hrange.1, hrange.2, blockDiagrams_inj hbody]
      | _ => simp [Statement.diagram] at h

theorem blockDiagrams_inj {body body' : List Statement} (h : blockDiagrams body = blockDiagrams body') :
    body = body' := by
  match body with
  | [] =>
      cases body' with
      | nil => rfl
      | cons statement' rest' => cases h
  | statement :: rest =>
      cases body' with
      | nil => cases h
      | cons statement' rest' =>
          obtain ⟨hstatement, hrest⟩ := List.cons.inj h
          rw [Statement.diagram_inj hstatement, blockDiagrams_inj hrest]

/-- An alternative without statements is shown, unlike none. -/
theorem alternativeDiagrams_inj {alternative alternative' : Option (List Statement)}
    (h : alternativeDiagrams alternative = alternativeDiagrams alternative') : alternative = alternative' := by
  match alternative with
  | none =>
      cases alternative' with
      | none => rfl
      | some body' => cases h
  | some body =>
      cases alternative' with
      | none => cases h
      | some body' =>
          simp only [alternativeDiagrams, Diagram.node.injEq, List.cons.injEq, true_and, and_true] at h
          rw [blockDiagrams_inj h]

end

/-- The text of a diagram is that of one program alone. -/
theorem render_diagram_eq_iff (left right : Program) :
    left.diagram.render = right.diagram.render ↔ left = right := by
  constructor
  · intro h
    obtain ⟨statements⟩ := left
    obtain ⟨statements'⟩ := right
    have hdiagram := Diagram.render_injective h
    simp only [Program.diagram, Diagram.node.injEq, true_and] at hdiagram
    rw [blockDiagrams_inj hdiagram]
  · intro h
    rw [h]

/-- A text and a number, a line break and its escape, a sign of zero, and an alternative without statements. -/
theorem render_diagram_eq_iff_lookalikes :
    (Program.mk [.print (.literal (.string "1"))]).diagram.render ≠
      (Program.mk [.print (.literal (.int 1))]).diagram.render ∧
    (Program.mk [.print (.var "a\nb")]).diagram.render ≠ (Program.mk [.print (.var "a\\nb")]).diagram.render ∧
    (Program.mk [.print (.literal (.float (Float.ofBits 0)))]).diagram.render ≠
      (Program.mk [.print (.literal (.float (Float.ofBits 0x8000000000000000)))]).diagram.render ∧
    (Program.mk [.ifElse (.var "a") [] none]).diagram.render ≠
      (Program.mk [.ifElse (.var "a") [] (some [])]).diagram.render := by
  have hzero : Float.ofBits 0 ≠ Float.ofBits 0x8000000000000000 := by decide +kernel
  simp only [Ne, render_diagram_eq_iff, Program.mk.injEq]
  simp [hzero]

end ScriptLang
