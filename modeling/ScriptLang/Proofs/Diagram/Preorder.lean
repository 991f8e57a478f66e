import Mathlib
import ScriptLang.Proofs.Diagram.Positions
/-!
# The text of a diagram is a tree in pre-order

The text is cut into lines at every line break, and each line between the header and the closing brace is read by what
it begins with: a number ends where its digits end, and a label at the first quote that is not escaped. What is read is
a tree. Its nodes are numbered in the pre-order of the program, and the one edge into a node stands behind the line that
declares it.
-/

namespace ScriptLang

namespace Diagram

/-! ### Reading a line -/

/-- A number, and what stands behind its digits. -/
def readNumber (text : List Char) : Nat × List Char :=
  (Nat.ofDigitChars 10 (text.takeWhile Char.isDigit) 0, text.dropWhile Char.isDigit)

/-- The inside of a quoted string up to its closing quote, and what stands behind that. A character behind a backslash
stands for itself, also if it is a quote, and an `n` there for a line break. -/
def readQuoted? : List Char → Option (List Char × List Char)
  | [] => none
  | '"' :: rest => some ([], rest)
  | '\\' :: 'n' :: rest => (readQuoted? rest).map (Prod.map ('\n' :: ·) id)
  | '\\' :: char :: rest => (readQuoted? rest).map (Prod.map (char :: ·) id)
  | char :: rest => (readQuoted? rest).map (Prod.map (char :: ·) id)

def allStyles : List NodeStyle :=
  [.program, .assignment, .print, .control, .block, .operator, .var, .literal]

/-- What stands behind the number of a node in a line that declares it. -/
def readDeclaration? (number : Nat) (text : List Char) : Option Line := do
  let quoted ← text.dropPrefix? " [label=\"".toList
  let (label, rest) ← readQuoted? quoted
  let style ← allStyles.find? fun style => drawing style == rest
  return .declaration number style (String.ofList label)

/-- What stands behind the number of the parent in a line with an edge. -/
def readEdge? (parent : Nat) (text : List Char) : Option Line := do
  let (child, rest) := readNumber (← text.dropPrefix? " -> n".toList)
  if rest = " [color=\"gray50\"];".toList then return .edge parent child else none

def Line.read? (text : List Char) : Option Line := do
  let (number, rest) := readNumber (← text.dropPrefix? "    n".toList)
  readDeclaration? number rest <|> readEdge? number rest

theorem dropPrefix?_append (front rest : List Char) : (front ++ rest).dropPrefix? front = some rest :=
  List.dropPrefix?_append_of_beq rest (beq_self_eq_true front)

theorem readNumber_toDigits (n : Nat) (rest : List Char) :
    readNumber (Nat.toDigits 10 n ++ ' ' :: rest) = (n, ' ' :: rest) := by
  have hinside : ∀ char ∈ Nat.toDigits 10 n, char.isDigit = true := fun _ => isDigit_of_mem_toDigits
  have hhead : ∀ char ∈ (' ' :: rest).head?, char.isDigit = false := by simp
  rw [readNumber, takeWhile_append_of_head hinside hhead, dropWhile_append_of_head hinside hhead,
    Nat.ofDigitChars_ten_toDigits]

theorem readQuoted?_escape (char : Char) (rest : List Char) :
    readQuoted? (escape char ++ rest) = (readQuoted? rest).map (Prod.map (char :: ·) id) := by
  unfold escape
  split
  · rfl
  · rfl
  · rfl
  · simp_all [readQuoted?]

/-- No character of a label closes its quoted string. -/
theorem readQuoted?_escaped (label rest : List Char) :
    readQuoted? (label.flatMap escape ++ '"' :: rest) = some (label, rest) := by
  induction label with
  | nil => rfl
  | cons char label ih =>
      rw [List.flatMap_cons, List.append_assoc, readQuoted?_escape, ih]
      rfl

theorem find?_drawing (style : NodeStyle) :
    (allStyles.find? fun other => drawing other == drawing style) = some style := by
  have hbeq (other : NodeStyle) : (drawing other == drawing style) = decide (other = style) := by
    rw [Bool.eq_iff_iff, beq_iff_eq, decide_eq_true_eq, drawing_injective.eq_iff]
  simp only [hbeq]
  cases style <;> rfl

theorem readDeclaration?_label (number : Nat) (style : NodeStyle) (label : String) :
    readDeclaration? number (' ' :: ("[label=\"".toList ++ (label.toList.flatMap escape ++ '"' :: drawing style))) =
      some (.declaration number style label) := by
  have hprefix : ' ' :: "[label=\"".toList = " [label=\"".toList := by decide
  rw [← List.cons_append, hprefix, readDeclaration?, dropPrefix?_append]
  simp only [Option.bind_eq_bind, Option.bind_some, readQuoted?_escaped, find?_drawing, String.ofList_toList]
  rfl

theorem readEdge?_arrow (parent child : Nat) :
    readEdge? parent (' ' :: ("-> n".toList ++
      (Nat.toDigits 10 child ++ ' ' :: "[color=\"gray50\"];".toList))) = some (.edge parent child) := by
  have hprefix : ' ' :: "-> n".toList = " -> n".toList := by decide
  have hend : ' ' :: "[color=\"gray50\"];".toList = " [color=\"gray50\"];".toList := by decide
  rw [← List.cons_append, hprefix, readEdge?, dropPrefix?_append]
  simp only [Option.bind_eq_bind, Option.bind_some, readNumber_toDigits]
  exact if_pos hend

theorem Line.read?_text (line : Line) : Line.read? line.text = some line := by
  cases line with
  | declaration number style label =>
      show Line.read? (declarationText number style label) = _
      delta declarationText
      rw [Line.read?, dropPrefix?_append]
      simp only [Option.bind_eq_bind, Option.bind_some, readNumber_toDigits, readDeclaration?_label]
      rfl
  | edge parent child =>
      show Line.read? (edgeText parent child) = _
      delta edgeText
      rw [Line.read?, dropPrefix?_append]
      simp only [Option.bind_eq_bind, Option.bind_some, readNumber_toDigits, readEdge?_arrow]
      rfl

/-! ### The lines of a text -/

/-- The lines before the first node. -/
def headerLines : List (List Char) :=
  ["digraph AST \x7b", "    bgcolor=\"white\";", "    rankdir=TB;",
    "    node [fontname=\"Helvetica\"];"].map String.toList

/-- The lines of a node below the root. -/
def Entry.lines (entry : Entry) : List Line :=
  [.declaration entry.number entry.style entry.label, .edge entry.parent entry.number]

/-- The lines between the header and the closing brace. -/
def graphLines (diagram : Diagram) : List Line :=
  .declaration 0 diagram.style diagram.label :: (childEntries 0 1 diagram.children).flatMap Entry.lines

/-- Lines that are ended by line breaks are what stands between the line breaks, and nothing behind the last one. -/
theorem splitOn_flatMap {lines : List (List Char)} (h : ∀ line ∈ lines, '\n' ∉ line) :
    (lines.flatMap (· ++ ['\n'])).splitOn '\n' = lines ++ [[]] := by
  have hjoin : lines.flatMap (· ++ ['\n']) = ['\n'].intercalate (lines ++ [[]]) := by
    clear h
    induction lines with
    | nil => rfl
    | cons line lines ih =>
        rw [List.flatMap_cons, ih, List.cons_append, List.intercalate_cons_of_ne_nil (by simp)]
  rw [hjoin, List.splitOn_intercalate]
  · rw [List.forall_mem_append]
    exact ⟨h, by simp⟩
  · simp

theorem toList_header : header.toList = headerLines.flatMap (· ++ ['\n']) := by
  decide

theorem break_not_mem_headerLines : ∀ line ∈ headerLines, '\n' ∉ line := by
  decide

theorem flatMap_entryText (entries : List Entry) :
    entries.flatMap Entry.text = ((entries.flatMap Entry.lines).map Line.text).flatMap (· ++ ['\n']) := by
  induction entries with
  | nil => rfl
  | cons entry entries ih => simp [ih, Entry.text, Entry.lines]

/-- The text falls into lines at its line breaks as it was put together from them. -/
theorem splitOn_render (diagram : Diagram) :
    diagram.render.toList.splitOn '\n' =
      headerLines ++ diagram.graphLines.map Line.text ++ ["\x7d".toList, []] := by
  have htext : diagram.render.toList =
      (headerLines ++ diagram.graphLines.map Line.text ++ ["\x7d".toList]).flatMap (· ++ ['\n']) := by
    obtain ⟨style, label, children⟩ := diagram
    have hbrace : "\x7d\n".toList = "\x7d".toList ++ ['\n'] := by decide
    rw [toList_render, toList_header, flatMap_entryText, hbrace]
    simp only [-String.reduceToList, graphLines, Diagram.style, Diagram.label, Diagram.children, List.flatMap_append,
      List.map_cons, List.flatMap_cons, List.flatMap_nil, List.append_assoc, List.append_nil, List.cons_append,
      List.nil_append]
  rw [htext, splitOn_flatMap, List.append_assoc]
  · rfl
  · rw [List.forall_mem_append, List.forall_mem_append, List.forall_mem_map]
    exact ⟨⟨break_not_mem_headerLines, fun line _ => line.break_not_mem_text⟩, by decide⟩

/-! ### The tree that the lines draw -/

/-- The number of the node that a line declares. -/
def Line.declared? : Line → Option Nat
  | .declaration number _ _ => some number
  | .edge _ _ => none

/-- The parent and the child that a line joins. -/
def Line.arrow? : Line → Option (Nat × Nat)
  | .declaration _ _ _ => none
  | .edge parent child => some (parent, child)

/-- The lines draw the parts of a program as a tree, numbered in pre-order. -/
structure DrawsTree (program : Program) (lines : List Line) : Prop where
  declared : lines.filterMap Line.declared? = List.range program.partCount
  arrows : (lines.filterMap Line.arrow?).map Prod.snd = List.range' 1 (program.partCount - 1)
  ascending (parent child : Nat) : .edge parent child ∈ lines → parent < child
  behind (before after : List Line) (parent child : Nat) :
    lines = before ++ .edge parent child :: after →
      ∃ front style label, before = front ++ [.declaration child style label]
  rooted : ∀ number < program.partCount,
    Relation.ReflTransGen (fun parent child => .edge parent child ∈ lines) 0 number
  preorder : ∃ paths : List (List Nat), paths.length = program.partCount ∧ paths.Pairwise (· < ·) ∧
    (∀ path, path ∈ paths ↔ ((Part.ofProgram program).at? path).isSome = true) ∧
    (∀ number style label, .declaration number style label ∈ lines → ∃ path part, paths[number]? = some path ∧
      (Part.ofProgram program).at? path = some part ∧ part.diagram.style = style ∧ part.diagram.label = label) ∧
    ∀ parent child, .edge parent child ∈ lines → ∃ path index, paths[parent]? = some path ∧
      paths[child]? = some (path ++ [index])

theorem size_eq (diagram : Diagram) : diagram.size = sizes diagram.children + 1 := by
  cases diagram
  rfl

theorem filterMap_declared?_lines (entries : List Entry) :
    (entries.flatMap Entry.lines).filterMap Line.declared? = entries.map Entry.number := by
  induction entries with
  | nil => rfl
  | cons entry entries ih =>
      rw [List.flatMap_cons, List.filterMap_append, ih]
      rfl

theorem filterMap_arrow?_lines (entries : List Entry) :
    (entries.flatMap Entry.lines).filterMap Line.arrow? = entries.map fun entry => (entry.parent, entry.number) := by
  induction entries with
  | nil => rfl
  | cons entry entries ih =>
      rw [List.flatMap_cons, List.filterMap_append, ih]
      rfl

theorem declaration_mem_graphLines {diagram : Diagram} {number : Nat} {style : NodeStyle} {label : String} :
    .declaration number style label ∈ diagram.graphLines ↔
      (number = 0 ∧ style = diagram.style ∧ label = diagram.label) ∨
        ∃ entry ∈ childEntries 0 1 diagram.children,
          entry.number = number ∧ entry.style = style ∧ entry.label = label := by
  simp [graphLines, Entry.lines, eq_comm]

theorem edge_mem_graphLines {diagram : Diagram} {parent child : Nat} :
    .edge parent child ∈ diagram.graphLines ↔
      ∃ entry ∈ childEntries 0 1 diagram.children, entry.parent = parent ∧ entry.number = child := by
  simp [graphLines, Entry.lines, eq_comm]

theorem edge_behind_declaration {entries : List Entry} {before after : List Line} {parent child : Nat}
    (h : entries.flatMap Entry.lines = before ++ .edge parent child :: after) :
    ∃ front style label, before = front ++ [.declaration child style label] := by
  induction entries generalizing before with
  | nil => simp at h
  | cons entry entries ih =>
      rw [List.flatMap_cons, Entry.lines] at h
      match before with
      | [] => cases h
      | [line] =>
          cases h
          exact ⟨[], _, _, rfl⟩
      | first :: second :: before =>
          obtain ⟨front, style, label, rfl⟩ := ih (List.cons.inj (List.cons.inj h).2).2
          exact ⟨first :: second :: front, style, label, rfl⟩

/-- In a list in increasing order the smaller value has the smaller index. -/
theorem lt_of_getElem?_lt {order : List (List Nat)} (horder : order.Pairwise (· < ·)) {i j : Nat} {a b : List Nat}
    (hi : order[i]? = some a) (hj : order[j]? = some b) (hlt : a < b) : i < j := by
  obtain ⟨hilt, rfl⟩ := List.getElem?_eq_some_iff.mp hi
  obtain ⟨hjlt, rfl⟩ := List.getElem?_eq_some_iff.mp hj
  rcases Nat.lt_trichotomy i j with hij | rfl | hji
  · exact hij
  · exact absurd hlt (lt_irrefl _)
  · exact absurd hlt (lt_asymm (List.pairwise_iff_getElem.mp horder j i hjlt hilt hji))

/-- The node with some number is the one at that place in pre-order. -/
theorem isAt_of_mem_graph (diagram : Diagram) :
    ∀ entry ∈ childEntries 0 1 diagram.children, entry.IsAt diagram diagram.paths := by
  have hroot : diagram.paths[0]? = some [] := by
    rw [paths_eq]
    rfl
  apply isAt_of_mem_childEntries [[]] [] 0 hroot rfl
  · intro offset child hchild
    simp [at?, hchild]
  · simp [paths_eq]

theorem Entry.IsAt.parent_lt_number {diagram : Diagram} {entry : Entry} (h : entry.IsAt diagram diagram.paths) :
    entry.parent < entry.number := by
  obtain ⟨stem, index, _, hparent, hnumber, _⟩ := h
  apply lt_of_getElem?_lt diagram.pairwise_paths hparent hnumber
  have hlt : stem ++ [] < stem ++ [index] := List.append_left_lt (List.nil_lt_cons _ _)
  rwa [List.append_nil] at hlt

/-- Edges upwards into all nodes but the root lead from the root to every node. -/
theorem reaches_of_arrows {lines : List Line} {count : Nat}
    (harrows : (lines.filterMap Line.arrow?).map Prod.snd = List.range' 1 (count - 1))
    (hascending : ∀ parent child, .edge parent child ∈ lines → parent < child) :
    ∀ number < count, Relation.ReflTransGen (fun parent child => .edge parent child ∈ lines) 0 number := by
  intro number hnumber
  induction number using Nat.strong_induction_on with
  | _ number ih =>
      rcases Nat.eq_zero_or_pos number with rfl | hpos
      · exact .refl
      · have hmem : number ∈ (lines.filterMap Line.arrow?).map Prod.snd := by
          rw [harrows, List.mem_range'_1]
          omega
        obtain ⟨⟨parent, child⟩, harrow, rfl⟩ := List.mem_map.mp hmem
        obtain ⟨line, hline, hread⟩ := List.mem_filterMap.mp harrow
        cases line with
        | declaration => cases hread
        | edge parent child =>
            cases hread
            have hlt := hascending parent child hline
            exact (ih parent hlt (hlt.trans hnumber)).tail hline

end Diagram

namespace Program

open Diagram

theorem at?_diagram (program : Program) (path : List Nat) :
    program.diagram.at? path = ((Part.ofProgram program).at? path).map Part.diagram :=
  (Part.ofProgram program).at?_diagram path

theorem mem_paths_diagram_iff {program : Program} {path : List Nat} :
    path ∈ program.diagram.paths ↔ ((Part.ofProgram program).at? path).isSome = true := by
  rw [mem_paths_iff, at?_diagram, Option.isSome_map]

theorem exists_part_of_declaration {program : Program} {number : Nat} {style : NodeStyle} {label : String}
    (h : .declaration number style label ∈ program.diagram.graphLines) :
    ∃ path part, program.diagram.paths[number]? = some path ∧ (Part.ofProgram program).at? path = some part ∧
      part.diagram.style = style ∧ part.diagram.label = label := by
  rcases declaration_mem_graphLines.mp h with ⟨rfl, rfl, rfl⟩ | ⟨entry, hentry, rfl, rfl, rfl⟩
  · exact ⟨[], .ofProgram program, by rw [paths_eq]; rfl, rfl, rfl, rfl⟩
  · obtain ⟨stem, index, below, _, hnumber, hat, hstyle, hlabel⟩ := isAt_of_mem_graph _ entry hentry
    rw [at?_diagram] at hat
    obtain ⟨part, hpart, rfl⟩ := Option.map_eq_some_iff.mp hat
    exact ⟨_, part, hnumber, hpart, hstyle, hlabel⟩

theorem drawsTree_graphLines (program : Program) : DrawsTree program program.diagram.graphLines := by
  have hchildren : sizes program.diagram.children = program.partCount - 1 := by
    rw [← program.size_diagram, size_eq, Nat.add_sub_cancel]
  have harrows : (program.diagram.graphLines.filterMap Line.arrow?).map Prod.snd =
      List.range' 1 (program.partCount - 1) := by
    rw [graphLines, List.filterMap_cons, ← hchildren, ← map_number_childEntries 0, filterMap_arrow?_lines]
    simp [Line.arrow?]
  have hascending (parent child : Nat) (hedge : .edge parent child ∈ program.diagram.graphLines) :
      parent < child := by
    obtain ⟨entry, hentry, rfl, rfl⟩ := edge_mem_graphLines.mp hedge
    exact (isAt_of_mem_graph _ entry hentry).parent_lt_number
  constructor
  case declared =>
    rw [graphLines, List.filterMap_cons, filterMap_declared?_lines, map_number_childEntries, ← program.size_diagram,
      size_eq, List.range_eq_range', List.range'_succ]
    rfl
  case arrows => exact harrows
  case ascending => exact hascending
  case behind =>
    intro before after parent child hlines
    cases before with
    | nil => cases hlines
    | cons first before =>
        obtain ⟨front, style, label, rfl⟩ := edge_behind_declaration (List.cons.inj hlines).2
        exact ⟨first :: front, style, label, rfl⟩
  case rooted => exact reaches_of_arrows harrows hascending
  case preorder =>
    refine ⟨program.diagram.paths, ?_, program.diagram.pairwise_paths, fun _ => mem_paths_diagram_iff,
      fun _ _ _ => exists_part_of_declaration, ?_⟩
    · rw [length_paths, program.size_diagram]
    · intro parent child hedge
      obtain ⟨entry, hentry, rfl, rfl⟩ := edge_mem_graphLines.mp hedge
      obtain ⟨stem, index, _, hparent, hnumber, _⟩ := isAt_of_mem_graph _ entry hentry
      exact ⟨stem, index, hparent, hnumber⟩

end Program

/-- The text of a program's diagram is made of lines: those of the header, one for each node and each edge, and the
closing brace. Every line is read back as what it was written for, whatever characters its label has. The
lines draw a tree with one node for each part of the program, numbered in pre-order from the root on, and one edge into
each node but the root, from a smaller number and directly behind the line of the node. -/
theorem render_diagram_drawsTree (program : Program) :
    ∃ lines : List Diagram.Line,
      program.diagram.render.toList.splitOn '\n' =
        Diagram.headerLines ++ lines.map Diagram.Line.text ++ ["\x7d".toList, []] ∧
      Diagram.headerLines.length = 4 ∧
      (∀ line ∈ lines, Diagram.Line.read? line.text = some line) ∧
      Diagram.DrawsTree program lines :=
  ⟨program.diagram.graphLines, program.diagram.splitOn_render, rfl, fun line _ => line.read?_text,
    program.drawsTree_graphLines⟩

end ScriptLang
