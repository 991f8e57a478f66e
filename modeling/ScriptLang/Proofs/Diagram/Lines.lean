import Mathlib
import ScriptLang.Diagram
import ScriptLang.Proofs.Decimal.Layout
/-!
# The text of a diagram determines it

The text of a diagram is a sequence of lines. A line ends at its first line break, since a label never holds one, and
it can be read back: a number ends at the blank behind its digits, and a label at the first quote that no backslash
stands before. What is read are the nodes in pre-order, each with the number of its parent. The children of a node are
then the subtrees whose roots name it, and they end where a node names an earlier parent.
-/

namespace ScriptLang

namespace Diagram

/-! ### Lines -/

inductive Line where
  | declaration (number : Nat) (style : NodeStyle) (label : String)
  | edge (parent child : Nat)

/-- What stands behind the label of a node. -/
def drawing (style : NodeStyle) : List Char :=
  ", shape=".toList ++ (style.shape.toList ++ (", style=filled, fillcolor=\"".toList ++
    (style.color.toList ++ "\", color=black];".toList)))

def declarationText (number : Nat) (style : NodeStyle) (label : String) : List Char :=
  "    n".toList ++ (Nat.toDigits 10 number ++ ' ' :: ("[label=\"".toList ++
    (label.toList.flatMap escape ++ '"' :: drawing style)))

def edgeText (parent child : Nat) : List Char :=
  "    n".toList ++ (Nat.toDigits 10 parent ++ ' ' :: ("-> n".toList ++
    (Nat.toDigits 10 child ++ ' ' :: "[color=\"gray50\"];".toList)))

/-- A line without the line break at its end. -/
def Line.text : Line → List Char
  | .declaration number style label => declarationText number style label
  | .edge parent child => edgeText parent child

theorem toList_declaration (number : Nat) (style : NodeStyle) (label : String) :
    (declaration number style label).toList = (Line.declaration number style label).text ++ ['\n'] := by
  have hlabel : " [label=\"".toList = ' ' :: "[label=\"".toList := by decide
  have hshape : "\", shape=".toList = '"' :: ", shape=".toList := by decide
  have hend : "\", color=black];\n".toList = "\", color=black];".toList ++ ['\n'] := by decide
  show ("    n" ++ number.repr ++ " [label=\"" ++ escapeLabel label ++
    ("\", shape=" ++ style.shape ++ ", style=filled, fillcolor=\"" ++ style.color ++ "\", color=black];\n")).toList = _
  show _ = declarationText number style label ++ ['\n']
  -- `delta`, since the equations of definitions that hold fixed texts are slow to derive.
  delta declarationText drawing
  simp only [-String.reduceToList, escapeLabel, String.toList_append, String.toList_ofList, Nat.toList_repr, hlabel,
    hshape, hend, List.append_assoc, List.cons_append]

theorem toList_edge (parent child : Nat) : (edge parent child).toList = (Line.edge parent child).text ++ ['\n'] := by
  have harrow : " -> n".toList = ' ' :: "-> n".toList := by decide
  have hend : " [color=\"gray50\"];\n".toList = ' ' :: ("[color=\"gray50\"];".toList ++ ['\n']) := by decide
  show ("    n" ++ parent.repr ++ " -> n" ++ child.repr ++ " [color=\"gray50\"];\n").toList = _
  show _ = edgeText parent child ++ ['\n']
  delta edgeText
  simp only [-String.reduceToList, String.toList_append, Nat.toList_repr, harrow, hend, List.append_assoc,
    List.cons_append]

section

variable {rest rest' : List Char}

/-! ### Reading a line -/

/-- A run of characters of one kind ends at the first of another. -/
theorem append_inj_of_head {condition : Char → Bool} {inside inside' : List Char}
    (hinside : ∀ char ∈ inside, condition char = true) (hinside' : ∀ char ∈ inside', condition char = true)
    (hrest : ∀ char ∈ rest.head?, condition char = false) (hrest' : ∀ char ∈ rest'.head?, condition char = false)
    (h : inside ++ rest = inside' ++ rest') : inside = inside' ∧ rest = rest' := by
  have htake := congrArg (List.takeWhile condition) h
  have hdrop := congrArg (List.dropWhile condition) h
  rw [takeWhile_append_of_head hinside hrest, takeWhile_append_of_head hinside' hrest'] at htake
  rw [dropWhile_append_of_head hinside hrest, dropWhile_append_of_head hinside' hrest'] at hdrop
  exact ⟨htake, hdrop⟩

/-- A number ends at the blank behind it. -/
theorem toDigits_append_inj {n n' : Nat}
    (h : Nat.toDigits 10 n ++ ' ' :: rest = Nat.toDigits 10 n' ++ ' ' :: rest') : n = n' ∧ rest = rest' := by
  obtain ⟨hdigits, hrest⟩ := append_inj_of_head (fun _ => isDigit_of_mem_toDigits)
    (fun _ => isDigit_of_mem_toDigits) (by simp) (by simp) h
  refine ⟨?_, (List.cons.inj hrest).2⟩
  rw [← Nat.ofDigitChars_ten_toDigits (n := n), hdigits, Nat.ofDigitChars_ten_toDigits]

/-- No character of a label is written like the start of another one. -/
theorem escape_append_inj {char char' : Char} (h : escape char ++ rest = escape char' ++ rest') :
    char = char' ∧ rest = rest' := by
  unfold escape at h
  split at h <;> split at h <;> grind

theorem escape_append_ne (char : Char) : escape char ++ rest ≠ '"' :: rest' := by
  unfold escape
  split <;> simp_all

/-- A label ends at the first quote that is not escaped. -/
theorem escaped_append_inj {label label' : List Char}
    (h : label.flatMap escape ++ '"' :: rest = label'.flatMap escape ++ '"' :: rest') :
    label = label' ∧ rest = rest' := by
  induction label generalizing label' with
  | nil =>
      cases label' with
      | nil => exact ⟨rfl, (List.cons.inj h).2⟩
      | cons char' label' =>
          rw [List.flatMap_cons, List.append_assoc] at h
          exact absurd h.symm (escape_append_ne char')
  | cons char label ih =>
      rw [List.flatMap_cons, List.append_assoc] at h
      cases label' with
      | nil => exact absurd h (escape_append_ne char)
      | cons char' label' =>
          rw [List.flatMap_cons, List.append_assoc] at h
          obtain ⟨rfl, htail⟩ := escape_append_inj h
          obtain ⟨rfl, hrest⟩ := ih htail
          exact ⟨rfl, hrest⟩

theorem color_injective : Function.Injective NodeStyle.color := by
  intro style style' h
  cases style <;> cases style' <;> revert h <;> decide

theorem comma_not_mem_shape (style : NodeStyle) : ∀ char ∈ style.shape.toList, (char != ',') = true := by
  cases style <;> simp [NodeStyle.shape]

/-- A shape ends at the comma behind it, and every style has a color of its own. -/
theorem drawing_injective : Function.Injective drawing := by
  intro style style' h
  have hcomma (rest : List Char) :
      ∀ char ∈ (", style=filled, fillcolor=\"".toList ++ rest).head?, (char != ',') = false := by
    simp
  delta drawing at h
  obtain ⟨-, htail⟩ := append_inj_of_head (comma_not_mem_shape style) (comma_not_mem_shape style') (hcomma _)
    (hcomma _) (List.append_cancel_left h)
  exact color_injective (String.toList_inj.mp (List.append_cancel_right (List.append_cancel_left htail)))

theorem Line.text_injective : Function.Injective Line.text := by
  intro line line' h
  cases line with
  | declaration number style label =>
      cases line' with
      | declaration number' style' label' =>
          obtain ⟨rfl, hlabel⟩ := toDigits_append_inj (List.append_cancel_left h)
          obtain ⟨htext, hdrawing⟩ := escaped_append_inj (List.append_cancel_left hlabel)
          rw [String.toList_inj.mp htext, drawing_injective hdrawing]
      | edge parent child =>
          obtain ⟨-, hmark⟩ := toDigits_append_inj (List.append_cancel_left h)
          exact absurd hmark (by simp)
  | edge parent child =>
      cases line' with
      | declaration number style label =>
          obtain ⟨-, hmark⟩ := toDigits_append_inj (List.append_cancel_left h)
          exact absurd hmark (by simp)
      | edge parent' child' =>
          obtain ⟨rfl, harrow⟩ := toDigits_append_inj (List.append_cancel_left h)
          obtain ⟨rfl, -⟩ := toDigits_append_inj (List.append_cancel_left harrow)
          rfl

/-! ### Where lines end -/

theorem break_not_mem_toDigits (n : Nat) : '\n' ∉ Nat.toDigits 10 n :=
  fun h => absurd (isDigit_of_mem_toDigits h) (by decide)

theorem break_not_mem_escape (char : Char) : '\n' ∉ escape char := by
  unfold escape
  split <;> grind

theorem break_not_mem_drawing (style : NodeStyle) : '\n' ∉ drawing style := by
  delta drawing
  simp only [-String.reduceToList, List.mem_append, not_or]
  refine ⟨by decide, ?_, by decide, ?_, by decide⟩
  · cases style <;> decide
  · cases style <;> decide

theorem Line.break_not_mem_text (line : Line) : '\n' ∉ line.text := by
  cases line with
  | declaration number style label =>
      show '\n' ∉ declarationText number style label
      delta declarationText
      simp [break_not_mem_toDigits, break_not_mem_escape, break_not_mem_drawing]
  | edge parent child =>
      show '\n' ∉ edgeText parent child
      delta edgeText
      simp [break_not_mem_toDigits]

theorem Line.text_append_inj {line line' : Line} (h : line.text ++ '\n' :: rest = line'.text ++ '\n' :: rest') :
    line = line' ∧ rest = rest' := by
  have hinside (line : Line) : ∀ char ∈ line.text, (char != '\n') = true := by
    intro char hchar
    rw [bne_iff_ne]
    rintro rfl
    exact line.break_not_mem_text hchar
  obtain ⟨htext, hrest⟩ := append_inj_of_head (hinside line) (hinside line') (by simp) (by simp) h
  exact ⟨text_injective htext, (List.cons.inj hrest).2⟩

end

/-! ### Nodes in pre-order -/

/-- A node below the root. -/
structure Entry where
  parent : Nat
  number : Nat
  style : NodeStyle
  label : String

/-- The two lines of a node: its declaration, and the edge into it. -/
def Entry.text (entry : Entry) : List Char :=
  (Line.declaration entry.number entry.style entry.label).text ++ '\n' ::
    ((Line.edge entry.parent entry.number).text ++ ['\n'])

theorem Entry.flatMap_text_injective : Function.Injective fun entries : List Entry => entries.flatMap text := by
  intro entries entries' h
  have hne (entry : Entry) (rest : List Char) : entry.text ++ rest ≠ [] := by simp [text]
  induction entries generalizing entries' with
  | nil =>
      cases entries' with
      | nil => rfl
      | cons entry' entries' => exact absurd h.symm (hne _ _)
  | cons entry entries ih =>
      cases entries' with
      | nil => exact absurd h (hne _ _)
      | cons entry' entries' =>
          simp only [List.flatMap_cons, text, List.append_assoc, List.cons_append, List.nil_append] at h
          obtain ⟨hdeclaration, hedge⟩ := Line.text_append_inj h
          obtain ⟨hparent, hrest⟩ := Line.text_append_inj hedge
          obtain ⟨parent, number, style, label⟩ := entry
          obtain ⟨parent', number', style', label'⟩ := entry'
          cases hdeclaration
          cases hparent
          rw [ih hrest]

mutual

/-- The nodes of a diagram whose root has this number. -/
def entries (parent number : Nat) : Diagram → List Entry
  | .node style label children => ⟨parent, number, style, label⟩ :: childEntries number (number + 1) children

/-- The nodes of diagrams under one parent, the first of which has this number. -/
def childEntries (parent number : Nat) : List Diagram → List Entry
  | [] => []
  | child :: rest => entries parent number child ++ childEntries parent (number + child.size) rest

end

mutual

theorem flatMap_lines (parent number : Nat) : ∀ diagram : Diagram,
    (lines number (edge parent number) diagram).flatMap String.toList =
      (entries parent number diagram).flatMap Entry.text
  | .node style label children => by
      rw [lines, entries, List.flatMap_cons, List.flatMap_cons, flatMap_childLines number (number + 1) children,
        String.toList_append, toList_declaration, toList_edge]
      simp [Entry.text]

theorem flatMap_childLines (parent number : Nat) : ∀ diagrams : List Diagram,
    (childLines parent number diagrams).flatMap String.toList =
      (childEntries parent number diagrams).flatMap Entry.text
  | [] => rfl
  | child :: rest => by
      rw [childLines, childEntries, List.flatMap_append, List.flatMap_append, flatMap_lines parent number child,
        flatMap_childLines parent _ rest]

end

/-- What follows the nodes under a parent is under an earlier one. -/
def Outside (parent : Nat) (entries : List Entry) : Prop :=
  ∀ entry ∈ entries.head?, entry.parent < parent

section

variable {parent number : Nat}

theorem head?_childEntries_cons (diagram : Diagram) (diagrams : List Diagram) (rest : List Entry) :
    ∃ entry, (childEntries parent number (diagram :: diagrams) ++ rest).head? = some entry ∧ entry.parent = parent := by
  obtain ⟨style, label, children⟩ := diagram
  exact ⟨_, rfl, rfl⟩

theorem outside_childEntries {below : Nat} {diagrams : List Diagram} {rest : List Entry} (hparent : parent < below)
    (h : Outside parent rest) : Outside below (childEntries parent number diagrams ++ rest) := by
  intro entry hentry
  cases diagrams with
  | nil => exact (h entry hentry).trans hparent
  | cons diagram diagrams =>
      obtain ⟨first, hfirst, rfl⟩ := @head?_childEntries_cons parent number diagram diagrams rest
      obtain rfl : first = entry := Option.some.inj (hfirst.symm.trans hentry)
      exact hparent

theorem not_outside_childEntries_cons (diagram : Diagram) (diagrams : List Diagram) (rest : List Entry) :
    ¬Outside parent (childEntries parent number (diagram :: diagrams) ++ rest) := by
  intro h
  obtain ⟨first, hfirst, hparent⟩ := @head?_childEntries_cons parent number diagram diagrams rest
  exact absurd (h first hfirst) (by omega)

end

/-- The nodes determine the diagrams, and where they end. -/
theorem childEntries_append_inj {parent number : Nat} (hnumber : parent < number) {diagrams diagrams' : List Diagram}
    {rest rest' : List Entry} (hrest : Outside parent rest) (hrest' : Outside parent rest')
    (h : childEntries parent number diagrams ++ rest = childEntries parent number diagrams' ++ rest') :
    diagrams = diagrams' ∧ rest = rest' := by
  match diagrams, diagrams' with
  | [], [] => exact ⟨rfl, h⟩
  | [], diagram' :: diagrams' =>
      obtain rfl : rest = _ := h
      exact absurd hrest (not_outside_childEntries_cons diagram' diagrams' rest')
  | diagram :: diagrams, [] =>
      obtain rfl : _ = rest' := h
      exact absurd hrest' (not_outside_childEntries_cons diagram diagrams rest)
  | .node style label children :: diagrams, .node style' label' children' :: diagrams' =>
      rw [childEntries, childEntries, entries, entries, List.append_assoc, List.append_assoc, List.cons_append,
        List.cons_append] at h
      obtain ⟨hentry, htail⟩ := List.cons.inj h
      cases hentry
      -- The children of the first node end where its siblings begin: they are under an earlier parent.
      obtain ⟨rfl, hsiblings⟩ := childEntries_append_inj (Nat.lt_succ_self number)
        (outside_childEntries hnumber hrest) (outside_childEntries hnumber hrest') htail
      obtain ⟨rfl, hafter⟩ := childEntries_append_inj (Nat.lt_add_right _ hnumber) hrest hrest' hsiblings
      exact ⟨rfl, hafter⟩
termination_by sizeOf diagrams

theorem toList_render (style : NodeStyle) (label : String) (children : List Diagram) :
    (node style label children).render.toList = header.toList ++ ((Line.declaration 0 style label).text ++ '\n' ::
      ((childEntries 0 1 children).flatMap Entry.text ++ "\x7d\n".toList)) := by
  rw [render, String.toList_append, String.toList_append, String.toList_join, lines, List.flatMap_cons,
    flatMap_childLines, String.append_empty, toList_declaration]
  simp

/-- Two diagrams of the same text are the same. -/
theorem render_injective : Function.Injective render := by
  rintro ⟨style, label, children⟩ ⟨style', label', children'⟩ h
  have htext := congrArg String.toList h
  rw [toList_render, toList_render] at htext
  obtain ⟨hroot, hentries⟩ := Line.text_append_inj (List.append_cancel_left htext)
  have hchildren := Entry.flatMap_text_injective (List.append_cancel_right hentries)
  have houtside : Outside 0 [] := fun entry hentry => absurd hentry (Option.not_mem_none entry)
  obtain ⟨rfl, -⟩ := childEntries_append_inj Nat.zero_lt_one houtside houtside (congrArg (· ++ []) hchildren)
  cases hroot
  rfl

end Diagram

end ScriptLang
