import ScriptLang.Proofs.Grammar.Blame
/-!
# More tokens behind the ones that were read

A rule looks one token ahead, so what it does with some tokens says much about what it does with more of them
behind. If it has not come to the end, it does the same again. If it failed for want of a token, it goes on into
the new ones. If it succeeded at the very end, it may go on as well, but only where an operator, `elseif` or
`else` follows, and an expression then only gets higher. So a level too many, which is noticed after the right
operand of an operator, stays one too many.

`Prolonged` relates the two answers of a rule in all these cases, and `Extends` says that they always are.
-/

namespace ScriptLang.Grammar

namespace Rule

variable {α β : Type}

abbrev Answer (α : Type) := EStateM.Result SyntaxError Cursor α

namespace Answer

/-- The tokens that are left, after a success or a failure. -/
def left : Answer α → List Token
  | .ok _ cursor => cursor.rest
  | .error _ cursor => cursor.rest

/-- Goes on after a success. -/
def andThen (answer : Answer α) (continued : α → Rule β) : Answer β :=
  match answer with
  | .ok value cursor => continued value cursor
  | .error error cursor => .error error cursor

/-- The first of these tokens is taken and was not refused. A success has a value that meets the condition. -/
def Past (more : List Token) (condition : α → Prop) : Answer α → Prop
  | .ok value cursor => cursor.rest.length < more.length ∧ condition value
  | .error error cursor =>
    cursor.rest.length < more.length ∧
      ∀ token, error = .unexpectedToken token → cursor.rest.length + 1 < more.length

variable {more : List Token} {condition : α → Prop} {condition' : β → Prop} {answer : Answer α}
  {continued : α → Rule β}

theorem Past.left_lt (h : answer.Past more condition) : answer.left.length < more.length := by
  cases answer with
  | ok value cursor => exact h.1
  | error error cursor => exact h.1

theorem Past.andThen (h : answer.Past more condition)
    (hcontinued : ∀ value cursor, cursor.rest.length < more.length → condition value →
      Past more condition' (continued value cursor)) : (answer.andThen continued).Past more condition' := by
  cases answer with
  | ok value cursor => exact hcontinued value cursor h.1 h.2
  | error error cursor => exact h

section

variable (hleft : ∀ value cursor, (left (continued value cursor)).length ≤ cursor.rest.length)

include hleft

theorem left_andThen_le : (answer.andThen continued).left.length ≤ answer.left.length := by
  cases answer with
  | ok value cursor => exact hleft value cursor
  | error error cursor => exact Nat.le_refl _

theorem left_andThen_lt (h : answer.left.length < more.length) :
    (answer.andThen continued).left.length < more.length :=
  Nat.lt_of_le_of_lt (left_andThen_le hleft) h

end

end Answer

theorem bind_apply (first : Rule α) (continued : α → Rule β) (cursor : Cursor) :
    (first >>= continued) cursor = Answer.andThen (first cursor) continued := by
  change EStateM.bind first continued cursor = _
  unfold EStateM.bind Answer.andThen
  cases first cursor <;> rfl

/-- The answers of a rule on some tokens, and on the same tokens with more behind them. A success at the end is
`opened` by what follows, in a way that depends on the rule. -/
inductive Prolonged (more : List Token) (opened : α → Answer α → Prop) : Answer α → Answer α → Prop
  | ok {value : α} {rest : List Token} {lines : Array Nat} :
      Prolonged more opened (.ok value ⟨rest, lines⟩) (.ok value ⟨rest ++ more, lines⟩)
  | error {error : SyntaxError} {rest : List Token} {lines : Array Nat} :
      Prolonged more opened (.error error ⟨rest, lines⟩) (.error error ⟨rest ++ more, lines⟩)
  | starved {cursor : Cursor} {longer : Answer α} (h : longer.left.length < more.length) :
      Prolonged more opened (.error .endOfInput cursor) longer
  | opened {value : α} {lines : Array Nat} {longer : Answer α} (h : opened value longer) :
      Prolonged more opened (.ok value ⟨[], lines⟩) longer
  | deep {token : Token} {lines : Array Nat} {longer : Answer α} (h : longer.Past more fun _ => False) :
      Prolonged more opened (.error (.nestingTooDeep token) ⟨[], lines⟩) longer

/-- The rule never gives a token back, and more tokens prolong its answers. -/
structure Extends (opened : List Token → α → Answer α → Prop) (rule : Rule α) : Prop where
  left_le : ∀ cursor, (Answer.left (rule cursor)).length ≤ cursor.rest.length
  prolonged : ∀ tokens more lines, more ≠ [] →
    Prolonged more (opened more) (rule ⟨tokens, lines⟩) (rule ⟨tokens ++ more, lines⟩)

/-- A success that more tokens do not touch. -/
def Settled (_ : List Token) (_ : α) (_ : Answer α) : Prop := False

/-- A success that goes on into more tokens. -/
def Reaching (more : List Token) (_ : α) (longer : Answer α) : Prop := longer.left.length < more.length

/-- A success that goes on into more tokens, because the first of them goes on with the phrase. Its value grows. -/
def Growing (grows : α → α → Prop) (more : List Token) (value : α) (longer : Answer α) : Prop :=
  ¬Ends more ∧ longer.Past more (grows value)

/-! ### Sequencing -/

theorem Prolonged.andThen {more : List Token} {opened : α → Answer α → Prop} {opened' : β → Answer β → Prop}
    {answer longer : Answer α} {continued continued' : α → Rule β} (h : Prolonged more opened answer longer)
    (hleft : ∀ value cursor, (Answer.left (continued' value cursor)).length ≤ cursor.rest.length)
    (hok : ∀ value rest lines, answer = .ok value ⟨rest, lines⟩ →
      Prolonged more opened' (continued value ⟨rest, lines⟩) (continued' value ⟨rest ++ more, lines⟩))
    (hopened : ∀ value lines, answer = .ok value ⟨[], lines⟩ → opened value longer →
      Prolonged more opened' (continued value ⟨[], lines⟩) (longer.andThen continued')) :
    Prolonged more opened' (answer.andThen continued) (longer.andThen continued') := by
  cases h with
  | ok => exact hok _ _ _ rfl
  | error => exact .error
  | starved h => exact .starved (Answer.left_andThen_lt hleft h)
  | opened h => exact hopened _ _ rfl h
  | deep h => exact .deep (h.andThen fun _ _ _ => False.elim)

/-- What is made of a value does not change how its answers are related. -/
theorem Prolonged.map {more : List Token} {answer longer : Answer α}
    (h : Prolonged more (Reaching more) answer longer) (make : α → β) :
    Prolonged more (Reaching more) (answer.andThen fun value => pure (make value))
      (longer.andThen fun value => pure (make value)) := by
  apply h.andThen fun _ _ => Nat.le_refl _
  · exact fun _ _ _ _ => .ok
  · exact fun _ _ _ hreaching => .opened (Answer.left_andThen_lt (fun _ _ => Nat.le_refl _) hreaching)

variable {opened : List Token → α → Answer α → Prop} {opened' : List Token → β → Answer β → Prop}

theorem Extends.bind {first : Rule α} {continued : α → Rule β} (hfirst : Extends opened first)
    (hcontinued : ∀ value, Extends opened' (continued value))
    (hopened : ∀ more value lines longer, opened more value longer →
      Prolonged more (opened' more) (continued value ⟨[], lines⟩) (longer.andThen continued)) :
    Extends opened' (first >>= continued) := by
  have hleft (value : α) (cursor : Cursor) := (hcontinued value).left_le cursor
  constructor
  · intro cursor
    rw [bind_apply]
    exact (Answer.left_andThen_le hleft).trans (hfirst.left_le cursor)
  · intro tokens more lines hmore
    rw [bind_apply, bind_apply]
    apply (hfirst.prolonged tokens more lines hmore).andThen hleft
    · intro value rest lines' _
      exact (hcontinued value).prolonged rest more lines' hmore
    · intro value lines' _ h
      exact hopened more value lines' _ h

theorem Extends.mono {weaker : List Token → α → Answer α → Prop} {rule : Rule α} (h : Extends opened rule)
    (himp : ∀ more value longer, opened more value longer → weaker more value longer) : Extends weaker rule := by
  refine ⟨h.left_le, fun tokens more lines hmore => ?_⟩
  have hprolonged := h.prolonged tokens more lines hmore
  generalize rule ⟨tokens, lines⟩ = answer at hprolonged ⊢
  generalize rule ⟨tokens ++ more, lines⟩ = longer at hprolonged ⊢
  cases hprolonged with
  | ok => exact .ok
  | error => exact .error
  | starved h => exact .starved h
  | opened h => exact .opened (himp more _ _ h)
  | deep h => exact .deep h

theorem Extends.of_settled {rule : Rule α} (h : Extends Settled rule) : Extends opened rule :=
  h.mono fun _ _ _ => False.elim

theorem Extends.reaching {grows : α → α → Prop} {rule : Rule α} (h : Extends (Growing grows) rule) :
    Extends Reaching rule :=
  h.mono fun _ _ _ hgrowing => hgrowing.2.left_lt

/-- What follows a settled success is prolonged on its own. -/
theorem Extends.bind_settled {first : Rule α} {continued : α → Rule β} (hfirst : Extends Settled first)
    (hcontinued : ∀ value, Extends opened' (continued value)) : Extends opened' (first >>= continued) :=
  hfirst.bind hcontinued fun _ _ _ _ => False.elim

/-- A rule that cannot do without a token. -/
def Needs (rule : Rule α) : Prop := ∀ lines, rule ⟨[], lines⟩ = .error .endOfInput ⟨[], lines⟩

/-- The rule takes a token if there is one. -/
def Takes (rule : Rule α) : Prop :=
  ∀ cursor, cursor.rest ≠ [] → (Answer.left (rule cursor)).length < cursor.rest.length

/-- If a token has to follow a phrase, the end comes too early whether the phrase is open there or not. -/
theorem Extends.bind_needs {first : Rule α} {continued : α → Rule β} (hfirst : Extends Reaching first)
    (hcontinued : ∀ value, Extends opened' (continued value)) (hneeds : ∀ value, Needs (continued value)) :
    Extends opened' (first >>= continued) := by
  apply hfirst.bind hcontinued
  intro more value lines longer hreaching
  rw [hneeds value lines]
  exact .starved (Answer.left_andThen_lt (fun value => (hcontinued value).left_le) hreaching)

theorem Extends.bind_reaching {first : Rule α} {continued : α → Rule β} (hfirst : Extends Reaching first)
    (hcontinued : ∀ value, Extends Reaching (continued value))
    (hok : ∀ value lines, ∃ value' lines', continued value ⟨[], lines⟩ = .ok value' ⟨[], lines'⟩) :
    Extends Reaching (first >>= continued) := by
  apply hfirst.bind hcontinued
  intro more value lines longer hreaching
  obtain ⟨value', lines', heq⟩ := hok value lines
  rw [heq]
  exact .opened (Answer.left_andThen_lt (fun value => (hcontinued value).left_le) hreaching)

/-- What is made of a phrase is open where the phrase is. -/
theorem Extends.bind_quiet {first : Rule α} {continued : α → Rule β} {grows : α → α → Prop}
    {grows' : β → β → Prop} {make : α → β} (hfirst : Extends (Growing grows) first)
    (hcontinued : ∀ value, Extends (Growing grows') (continued value))
    (hquiet : ∀ value rest lines, ∃ lines', continued value ⟨rest, lines⟩ = .ok (make value) ⟨rest, lines'⟩)
    (hgrows : ∀ value value', grows value value' → grows' (make value) (make value')) :
    Extends (Growing grows') (first >>= continued) := by
  apply hfirst.bind hcontinued
  intro more value lines longer hgrowing
  obtain ⟨lines', heq⟩ := hquiet value [] lines
  rw [heq]
  refine .opened ⟨hgrowing.1, hgrowing.2.andThen ?_⟩
  intro value' cursor hlt hvalue
  obtain ⟨lines'', heq'⟩ := hquiet value' cursor.rest cursor.closedLines
  rw [heq']
  exact ⟨hlt, hgrows value value' hvalue⟩

theorem extends_pure (value : α) : Extends opened (pure value : Rule α) :=
  ⟨fun _ => Nat.le_refl _, fun _ _ _ _ => .ok⟩

theorem extends_throw (error : SyntaxError) : Extends opened (throw error : Rule α) :=
  ⟨fun _ => Nat.le_refl _, fun _ _ _ _ => .error⟩

theorem Extends.bind_pure {first : Rule α} {grows : α → α → Prop} {grows' : β → β → Prop} {make : α → β}
    (hfirst : Extends (Growing grows) first)
    (hgrows : ∀ value value', grows value value' → grows' (make value) (make value')) :
    Extends (Growing grows') (first >>= fun value => pure (make value)) :=
  hfirst.bind_quiet (fun value => extends_pure (make value)) (fun _ _ lines => ⟨lines, rfl⟩) hgrows

/-! ### Single tokens -/

theorem extends_next : Extends Settled next := by
  constructor
  · rintro ⟨rest, lines⟩
    cases rest with
    | nil => exact Nat.le_refl _
    | cons first rest => exact Nat.le_succ _
  · intro tokens more lines hmore
    cases tokens with
    | nil =>
        obtain ⟨first, rest, rfl⟩ := List.exists_cons_of_ne_nil hmore
        exact .starved (Nat.lt_succ_self _)
    | cons first rest => exact .ok

theorem extends_expect (kind : Kind) : Extends Settled (expect kind) := by
  apply extends_next.bind_settled
  intro token
  split
  · exact extends_pure token
  · exact extends_throw _

theorem extends_tooDeep : Extends Settled (tooDeep : Rule α) :=
  extends_next.bind_settled fun _ => extends_throw _

theorem extends_close (token : Token) : Extends Settled (close token) :=
  ⟨fun _ => Nat.le_refl _, fun _ _ _ _ => .ok⟩

/-- Where nothing is left, the rule goes on without a token. With more tokens it may get one. -/
theorem Extends.takeIf_bind {known : Kind → Option α} {continued : Option (α × Token) → Rule β}
    (hnone : Extends opened' (continued none))
    (hsome : ∀ found token, Extends opened' (continued (some (found, token))))
    (hopened : ∀ found token later lines, known token.kind = some found →
      Prolonged (token :: later) (opened' (token :: later)) (continued none ⟨[], lines⟩)
        (continued (some (found, token)) ⟨later, lines⟩)) : Extends opened' (takeIf known >>= continued) := by
  have hnil (lines : Array Nat) : takeIf known ⟨[], lines⟩ = .ok none ⟨[], lines⟩ := rfl
  constructor
  · rintro ⟨rest, lines⟩
    cases rest with
    | nil => exact hnone.left_le ⟨[], lines⟩
    | cons first rest =>
        cases hknown : known first.kind with
        | none =>
            rw [bind_of_ok (takeIf_eq_none (by simpa using hknown) lines)]
            exact hnone.left_le _
        | some found =>
            rw [bind_of_ok (takeIf_eq_some hknown rest lines)]
            exact ((hsome found first).left_le ⟨rest, lines⟩).trans (Nat.le_succ _)
  · intro tokens more lines hmore
    cases tokens with
    | nil =>
        obtain ⟨first, later, rfl⟩ := List.exists_cons_of_ne_nil hmore
        rw [bind_of_ok (hnil lines), List.nil_append]
        cases hknown : known first.kind with
        | none =>
            rw [bind_of_ok (takeIf_eq_none (by simpa using hknown) lines)]
            exact hnone.prolonged [] _ lines hmore
        | some found =>
            rw [bind_of_ok (takeIf_eq_some hknown later lines)]
            exact hopened found first later lines hknown
    | cons first rest =>
        rw [List.cons_append]
        cases hknown : known first.kind with
        | none =>
            rw [bind_of_ok (takeIf_eq_none (by simpa using hknown) lines),
              bind_of_ok (takeIf_eq_none (by simpa using hknown) lines)]
            exact hnone.prolonged (first :: rest) more lines hmore
        | some found =>
            rw [bind_of_ok (takeIf_eq_some hknown rest lines), bind_of_ok (takeIf_eq_some hknown _ lines)]
            exact (hsome found first).prolonged rest more lines hmore

theorem Needs.bind {first : Rule α} (h : Needs first) (continued : α → Rule β) : Needs (first >>= continued) := by
  intro lines
  rw [bind_apply, h lines]
  rfl

theorem needs_next : Needs next := fun _ => rfl

theorem needs_expect (kind : Kind) : Needs (expect kind) := needs_next.bind _

theorem takes_next_bind {continued : Token → Rule α} (h : ∀ token, Extends opened (continued token)) :
    Takes (next >>= continued) := by
  rintro ⟨rest, lines⟩ hrest
  obtain ⟨first, rest, rfl⟩ := List.exists_cons_of_ne_nil hrest
  exact Nat.lt_succ_of_le ((h first).left_le ⟨rest, lines⟩)

/-- A rule that starts behind the first of these tokens, and refuses none but its own, is past it. -/
theorem Extends.past {rule : Rule α} (h : Extends opened rule) (haccountable : Accountable [] rule)
    {more : List Token} {condition : α → Prop} {cursor : Cursor} (hlt : cursor.rest.length < more.length)
    (hvalue : ∀ value cursor', rule cursor = .ok value cursor' → condition value) :
    Answer.Past more condition (rule cursor) := by
  have hle := h.left_le cursor
  cases hanswer : rule cursor with
  | ok value cursor' =>
      rw [hanswer] at hle
      exact ⟨Nat.lt_of_le_of_lt hle hlt, hvalue value cursor' hanswer⟩
  | error error cursor' =>
      rw [hanswer] at hle
      refine ⟨Nat.lt_of_le_of_lt hle hlt, ?_⟩
      rintro token rfl
      obtain ⟨taken, htaken⟩ := exists_taken_of_refused haccountable hanswer
      rw [htaken, List.length_append, List.length_cons] at hlt
      omega

/-- A success stands if what follows does not go on with the phrase. -/
theorem Extends.ok_append {grows : α → α → Prop} {rule : Rule α} (h : Extends (Growing grows) rule)
    {tokens rest more : List Token} {lines lines' : Array Nat} {value : α} (hends : Ends more)
    (hok : rule ⟨tokens, lines⟩ = .ok value ⟨rest, lines'⟩) :
    rule ⟨tokens ++ more, lines⟩ = .ok value ⟨rest ++ more, lines'⟩ := by
  by_cases hmore : more = []
  · rw [hmore, List.append_nil, List.append_nil]
    exact hok
  · have hprolonged := h.prolonged tokens more lines hmore
    rw [hok] at hprolonged
    generalize rule ⟨tokens ++ more, lines⟩ = longer at hprolonged ⊢
    cases hprolonged with
    | ok => rfl
    | opened hgrowing => exact absurd hends hgrowing.1

end Rule

end ScriptLang.Grammar
