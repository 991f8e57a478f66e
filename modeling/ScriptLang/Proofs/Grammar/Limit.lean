import ScriptLang.Proofs.Grammar.Counting
/-!
# More room changes nothing but the limit

A rule with less room either fails because a level is missing, or answers as the rule with more room does: the same
value or the same error, and the same tokens left. `Narrows` says so of two rules. It composes along sequencing, so it
holds of the rules of the grammar step by step, by induction on the smaller room.

Without any room a rule fails at the first token. If there is none, it fails for want of it, and so does every rule
that takes a token first.
-/

namespace ScriptLang.Grammar

namespace Rule

variable {α β : Type}

/-- The answer is that there are not enough levels. -/
def Answer.TooDeep (answer : Answer α) : Prop := ∃ token cursor, answer = .error (.nestingTooDeep token) cursor

/-- Wherever the first rule has levels enough, the other one gives the same answer. -/
def Narrows (narrow wide : Rule α) : Prop := ∀ cursor, Answer.TooDeep (narrow cursor) ∨ wide cursor = narrow cursor

namespace Narrows

theorem refl (rule : Rule α) : Narrows rule rule := fun _ => .inr rfl

theorem throw_tooDeep (token : Token) (wide : Rule α) : Narrows (throw (.nestingTooDeep token)) wide :=
  fun cursor => .inl ⟨token, cursor, rfl⟩

theorem tooDeep {wide : Rule α} (h : Needs wide) : Narrows tooDeep wide := by
  rintro ⟨rest, lines⟩
  cases rest with
  | nil => exact .inr (h lines)
  | cons token rest => exact .inl ⟨token, ⟨rest, lines⟩, rfl⟩

theorem bind {narrow wide : Rule α} {continued continued' : α → Rule β} (h : Narrows narrow wide)
    (hcontinued : ∀ value, Narrows (continued value) (continued' value)) :
    Narrows (narrow >>= continued) (wide >>= continued') := by
  intro cursor
  rw [bind_apply, bind_apply]
  rcases h cursor with ⟨token, cursor', hdeep⟩ | hsame
  · rw [hdeep]
    exact .inl ⟨token, cursor', rfl⟩
  · rw [hsame]
    cases narrow cursor with
    | ok value cursor' => exact hcontinued value cursor'
    | error error cursor' => exact .inr rfl

theorem bind_left {narrow wide : Rule α} (h : Narrows narrow wide) (continued : α → Rule β) :
    Narrows (narrow >>= continued) (wide >>= continued) :=
  h.bind fun value => refl (continued value)

theorem bind_right (first : Rule α) {continued continued' : α → Rule β}
    (h : ∀ value, Narrows (continued value) (continued' value)) :
    Narrows (first >>= continued) (first >>= continued') :=
  (refl first).bind h

end Narrows

end Rule

open Rule

/-! ### Phrases need a token -/

theorem needs_expr (room : Nat) (tier : Tier) : Needs (expr room tier) := by
  cases room with
  | zero => exact needs_next.bind _
  | succ room =>
      induction tier using Tier.induction with
      | unary => exact fun _ => rfl
      | looser tier htier htighter =>
          rw [expr_succ_eq_bind htier]
          exact htighter.bind _

theorem Phrase.needs {α : Type} (phrase : Phrase α) (room : Nat) : Needs (phrase.rule room) := by
  cases phrase with
  | primary =>
      cases room with
      | zero => exact needs_next.bind _
      | succ room => exact needs_next.bind _
  | expr tier => exact needs_expr room tier
  | statement =>
      cases room with
      | zero => exact needs_next.bind _
      | succ room => exact needs_next.bind _
  | block => exact needs_block _

/-! ### Expressions -/

section

variable {below below' : Tier → Rule Expr} (hbelow : ∀ tier, Narrows (below tier) (below' tier))

include hbelow

theorem narrows_primary : Narrows (primary below) (primary below') := by
  apply Narrows.bind_right
  intro token
  generalize token.kind = kind
  cases kind with
  | openParen => exact (hbelow .comparison).bind_left _
  | _ => exact .refl _

theorem narrows_unary : Narrows (unary below) (unary below') := by
  apply Narrows.bind_right
  intro result
  cases result with
  | none => exact narrows_primary hbelow
  | some found => exact (hbelow .unary).bind_left _

end

/-- The loop with fewer steps stops early only to say that a level is missing. -/
theorem narrows_chain {room room' : Nat} (hroom : room ≤ room') (tier : Tier) {operand operand' : Rule Expr}
    (hoperand : Narrows operand operand') {steps steps' : Nat} (hsteps : steps ≤ steps') (left : Expr) :
    Narrows (chain room tier operand steps left) (chain room' tier operand' steps' left) := by
  induction steps generalizing steps' left with
  | zero =>
      cases steps' with
      | zero =>
          apply Narrows.bind_right
          intro result
          cases result with
          | none => exact .refl _
          | some found => exact hoperand.bind_left _
      | succ steps' =>
          apply Narrows.bind_right
          intro result
          cases result with
          | none => exact .refl _
          | some found => exact hoperand.bind fun _ => .throw_tooDeep found.2 _
  | succ steps ih =>
      obtain ⟨steps', rfl⟩ := Nat.exists_eq_add_one.mpr (Nat.zero_lt_of_lt hsteps)
      apply Narrows.bind_right
      intro result
      cases result with
      | none => exact .refl _
      | some found =>
          apply hoperand.bind
          intro right
          dsimp only
          by_cases hfits : (Expr.binary found.1 left right).height ≤ room
          · rw [if_pos hfits, if_pos (Nat.le_trans hfits hroom)]
            exact ih (Nat.le_of_succ_le_succ hsteps) _
          · rw [if_neg hfits]
            exact .throw_tooDeep found.2 _

theorem narrows_expr {room room' : Nat} (h : room ≤ room') (tier : Tier) :
    Narrows (expr room tier) (expr room' tier) := by
  induction room generalizing room' tier with
  | zero => exact .tooDeep ((Phrase.expr tier).needs room')
  | succ room ih =>
      obtain ⟨room', rfl⟩ := Nat.exists_eq_add_one.mpr (Nat.zero_lt_of_lt h)
      have hbelow (tier : Tier) : Narrows (expr room tier) (expr room' tier) := ih (Nat.le_of_succ_le_succ h) tier
      induction tier using Tier.induction with
      | unary => exact narrows_unary hbelow
      | looser tier htier htighter =>
          rw [expr_succ_eq_bind htier, expr_succ_eq_bind htier]
          exact htighter.bind (narrows_chain h tier (hbelow tier.tighter) h)

/-! ### Statements -/

section

variable {item item' : Rule Statement} (hitem : Narrows item item')

include hitem

theorem narrows_statementsWithin (bound : Nat) :
    Narrows (statementsWithin item bound) (statementsWithin item' bound) := by
  induction bound with
  | zero => exact .refl _
  | succ bound ih =>
      apply Narrows.bind_right
      intro cursor
      split
      · exact .refl _
      · exact hitem.bind fun first => ih.bind_left _

theorem narrows_block : Narrows (block item) (block item') := by
  apply Narrows.bind_right
  intro _
  apply Narrows.bind_left
  exact Narrows.bind_right get fun cursor => narrows_statementsWithin hitem cursor.rest.length

end

/-- The rules of one level against those of another. -/
structure Level.Narrows (narrow wide : Level) : Prop where
  statement : Rule.Narrows narrow.statement wide.statement
  conditional : ∀ keyword, Rule.Narrows (narrow.conditional keyword) (wide.conditional keyword)

section

variable {below below' : Level} (hbelow : below.Narrows below')

include hbelow

theorem narrows_alternative : Narrows (alternative below) (alternative below') := by
  apply Narrows.bind_right
  intro result
  split
  · exact .refl _
  · exact (hbelow.conditional _).bind_left _
  · exact (narrows_block hbelow.statement).bind_left _

variable {room room' : Nat} (hroom : room ≤ room')

include hroom

theorem narrows_conditional : Narrows (conditional room below) (conditional room' below') := by
  rw [conditional_eq_bind, conditional_eq_bind]
  apply (narrows_expr hroom .comparison).bind
  intro condition
  apply (narrows_block hbelow.statement).bind
  intro body
  exact (narrows_alternative hbelow).bind_left _

theorem narrows_afterFirst (first : Token) : Narrows (afterFirst room below first) (afterFirst room' below' first) := by
  have hexpr := narrows_expr hroom .comparison
  have hblock := narrows_block hbelow.statement
  unfold afterFirst
  generalize first.kind = kind
  cases kind with
  | identifier => exact .bind_right _ fun _ => hexpr.bind_left _
  | printWord => exact .bind_right _ fun _ => hexpr.bind_left _
  | ifWord => exact narrows_conditional hbelow hroom
  | whileWord => exact hexpr.bind fun _ => hblock.bind_left _
  | forWord =>
      refine .bind_right _ fun name => ?_
      refine .bind_right _ fun _ => ?_
      refine .bind_right _ fun _ => ?_
      refine .bind_right _ fun _ => ?_
      refine .bind_right _ fun count => ?_
      exact .bind_right _ fun _ => hblock.bind_left _
  | _ => exact .refl _

end

theorem narrows_level {room room' : Nat} (h : room ≤ room') : (level room).Narrows (level room') := by
  induction room generalizing room' with
  | zero => exact ⟨.tooDeep (Phrase.statement.needs room'), fun keyword => .throw_tooDeep keyword _⟩
  | succ room ih =>
      obtain ⟨room', rfl⟩ := Nat.exists_eq_add_one.mpr (Nat.zero_lt_of_lt h)
      have hroom := Nat.le_of_succ_le_succ h
      refine ⟨?_, fun _ => narrows_conditional (ih hroom) hroom⟩
      exact .bind_right next fun first => (narrows_afterFirst (ih hroom) hroom first).bind_left _

/-! ### Phrases -/

theorem Phrase.narrows {α : Type} (phrase : Phrase α) {room room' : Nat} (h : room ≤ room') :
    Narrows (phrase.rule room) (phrase.rule room') := by
  cases phrase with
  | primary =>
      cases room with
      | zero => exact .tooDeep (primary.needs room')
      | succ room =>
          obtain ⟨room', rfl⟩ := Nat.exists_eq_add_one.mpr (Nat.zero_lt_of_lt h)
          exact narrows_primary (narrows_expr (Nat.le_of_succ_le_succ h))
  | expr tier => exact narrows_expr h tier
  | statement => exact (narrows_level h).statement
  | block => exact narrows_block (narrows_level h).statement

/-- A phrase that has levels enough at some depth is read in the same way at every smaller depth: with the same result
or the same error, and with the same tokens left. -/
theorem smaller_depth_reads_alike {α : Type} (phrase : Phrase α) {depth depth' : Nat} (hdepth : depth' ≤ depth)
    (cursor : Cursor)
    (hlevels : ∀ token cursor', phrase.rule (roomAt depth) cursor ≠ .error (.nestingTooDeep token) cursor') :
    phrase.rule (roomAt depth') cursor = phrase.rule (roomAt depth) cursor ∧
    phrase.descent .natural depth' cursor = phrase.descent .natural depth cursor := by
  have hroom : roomAt depth ≤ roomAt depth' := Nat.sub_le_sub_left hdepth _
  have hrule : phrase.rule (roomAt depth') cursor = phrase.rule (roomAt depth) cursor := by
    rcases phrase.narrows hroom cursor with ⟨token, cursor', hdeep⟩ | hsame
    · exact absurd hdeep (hlevels token cursor')
    · exact hsame
  have hexact : Arithmetic.natural.ExactTo (levelLimit + 2) := Arithmetic.exactTo_natural (Nat.le_refl _)
  refine ⟨hrule, ?_⟩
  rw [Arithmetic.descent_eq_ofRule hexact phrase depth', Arithmetic.descent_eq_ofRule hexact phrase depth]
  exact Descent.ofRule_congr hrule

theorem smaller_depth_reads_alike_difference :
    let a : Token := ⟨.identifier, "a", ⟨1, 1, 0⟩⟩
    let minus : Token := ⟨.minus, "-", ⟨1, 3, 2⟩⟩
    let sign : Token := ⟨.minus, "-", ⟨1, 5, 4⟩⟩
    let b : Token := ⟨.identifier, "b", ⟨1, 6, 5⟩⟩
    let phrase : Phrase Expr := .expr .comparison
    let cursor := Cursor.start [a, minus, sign, b]
    phrase.rule (roomAt 127) cursor = .error (.nestingTooDeep b) ⟨[], #[]⟩ ∧
      phrase.rule (roomAt 126) cursor = .ok (.binary .subtract (.var "a") (.negate (.var "b"))) ⟨[], #[]⟩ ∧
      phrase.rule (roomAt 1) cursor = phrase.rule (roomAt 126) cursor ∧
      phrase.descent .natural 1 cursor = phrase.descent .natural 126 cursor := by
  intro a minus sign b phrase cursor
  have hread : phrase.rule (roomAt 126) cursor =
      .ok (.binary .subtract (.var "a") (.negate (.var "b"))) ⟨[], #[]⟩ := rfl
  refine ⟨rfl, hread, smaller_depth_reads_alike phrase (by decide) cursor ?_⟩
  intro token cursor' hdeep
  rw [hread] at hdeep
  cases hdeep

end ScriptLang.Grammar
