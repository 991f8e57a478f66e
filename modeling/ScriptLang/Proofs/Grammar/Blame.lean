import ScriptLang.Proofs.Grammar.Completeness
/-!
# What an error blames

A rule that fails has taken tokens from the front too, and its error points at one of them: at the last one if
that token itself was refused, at an earlier one if it opened a level too many. Only the end of the input blames
nothing, and then nothing is left.

A rule may blame a token that was taken before it was called, so what came before is a parameter.
-/

namespace ScriptLang

/-- What an error says about the tokens that were taken and the ones that are left. -/
def SyntaxError.Blames (taken rest : List Token) : SyntaxError → Prop
  | .unexpectedToken token => taken.getLast? = some token
  | .literalTooLarge token => taken.getLast? = some token
  | .invalidLoopCount token => taken.getLast? = some token
  | .nestingTooDeep token => token ∈ taken
  | .endOfInput => rest = []

theorem SyntaxError.Blames.append_left {taken rest : List Token} {error : SyntaxError}
    (h : error.Blames taken rest) (before : List Token) : error.Blames (before ++ taken) rest := by
  cases error with
  | unexpectedToken | literalTooLarge | invalidLoopCount =>
      show (before ++ taken).getLast? = _
      rw [List.getLast?_append, show taken.getLast? = _ from h, Option.some_or]
  | nestingTooDeep => exact List.mem_append_right before h
  | endOfInput => exact h

namespace Grammar

namespace Rule

variable {α β : Type}

/-- Whenever the rule fails, it has taken tokens from the front, and its error blames one of them or of those
that were taken before. -/
def Accountable (before : List Token) (rule : Rule α) : Prop :=
  ∀ ⦃cursor error cursor'⦄, rule cursor = .error error cursor' →
    ∃ taken, cursor.rest = taken ++ cursor'.rest ∧ error.Blames (before ++ taken) cursor'.rest

/-! ### Sequencing -/

theorem bind_eq_error {first : Rule α} {continued : α → Rule β} {cursor cursor'' : Cursor} {error : SyntaxError} :
    (first >>= continued) cursor = .error error cursor'' ↔
      first cursor = .error error cursor'' ∨
      ∃ result cursor', first cursor = .ok result cursor' ∧ continued result cursor' = .error error cursor'' := by
  change EStateM.bind first continued cursor = _ ↔ _
  rw [EStateM.bind]
  cases hfirst : first cursor with
  | ok result cursor' => simp
  | error error' cursor' => simp

variable {before : List Token}

theorem Accountable.bind {first : Rule α} {continued : α → Rule β} {condition : List Token → α → Prop}
    (hfirst : Accountable before first) (hreads : Reads first condition)
    (hcontinued : ∀ taken result, condition taken result → Accountable (before ++ taken) (continued result)) :
    Accountable before (first >>= continued) := by
  intro cursor error cursor'' h
  rcases bind_eq_error.mp h with h | ⟨result, cursor', hresult, herror⟩
  · exact hfirst h
  · obtain ⟨taken, htaken, hcondition⟩ := hreads hresult
    obtain ⟨more, hmore, hblames⟩ := hcontinued taken result hcondition herror
    refine ⟨taken ++ more, ?_, ?_⟩
    · rw [htaken, hmore, List.append_assoc]
    · rw [← List.append_assoc]
      exact hblames

theorem Accountable.append_left {rule : Rule α} (h : Accountable before rule) (earlier : List Token) :
    Accountable (earlier ++ before) rule := by
  intro cursor error cursor' herror
  obtain ⟨taken, htaken, hblames⟩ := h herror
  refine ⟨taken, htaken, ?_⟩
  rw [List.append_assoc]
  exact hblames.append_left earlier

/-- What a rule answers for by itself it answers for anywhere. -/
theorem Accountable.anywhere {rule : Rule α} (h : Accountable [] rule) (before : List Token) :
    Accountable before rule := by
  simpa using h.append_left before

theorem accountable_pure (value : α) : Accountable before (pure value : Rule α) := by
  intro cursor error cursor' h
  cases h

theorem accountable_throw {error : SyntaxError} (h : ∀ rest, error.Blames before rest) :
    Accountable before (throw error : Rule α) := by
  intro cursor _ cursor' herror
  cases herror
  refine ⟨[], rfl, ?_⟩
  rw [List.append_nil]
  exact h _

theorem accountable_get : Accountable before (get : Rule Cursor) := by
  intro cursor error cursor' h
  cases h

/-! ### Single tokens -/

theorem accountable_next : Accountable before next := by
  rintro ⟨rest, lines⟩ error cursor' h
  cases rest with
  | nil =>
      cases h
      exact ⟨[], rfl, rfl⟩
  | cons first rest => cases h

/-- The last token taken may be refused. -/
theorem blames_last (error : Token → SyntaxError)
    (herror : error ∈ [SyntaxError.unexpectedToken, .literalTooLarge, .invalidLoopCount, .nestingTooDeep])
    (before : List Token) (token : Token) (rest : List Token) : (error token).Blames (before ++ [token]) rest := by
  simp only [List.mem_cons, List.not_mem_nil, or_false] at herror
  rcases herror with rfl | rfl | rfl | rfl
  · exact List.getLast?_concat
  · exact List.getLast?_concat
  · exact List.getLast?_concat
  · exact List.mem_append_right before List.mem_cons_self

theorem accountable_expect (kind : Kind) : Accountable before (expect kind) := by
  apply accountable_next.bind reads_next
  rintro _ token rfl
  split
  · exact accountable_pure _
  · exact accountable_throw (blames_last _ (by simp) before token)

theorem accountable_takeIf (known : Kind → Option α) : Accountable before (takeIf known) := by
  rintro ⟨rest, lines⟩ error cursor' h
  cases rest with
  | nil => cases h
  | cons first rest =>
      unfold takeIf at h
      dsimp only at h
      split at h <;> cases h

theorem accountable_tooDeep : Accountable before (tooDeep : Rule α) := by
  apply accountable_next.bind reads_next
  rintro _ token rfl
  exact accountable_throw (blames_last _ (by simp) before token)

theorem accountable_close (token : Token) : Accountable before (close token) := by
  intro cursor error cursor' h
  cases h

end Rule

open Rule

/-! ### Expressions -/

variable {before : List Token}

theorem accountable_number (token : Token) : Accountable (before ++ [token]) (number token) := by
  rw [number]
  split
  · exact accountable_pure _
  · exact accountable_throw (blames_last _ (by simp) before token)

section

variable {room : Nat} (hbelow : ∀ tier, Accountable [] (expr room tier))

include hbelow

theorem accountable_primary : Accountable [] (primary (expr room)) := by
  apply accountable_next.bind reads_next
  rintro _ token rfl
  split
  · exact (accountable_number token).bind (reads_number token) fun _ _ _ => accountable_pure _
  · exact accountable_pure _
  · exact accountable_pure _
  · exact accountable_pure _
  · exact accountable_pure _
  · apply ((hbelow .comparison).anywhere _).bind (reads_expr room .comparison)
    intro inside expr _
    exact (accountable_expect .closeParen).bind (reads_expect .closeParen) fun _ _ _ => accountable_pure _
  · exact accountable_throw (blames_last _ (by simp) [] token)

theorem accountable_unary : Accountable [] (unary (expr room)) := by
  apply (accountable_takeIf _).bind (reads_takeIf _)
  rintro taken result (⟨rfl, rfl⟩ | ⟨found, token, rfl, rfl, _⟩)
  · exact accountable_primary hbelow
  · exact ((hbelow .unary).anywhere _).bind (reads_expr room .unary) fun _ _ _ => accountable_pure _

/-- The operator that is blamed for a level too many was taken by the loop itself. -/
theorem accountable_chain (limit : Nat) (tier : Tier) (steps : Nat) (left : Expr) :
    Accountable [] (chain limit tier (expr room tier.tighter) steps left) := by
  induction steps generalizing left with
  | zero =>
      apply (accountable_takeIf _).bind (reads_takeIf _)
      rintro taken result (⟨rfl, rfl⟩ | ⟨operator, token, rfl, rfl, _⟩)
      · exact accountable_pure _
      · apply ((hbelow tier.tighter).anywhere _).bind (reads_expr room tier.tighter)
        intro tokens right _
        exact accountable_throw fun rest => List.mem_cons_self
  | succ steps ih =>
      apply (accountable_takeIf _).bind (reads_takeIf _)
      rintro taken result (⟨rfl, rfl⟩ | ⟨operator, token, rfl, rfl, _⟩)
      · exact accountable_pure _
      · apply ((hbelow tier.tighter).anywhere _).bind (reads_expr room tier.tighter)
        intro tokens right _
        dsimp only
        split
        · exact (ih _).anywhere _
        · exact accountable_throw fun rest => List.mem_cons_self

end

theorem accountable_expr (room : Nat) (tier : Tier) : Accountable [] (expr room tier) := by
  induction room generalizing tier with
  | zero => exact accountable_tooDeep
  | succ room ih =>
      induction tier using Tier.induction with
      | unary => exact accountable_unary ih
      | looser tier htier htighter =>
          rw [expr_succ_eq_bind htier]
          apply htighter.bind (reads_expr (room + 1) tier.tighter)
          intro tokens left _
          exact (accountable_chain ih (room + 1) tier (room + 1) left).anywhere _

/-! ### Statements -/

theorem accountable_loopCount : Accountable before loopCount := by
  apply (accountable_expect .number).bind (reads_expect .number)
  rintro _ token ⟨rfl, _⟩
  apply (accountable_number token).bind (reads_number token)
  rintro _ value ⟨rfl, _⟩
  split
  · exact accountable_pure _
  · rw [List.append_nil]
    exact accountable_throw (blames_last _ (by simp) before token)

theorem accountable_statementsWithin {room : Nat} {item : Rule Statement} (hreads : Reads item (FitsStatement room))
    (hitem : Accountable [] item) (bound : Nat) : Accountable [] (statementsWithin item bound) := by
  induction bound with
  | zero => exact accountable_pure _
  | succ bound ih =>
      apply accountable_get.bind reads_get
      rintro _ cursor rfl
      split
      · exact accountable_pure _
      · apply hitem.bind hreads
        intro firstTokens first _
        exact (ih.anywhere _).bind (reads_statementsWithin hreads bound) fun _ _ _ => accountable_pure _

theorem accountable_statements {room : Nat} {item : Rule Statement} (hreads : Reads item (FitsStatement room))
    (hitem : Accountable [] item) : Accountable [] (statements item) := by
  apply accountable_get.bind reads_get
  rintro _ cursor rfl
  exact accountable_statementsWithin hreads hitem _

theorem accountable_block {room : Nat} {item : Rule Statement} (hreads : Reads item (FitsStatement room))
    (hitem : Accountable [] item) : Accountable before (block item) := by
  apply (accountable_expect .openBrace).bind (reads_expect .openBrace)
  intro opening _ _
  apply ((accountable_statements hreads hitem).anywhere _).bind (reads_statements hreads)
  intro tokens body _
  exact (accountable_expect .closeBrace).bind (reads_expect .closeBrace) fun _ _ _ => accountable_pure _

section

variable {room : Nat} (hstatement : Accountable [] (level room).statement)
  (hconditional : ∀ keyword, Accountable [keyword] ((level room).conditional keyword))

include hstatement hconditional

theorem accountable_conditional : Accountable before (conditional room (level room)) := by
  have hreads := reads_level_fits room
  apply ((accountable_expr room .comparison).anywhere _).bind (reads_expr room .comparison)
  intro conditionTokens condition _
  apply (accountable_block hreads.1 hstatement).bind (reads_block hreads.1)
  intro bodyTokens body _
  apply (accountable_takeIf _).bind (reads_takeIf _)
  rintro taken result (⟨rfl, rfl⟩ | ⟨found, token, rfl, rfl, _⟩)
  · exact accountable_pure _
  · split
    · rename_i heq
      cases heq
    · rename_i keyword heq
      cases heq
      exact ((hconditional token).append_left _).bind (hreads.2 token) fun _ _ _ => accountable_pure _
    · exact (accountable_block hreads.1 hstatement).bind (reads_block hreads.1) fun _ _ _ => accountable_pure _

theorem accountable_afterFirst (first : Token) : Accountable [first] (afterFirst room (level room) first) := by
  have hreads := (reads_level_fits room).1
  rw [afterFirst]
  split
  · apply (accountable_expect .assign).bind (reads_expect .assign)
    intro _ equals _
    exact ((accountable_expr room .comparison).anywhere _).bind (reads_expr room .comparison)
      fun _ _ _ => accountable_pure _
  · apply (accountable_expect .openParen).bind (reads_expect .openParen)
    intro _ opening _
    apply ((accountable_expr room .comparison).anywhere _).bind (reads_expr room .comparison)
    intro tokens value _
    exact (accountable_expect .closeParen).bind (reads_expect .closeParen) fun _ _ _ => accountable_pure _
  · exact accountable_conditional hstatement hconditional
  · apply ((accountable_expr room .comparison).anywhere _).bind (reads_expr room .comparison)
    intro conditionTokens condition _
    exact (accountable_block hreads hstatement).bind (reads_block hreads) fun _ _ _ => accountable_pure _
  · apply (accountable_expect .identifier).bind (reads_expect .identifier)
    intro _ name _
    apply (accountable_expect .inWord).bind (reads_expect .inWord)
    intro _ inside _
    apply (accountable_expect .rangeWord).bind (reads_expect .rangeWord)
    intro _ range _
    apply (accountable_expect .openParen).bind (reads_expect .openParen)
    intro _ opening _
    apply accountable_loopCount.bind reads_loopCount
    intro _ count _
    apply (accountable_expect .closeParen).bind (reads_expect .closeParen)
    intro _ closing _
    exact (accountable_block hreads hstatement).bind (reads_block hreads) fun _ _ _ => accountable_pure _
  · exact accountable_throw (blames_last _ (by simp) [] first)

theorem accountable_statement : Accountable [] (statement room (level room)) := by
  have hreads := reads_level_fits room
  apply accountable_next.bind reads_next
  rintro _ first rfl
  apply (accountable_afterFirst hstatement hconditional first).bind (reads_afterFirst hreads.1 hreads.2 first)
  intro taken result _
  exact (accountable_close first).bind (reads_close first) fun _ _ _ => accountable_pure _

end

theorem accountable_level (room : Nat) :
    Accountable [] (level room).statement ∧
      ∀ keyword, Accountable [keyword] ((level room).conditional keyword) := by
  induction room with
  | zero => exact ⟨accountable_tooDeep, fun keyword => accountable_throw fun rest => List.mem_cons_self⟩
  | succ room ih => exact ⟨accountable_statement ih.1 ih.2, fun keyword => accountable_conditional ih.1 ih.2⟩

/-! ### Programs -/

theorem accountable_atEnd : Accountable before atEnd := by
  rintro ⟨rest, lines⟩ error cursor' h
  cases rest with
  | nil => cases h
  | cons first rest =>
      cases h
      exact ⟨[first], rfl, List.getLast?_concat⟩

theorem reads_atEnd : Reads atEnd fun taken _ => taken = [] := by
  intro cursor result cursor' h
  obtain ⟨hrest, rfl⟩ := atEnd_eq_ok.mp h
  exact ⟨[], rfl, rfl⟩

theorem accountable_program : Accountable [] program := by
  have hreads := (reads_level_fits (roomAt 1)).1
  apply (accountable_statements hreads (accountable_level (roomAt 1)).1).bind (reads_statements hreads)
  intro tokens body _
  exact accountable_atEnd.bind reads_atEnd fun _ _ _ => accountable_pure _

/-- A token that a rule refuses is the last one it has taken. -/
theorem exists_taken_of_refused {α : Type} {rule : Rule α} (h : Accountable [] rule) {cursor cursor' : Cursor}
    {token : Token} (herror : rule cursor = .error (.unexpectedToken token) cursor') :
    ∃ taken, cursor.rest = taken ++ token :: cursor'.rest := by
  obtain ⟨taken, htaken, hlast⟩ := h herror
  obtain ⟨front, rfl⟩ := List.getLast?_eq_some_iff.mp hlast
  refine ⟨front, ?_⟩
  simpa using htaken

end Grammar

end ScriptLang
