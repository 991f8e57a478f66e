import ScriptLang.Proofs.Grammar.Prolonging
/-!
# The grammar with more tokens behind

Rule by rule, what more tokens do to an answer. An operand may be followed by an operator and a block by an
alternative, so expressions and statements can be open at the end; all other phrases close with a token of their
own. The loop over the operators of a tier checks the height of a node once its right operand is read, so it
matters that an operand gets no lower when it goes on.
-/

namespace ScriptLang

namespace Grammar

open Rule

/-! ### Expressions -/

/-- The second expression is at least as high as the first. -/
def Rises (before after : Expr) : Prop := before.height ≤ after.height

theorem rises_binary_left (operator : Operator) (left right : Expr) : Rises left (.binary operator left right) := by
  simp only [Rises, Expr.height]
  omega

theorem Rises.binary_right {right right' : Expr} (h : Rises right right') (operator : Operator) (left : Expr) :
    Rises (.binary operator left right) (.binary operator left right') := by
  simp only [Rises, Expr.height] at h ⊢
  omega

theorem ends_nil : Ends [] :=
  blockEnds_nil.ends

theorem not_ends_of_operator? {tier : Tier} {token : Token} {operator : Operator}
    (h : tier.operator? token.kind = some operator) (later : List Token) : ¬Ends (token :: later) := by
  intro hends
  have hnone := (hends.stops tier).operator?_eq_none token rfl
  rw [h] at hnone
  cases hnone

theorem extends_number (token : Token) : Extends Settled (number token) := by
  rw [number]
  split
  · exact extends_pure _
  · exact extends_throw _

/-- The loop only puts nodes on top of its left operand. -/
theorem reads_chain_rises (room limit : Nat) (tier : Tier) (steps : Nat) (left : Expr) :
    Reads (chain limit tier (expr room tier.tighter) steps left) fun _ result => Rises left result := by
  induction steps generalizing left with
  | zero =>
      apply (reads_takeIf _).bind
      rintro taken result (⟨rfl, rfl⟩ | ⟨operator, token, rfl, rfl, _⟩)
      · exact reads_pure (Nat.le_refl _)
      · exact (reads_expr room tier.tighter).bind fun _ _ _ => reads_throw _
  | succ steps ih =>
      apply (reads_takeIf _).bind
      rintro taken result (⟨rfl, rfl⟩ | ⟨operator, token, rfl, rfl, _⟩)
      · exact reads_pure (Nat.le_refl _)
      · apply (reads_expr room tier.tighter).bind
        intro tokens right _
        dsimp only
        split
        · apply (ih _).mono
          intro _ result hresult
          exact (rises_binary_left operator left right).trans hresult
        · exact reads_throw _

theorem past_chain {room limit steps : Nat} {tier : Tier} {base node : Expr} {cursor : Cursor} {more : List Token}
    (h : Extends (Growing Rises) (chain limit tier (expr room tier.tighter) steps node))
    (hlt : cursor.rest.length < more.length) (hrises : Rises base node) :
    Answer.Past more (Rises base) (chain limit tier (expr room tier.tighter) steps node cursor) := by
  apply h.past (accountable_chain (accountable_expr room) limit tier steps node) hlt
  intro result cursor' hresult
  obtain ⟨_, _, hresult⟩ := reads_chain_rises room limit tier steps node hresult
  exact hrises.trans hresult

section

variable {room : Nat} (hbelow : ∀ tier, Extends (Growing Rises) (expr room tier))

include hbelow

theorem extends_primary : Extends Settled (primary (expr room)) := by
  apply extends_next.bind_settled
  intro token
  split
  · exact (extends_number token).bind_settled fun _ => extends_pure _
  · exact extends_pure _
  · exact extends_pure _
  · exact extends_pure _
  · exact extends_pure _
  · apply (hbelow .comparison).reaching.bind_needs
    · exact fun inside => (extends_expect .closeParen).bind_settled fun _ => extends_pure _
    · exact fun inside => (needs_expect .closeParen).bind _
  · exact extends_throw _

theorem extends_unary : Extends (Growing Rises) (unary (expr room)) := by
  have hprimary := extends_primary hbelow
  have hnegate : Extends (Growing Rises) (expr room .unary >>= fun operand => pure (Expr.negate operand)) :=
    (hbelow .unary).bind_pure fun _ _ => Nat.succ_le_succ
  apply Extends.takeIf_bind hprimary.of_settled
  · exact fun _ _ => hnegate
  · intro _ token later lines _
    have hneeds : Needs (primary (expr room)) := needs_next.bind _
    dsimp only
    rw [hneeds lines]
    exact .starved (Nat.lt_succ_of_le (hnegate.left_le _))

theorem extends_chain (limit : Nat) (tier : Tier) (steps : Nat) (left : Expr) :
    Extends (Growing Rises) (chain limit tier (expr room tier.tighter) steps left) := by
  have hoperand := hbelow tier.tighter
  -- The right operand of an operator that more tokens begin with starts behind that operator.
  have hpast (token : Token) (later : List Token) (lines : Array Nat) :
      Answer.Past (token :: later) (fun _ => True) (expr room tier.tighter ⟨later, lines⟩) :=
    hoperand.past (accountable_expr room tier.tighter) (Nat.lt_succ_self _) fun _ _ _ => trivial
  induction steps generalizing left with
  | zero =>
      apply Extends.takeIf_bind (extends_pure left)
      · intro operator token
        apply hoperand.bind fun _ => extends_throw _
        intro more right lines longer hgrowing
        exact .deep (hgrowing.2.andThen fun _ _ hlt _ => ⟨hlt, nofun⟩)
      · intro operator token later lines hoperator
        refine .opened ⟨not_ends_of_operator? hoperator later, ?_⟩
        dsimp only
        rw [bind_apply]
        exact (hpast token later lines).andThen fun _ _ hlt _ => ⟨hlt, nofun⟩
  | succ steps ih =>
      -- A node that does not fit fails behind the operator, and one that fits is the left operand of the next.
      have hnode (more : List Token) (base node : Expr) (token : Token) (cursor : Cursor)
          (hlt : cursor.rest.length < more.length) (hrises : Rises base node) : Answer.Past more (Rises base)
            ((if node.height ≤ limit then chain limit tier (expr room tier.tighter) steps node
              else throw (.nestingTooDeep token) : Rule Expr) cursor) := by
        split
        · exact past_chain (ih node) hlt hrises
        · exact ⟨hlt, nofun⟩
      apply Extends.takeIf_bind (extends_pure left)
      · intro operator token
        apply hoperand.bind
        · intro right
          dsimp only
          split
          · exact ih _
          · exact extends_throw _
        · intro more right lines longer hgrowing
          dsimp only
          split
          · rw [chain_of_stops (ends_nil.stops tier)]
            refine .opened ⟨hgrowing.1, hgrowing.2.andThen ?_⟩
            intro right' cursor hlt hright
            exact hnode more _ _ token cursor hlt (hright.binary_right operator left)
          · rename_i hlimit
            refine .deep (hgrowing.2.andThen ?_)
            intro right' cursor hlt hright
            rw [if_neg fun hle => hlimit ((hright.binary_right operator left).trans hle)]
            exact ⟨hlt, nofun⟩
      · intro operator token later lines hoperator
        refine .opened ⟨not_ends_of_operator? hoperator later, ?_⟩
        dsimp only
        rw [bind_apply]
        refine (hpast token later lines).andThen ?_
        intro right cursor hlt _
        exact hnode _ _ _ token cursor hlt (rises_binary_left operator left right)

end

theorem extends_expr (room : Nat) (tier : Tier) : Extends (Growing Rises) (expr room tier) := by
  induction room generalizing tier with
  | zero => exact extends_tooDeep.of_settled
  | succ room ih =>
      induction tier using Tier.induction with
      | unary => exact extends_unary ih
      | looser tier htier htighter =>
          have hchain := extends_chain ih (room + 1) tier (room + 1)
          rw [expr_succ_eq_bind htier]
          apply htighter.bind hchain
          intro more left lines longer hgrowing
          rw [chain_of_stops (ends_nil.stops tier)]
          refine .opened ⟨hgrowing.1, hgrowing.2.andThen ?_⟩
          intro left' cursor hlt hleft
          exact past_chain (hchain left') hlt hleft

/-! ### Statements -/

/-- A statement that goes on into more tokens. -/
abbrev Continuing : List Token → Statement → Answer Statement → Prop := Growing fun _ _ => True

theorem extends_loopCount : Extends Settled loopCount := by
  apply (extends_expect .number).bind_settled
  intro token
  apply (extends_number token).bind_settled
  intro value
  split
  · exact extends_pure _
  · exact extends_throw _

theorem statementsWithin_of_atBlockEnd {cursor : Cursor} (h : cursor.atBlockEnd = true) (item : Rule Statement)
    (bound : Nat) : statementsWithin item bound cursor = .ok [] cursor := by
  cases bound with
  | zero => rfl
  | succ bound =>
      rw [statementsWithin, bind_of_ok (get_eq_ok _), if_pos h]
      rfl

theorem statementsWithin_succ {cursor : Cursor} (h : cursor.atBlockEnd = false) (item : Rule Statement)
    (bound : Nat) :
    statementsWithin item (bound + 1) cursor = Answer.andThen (item cursor) fun first =>
      statementsWithin item bound >>= fun rest => pure (first :: rest) := by
  rw [statementsWithin, bind_of_ok (get_eq_ok _), if_neg (by simp [h]), bind_apply]

section

variable {item : Rule Statement} (hitem : Extends Continuing item) (htakes : Takes item)

include hitem

theorem left_statementsWithin_le (bound : Nat) (cursor : Cursor) :
    (Answer.left (statementsWithin item bound cursor)).length ≤ cursor.rest.length := by
  induction bound generalizing cursor with
  | zero => exact Nat.le_refl _
  | succ bound ih =>
      cases hend : cursor.atBlockEnd with
      | true =>
          rw [statementsWithin_of_atBlockEnd hend]
          exact Nat.le_refl _
      | false =>
          rw [statementsWithin_succ hend]
          refine (Answer.left_andThen_le fun first cursor' => ?_).trans (hitem.left_le cursor)
          rw [bind_apply]
          exact (Answer.left_andThen_le fun _ _ => Nat.le_refl _).trans (ih cursor')

theorem left_statementsWithin_cons_le (bound : Nat) (first : Statement) (cursor : Cursor) :
    (Answer.left ((statementsWithin item bound >>= fun rest => pure (first :: rest)) cursor)).length ≤
      cursor.rest.length := by
  rw [bind_apply]
  exact (Answer.left_andThen_le fun _ _ => Nat.le_refl _).trans (left_statementsWithin_le hitem bound cursor)

include htakes

/-- Behind the last statement more tokens end the block or begin a statement. -/
theorem prolonged_statementsWithin_nil (bound bound' : Nat) (more : List Token) (lines : Array Nat)
    (hmore : more ≠ []) (hbound' : more.length ≤ bound') :
    Prolonged more (Reaching more) (statementsWithin item bound ⟨[], lines⟩)
      (statementsWithin item bound' ⟨more, lines⟩) := by
  rw [statementsWithin_of_atBlockEnd rfl]
  cases hend : Cursor.atBlockEnd ⟨more, lines⟩ with
  | true =>
      rw [statementsWithin_of_atBlockEnd hend]
      exact .ok
  | false =>
      have hpos := List.length_pos_iff.mpr hmore
      obtain ⟨bound', rfl⟩ : ∃ less, bound' = less + 1 := ⟨bound' - 1, by omega⟩
      rw [statementsWithin_succ hend]
      exact .opened (Answer.left_andThen_lt (left_statementsWithin_cons_le hitem bound')
        (htakes ⟨more, lines⟩ hmore))

theorem prolonged_statementsWithin (bound bound' : Nat) (tokens more : List Token) (lines : Array Nat)
    (hmore : more ≠ []) (hbound : tokens.length ≤ bound) (hbound' : (tokens ++ more).length ≤ bound') :
    Prolonged more (Reaching more) (statementsWithin item bound ⟨tokens, lines⟩)
      (statementsWithin item bound' ⟨tokens ++ more, lines⟩) := by
  induction bound generalizing bound' tokens lines with
  | zero =>
      obtain rfl := List.eq_nil_of_length_eq_zero (Nat.le_zero.mp hbound)
      exact prolonged_statementsWithin_nil hitem htakes 0 bound' more lines hmore hbound'
  | succ bound ih =>
      cases tokens with
      | nil => exact prolonged_statementsWithin_nil hitem htakes (bound + 1) bound' more lines hmore hbound'
      | cons first rest =>
          rw [List.length_append, List.length_cons] at hbound'
          cases hend : Cursor.atBlockEnd ⟨first :: rest, lines⟩ with
          | true =>
              have hend' : Cursor.atBlockEnd ⟨first :: rest ++ more, lines⟩ = true := hend
              rw [statementsWithin_of_atBlockEnd hend, statementsWithin_of_atBlockEnd hend']
              exact .ok
          | false =>
              have hend' : Cursor.atBlockEnd ⟨first :: rest ++ more, lines⟩ = false := hend
              have hleft := left_statementsWithin_cons_le hitem
              obtain ⟨bound', rfl⟩ : ∃ less, bound' = less + 1 := ⟨bound' - 1, by omega⟩
              rw [statementsWithin_succ hend, statementsWithin_succ hend']
              apply (hitem.prolonged (first :: rest) more lines hmore).andThen (hleft bound')
              · intro statement after lines' hstatement
                have hshorter : after.length < rest.length + 1 := by
                  simpa [hstatement, Answer.left] using htakes ⟨first :: rest, lines⟩ (List.cons_ne_nil _ _)
                rw [List.length_cons] at hbound
                have hafter := ih bound' after lines' (by omega) (by rw [List.length_append]; omega)
                rw [bind_apply, bind_apply]
                exact hafter.map _
              · intro statement lines' _ hgrowing
                rw [bind_of_ok (statementsWithin_of_atBlockEnd rfl _ _)]
                exact .opened (Answer.left_andThen_lt (hleft bound') hgrowing.2.left_lt)

theorem extends_statements : Extends Reaching (statements item) := by
  constructor
  · intro cursor
    exact left_statementsWithin_le hitem cursor.rest.length cursor
  · intro tokens more lines hmore
    exact prolonged_statementsWithin hitem htakes tokens.length (tokens ++ more).length tokens more lines hmore
      (Nat.le_refl _) (Nat.le_refl _)

theorem extends_block : Extends Settled (block item) := by
  apply (extends_expect .openBrace).bind_settled
  intro opening
  apply (extends_statements hitem htakes).bind_needs
  · exact fun body => (extends_expect .closeBrace).bind_settled fun _ => extends_pure body
  · exact fun body => (needs_expect .closeBrace).bind _

end

theorem needs_block (item : Rule Statement) : Needs (block item) := (needs_expect .openBrace).bind _

/-- A conditional without room blames its keyword, and that is not a refusal. -/
theorem past_conditional {room : Nat} {keyword : Token} (h : Extends Continuing ((level room).conditional keyword))
    {more : List Token} {cursor : Cursor} (hlt : cursor.rest.length < more.length) :
    Answer.Past more (fun _ => True) ((level room).conditional keyword cursor) := by
  cases room with
  | zero => exact ⟨hlt, nofun⟩
  | succ room =>
      have hlevel := accountable_level room
      exact h.past (accountable_conditional hlevel.1 hlevel.2) hlt fun _ _ _ => trivial

section

variable {room : Nat} (hstatement : Extends Continuing (level room).statement)
  (htakes : Takes (level room).statement)
  (hconditional : ∀ keyword, Extends Continuing ((level room).conditional keyword))

include hstatement htakes hconditional

theorem extends_afterBlock (condition : Expr) (body : List Statement) :
    Extends Continuing (afterBlock (level room) condition body) := by
  have hblock := extends_block hstatement htakes
  apply Extends.takeIf_bind
  · exact extends_pure _
  · intro found token
    split
    · exact extends_pure _
    · exact (hconditional _).bind_pure fun _ _ => id
    · exact hblock.bind_settled fun _ => extends_pure _
  · intro found token later lines hknown
    have hlt : later.length < (token :: later).length := Nat.lt_succ_self _
    split at hknown
    · rename_i hkeyword
      obtain rfl := Option.some.inj hknown
      refine .opened ⟨fun hends => not_or.mpr (hends token rfl).2 hkeyword, ?_⟩
      rcases hkeyword with hkeyword | hkeyword
      · rw [hkeyword]
        dsimp only
        rw [bind_apply]
        exact (past_conditional (hconditional token) hlt).andThen fun _ _ hlt _ => ⟨hlt, trivial⟩
      · have haccountable : Accountable [] (block (level room).statement) :=
          accountable_block (reads_level_fits room).1 (accountable_level room).1
        rw [hkeyword]
        dsimp only
        rw [bind_apply]
        apply (hblock.past haccountable hlt fun _ _ _ => trivial).andThen
        exact fun _ _ hlt _ => ⟨hlt, trivial⟩
    · cases hknown

theorem extends_conditional : Extends Continuing (conditional room (level room)) := by
  have hblock := extends_block hstatement htakes
  rw [conditional_eq]
  apply (extends_expr room .comparison).reaching.bind_needs
  · intro condition
    exact hblock.bind_settled (extends_afterBlock hstatement htakes hconditional condition)
  · exact fun condition => (needs_block _).bind _

theorem extends_afterFirst (first : Token) :
    Extends Continuing (afterFirst room (level room) first) := by
  have hblock := extends_block hstatement htakes
  rw [afterFirst]
  split
  · apply (extends_expect .assign).bind_settled
    intro equals
    exact (extends_expr room .comparison).bind_pure fun _ _ _ => trivial
  · apply (extends_expect .openParen).bind_settled
    intro opening
    apply (extends_expr room .comparison).reaching.bind_needs
    · exact fun value => (extends_expect .closeParen).bind_settled fun _ => extends_pure _
    · exact fun value => (needs_expect .closeParen).bind _
  · exact extends_conditional hstatement htakes hconditional
  · apply (extends_expr room .comparison).reaching.bind_needs
    · exact fun condition => hblock.bind_settled fun _ => extends_pure _
    · exact fun condition => (needs_block _).bind _
  · apply (extends_expect .identifier).bind_settled
    intro name
    apply (extends_expect .inWord).bind_settled
    intro inside
    apply (extends_expect .rangeWord).bind_settled
    intro range
    apply (extends_expect .openParen).bind_settled
    intro opening
    apply extends_loopCount.bind_settled
    intro count
    apply (extends_expect .closeParen).bind_settled
    intro closing
    exact hblock.bind_settled fun _ => extends_pure _
  · exact extends_throw _

theorem extends_closed (first : Token) : Extends Continuing (do
    let result ← afterFirst room (level room) first
    close first
    return result) := by
  apply (extends_afterFirst hstatement htakes hconditional first).bind_quiet
  · exact fun result => (extends_close first).bind_settled fun _ => extends_pure result
  · exact fun result rest lines => ⟨_, rfl⟩
  · exact fun _ _ => id

end

theorem extends_level (room : Nat) :
    Extends Continuing (level room).statement ∧ Takes (level room).statement ∧
      ∀ keyword, Extends Continuing ((level room).conditional keyword) := by
  induction room with
  | zero =>
      have hthrow (token : Token) : Extends Continuing (throw (.nestingTooDeep token)) := extends_throw _
      exact ⟨extends_next.bind_settled hthrow, takes_next_bind hthrow, hthrow⟩
  | succ room ih =>
      obtain ⟨hstatement, htakes, hconditional⟩ := ih
      have hclosed := extends_closed hstatement htakes hconditional
      exact ⟨extends_next.bind_settled hclosed, takes_next_bind hclosed,
        fun _ => extends_conditional hstatement htakes hconditional⟩

/-! ### Programs -/

theorem extends_atEnd : Extends Reaching atEnd := by
  constructor
  · rintro ⟨rest, lines⟩
    cases rest with
    | nil => exact Nat.le_refl _
    | cons first rest => exact Nat.le_succ _
  · intro tokens more lines hmore
    cases tokens with
    | nil =>
        obtain ⟨first, rest, rfl⟩ := List.exists_cons_of_ne_nil hmore
        exact .opened (Nat.lt_succ_self _)
    | cons first rest => exact .error

theorem extends_program : Extends Reaching program := by
  obtain ⟨hstatement, htakes, _⟩ := extends_level (roomAt 1)
  apply (extends_statements hstatement htakes).bind_reaching
  · intro body
    exact extends_atEnd.bind_reaching (fun _ => extends_pure _) fun _ lines => ⟨_, lines, rfl⟩
  · exact fun body lines => ⟨_, lines, rfl⟩

end Grammar

theorem withoutComments_append (tokens more : List Token) :
    withoutComments (tokens ++ more) = withoutComments tokens ++ withoutComments more :=
  List.filter_append ..

namespace Program

theorem ofTokens_eq_ok_iff {tokens : List Token} {result : Program} :
    ofTokens tokens = .ok result ↔ ∃ cursor, readTokens tokens = .ok result cursor := by
  rw [ofTokens]
  cases readTokens tokens with
  | ok => simp
  | error => simp

theorem ofTokens_eq_error_iff {tokens : List Token} {error : SyntaxError} :
    ofTokens tokens = .error error ↔ ∃ cursor, readTokens tokens = .error error cursor := by
  rw [ofTokens]
  cases readTokens tokens with
  | ok => simp
  | error => simp

end Program

end ScriptLang
