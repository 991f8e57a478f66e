import ScriptLang.Proofs.Grammar.Descent
import ScriptLang.Proofs.Grammar.Extension
/-!
# Counted depths never leave the words

A depth is checked before anything is added to it. So every sum is made from a depth that is one of the levels, from
the number of clauses that were read without leaving them, and from heights of trees that fit below them, and none of
them is far beyond the last level. An arithmetic that is right up to there, and does as it likes beyond, leads to the
same answers as the rules with their rooms. Words of 64 bits are such an arithmetic, wherever the descent starts.

The descent and the rules are compared step by step, by induction on the room. The loops of the descent have no bound;
they end with the bounded ones, since each node of an operator is higher than the one before, each clause is one level
below the one before, and each statement takes a token.
-/

namespace ScriptLang.Grammar

open Rule Descent

theorem roomAt_eq_zero_iff {depth : Nat} : roomAt depth = 0 ↔ levelLimit < depth := by
  rw [roomAt]
  omega

theorem roomAt_eq_succ_iff {depth room : Nat} : roomAt depth = room + 1 ↔ depth + room = levelLimit := by
  rw [roomAt]
  omega

theorem roomAt_succ {depth room : Nat} (h : depth + room = levelLimit) : roomAt (depth + 1) = room := by
  rw [roomAt]
  omega

/-! ### Alternatives -/

/-- What may follow the block of a condition. -/
def alternative (below : Level) : Rule (Option (List Statement)) := do
  match ← takeIf fun kind => if kind = .elseifWord ∨ kind = .elseWord then some kind else none with
  | none => return none
  | some (.elseifWord, token) => return some [← below.conditional token]
  | some _ => return some (← block below.statement)

theorem conditional_eq_bind (room : Nat) (below : Level) :
    conditional room below = (do
      let condition ← expr room .comparison
      let body ← block below.statement
      return .ifElse condition body (← alternative below)) := by
  have hafter (condition : Expr) (body : List Statement) :
      afterBlock below condition body = alternative below >>= fun found => pure (.ifElse condition body found) := by
    simp only [afterBlock, alternative, bind_assoc]
    congr 1
    funext result
    split
    · rfl
    · simp only [bind_assoc, pure_bind]
    · simp only [bind_assoc, pure_bind]
  simp only [conditional_eq, hafter]

section

variable {below : Level} {token : Token} {rest : List Token} {lines : Array Nat}

theorem alternative_absent (h : ∀ token ∈ rest.head?, token.kind ≠ .elseifWord ∧ token.kind ≠ .elseWord) :
    alternative below ⟨rest, lines⟩ = .ok none ⟨rest, lines⟩ := by
  rw [alternative, bind_of_ok (takeIf_eq_none (fun token htoken => if_neg (not_or.mpr (h token htoken))) lines)]
  rfl

theorem alternative_elseIf (h : token.kind = .elseifWord) :
    alternative below ⟨token :: rest, lines⟩ = (do return some [← below.conditional token] : Rule _) ⟨rest, lines⟩ := by
  rw [alternative, bind_of_ok (takeIf_eq_some (if_pos (.inl h)) rest lines), h]

theorem alternative_else (h : token.kind = .elseWord) :
    alternative below ⟨token :: rest, lines⟩ = (do return some (← block below.statement) : Rule _) ⟨rest, lines⟩ := by
  rw [alternative, bind_of_ok (takeIf_eq_some (if_pos (.inr h)) rest lines), h]

end

theorem alternativeOf_append (clauses : List Clause) (clause : Clause) (otherwise : Option (List Statement)) :
    alternativeOf (clauses ++ [clause]) otherwise =
      alternativeOf clauses (some [.ifElse clause.condition clause.body otherwise]) := by
  induction clauses with
  | nil => rfl
  | cons first rest ih => rw [List.cons_append, alternativeOf, alternativeOf, ih]

namespace Arithmetic

variable {Number : Type}

/-! ### Exact numbers -/

/-- Numbers are counted right as long as they are at most the limit, and the limit is beyond the levels. -/
structure ExactTo (A : Arithmetic Number) (limit : Nat) : Prop where
  beyond : levelLimit + 2 ≤ limit
  value_ofNat : ∀ n ≤ limit, A.value (A.ofNat n) = n
  add : ∀ a b, A.value a + A.value b ≤ limit → ∃ sum, A.add? a b = some sum ∧ A.value sum = A.value a + A.value b
  sub : ∀ a b, A.value b ≤ A.value a →
    ∃ difference, A.sub? a b = some difference ∧ A.value difference = A.value a - A.value b

theorem exactTo_natural {limit : Nat} (h : levelLimit + 2 ≤ limit) : natural.ExactTo limit where
  beyond := h
  value_ofNat _ _ := rfl
  add a b _ := ⟨a + b, rfl, rfl⟩
  sub a b h := ⟨a - b, if_pos h, rfl⟩

theorem exactTo_wrapping : wrapping.ExactTo (2 ^ 64 - 1) where
  beyond := by decide
  value_ofNat n h := UInt64.toNat_ofNat_of_lt' (Nat.lt_of_le_sub_one (by decide) h)
  add a b h := by
    refine ⟨a + b, rfl, ?_⟩
    show (a + b).toNat = a.toNat + b.toNat
    rw [UInt64.toNat_add]
    exact Nat.mod_eq_of_lt (Nat.lt_of_le_sub_one (by decide) h)
  sub a b h := ⟨a - b, rfl, UInt64.toNat_sub_of_le a b (UInt64.le_iff_toNat_le.mpr h)⟩

theorem exactTo_checked : checked.ExactTo (2 ^ 64 - 1) where
  beyond := by decide
  value_ofNat := exactTo_wrapping.value_ofNat
  add a b h := by
    obtain ⟨_, ⟨⟩, hvalue⟩ := exactTo_wrapping.add a b h
    exact ⟨a + b, if_pos (Nat.lt_of_le_sub_one (by decide) h), hvalue⟩
  sub a b h := by
    obtain ⟨_, ⟨⟩, hvalue⟩ := exactTo_wrapping.sub a b h
    exact ⟨a - b, if_pos h, hvalue⟩

section

variable {A : Arithmetic Number}

theorem value_max (a b : Number) : A.value (A.max a b) = Max.max (A.value a) (A.value b) := by
  unfold max
  split
  · omega
  · omega

theorem check_of_le {depth : Number} (h : A.value depth ≤ levelLimit) (token : Token) :
    A.check depth token = pure () :=
  if_neg (Nat.not_lt.mpr h)

theorem check_of_lt {depth : Number} (h : levelLimit < A.value depth) (token : Token) :
    A.check depth token = throw (.malformed (.nestingTooDeep token)) :=
  if_pos h

end

namespace ExactTo

variable {A : Arithmetic Number} {limit : Nat} (hexact : A.ExactTo limit)

include hexact

theorem plus (a b : Number) (h : A.value a + A.value b ≤ limit) :
    ∃ sum, A.plus a b = pure sum ∧ A.value sum = A.value a + A.value b := by
  obtain ⟨sum, hsum, hvalue⟩ := hexact.add a b h
  refine ⟨sum, ?_, hvalue⟩
  rw [Arithmetic.plus, hsum]
  rfl

theorem minus (a b : Number) (h : A.value b ≤ A.value a) :
    ∃ difference, A.minus a b = pure difference ∧ A.value difference = A.value a - A.value b := by
  obtain ⟨difference, hdifference, hvalue⟩ := hexact.sub a b h
  refine ⟨difference, ?_, hvalue⟩
  rw [Arithmetic.minus, hdifference]
  rfl

theorem value_one : A.value (A.ofNat 1) = 1 := by
  have hbeyond := hexact.beyond
  exact hexact.value_ofNat 1 (by omega)

/-- The depth one level further down. -/
theorem succ (depth : Number) (h : A.value depth + 1 ≤ limit) :
    ∃ next, A.plus depth (A.ofNat 1) = pure next ∧ A.value next = A.value depth + 1 := by
  have hone := hexact.value_one
  obtain ⟨next, hnext, hvalue⟩ := hexact.plus depth (A.ofNat 1) (by omega)
  exact ⟨next, hnext, by omega⟩

/-- The depth of the clause behind so many others. -/
theorem nested (depth : Number) (count : Nat) (h : A.value depth + 1 + count ≤ limit) :
    ∃ next number, A.plus depth (A.ofNat 1) = pure next ∧ A.plus next (A.ofNat count) = pure number ∧
      A.value number = A.value depth + 1 + count := by
  have hcount := hexact.value_ofNat count (by omega)
  obtain ⟨next, hnext, hvalue⟩ := hexact.succ depth (by omega)
  obtain ⟨number, hnumber, hsum⟩ := hexact.plus next (A.ofNat count) (by omega)
  exact ⟨next, number, hnext, hnumber, by omega⟩

theorem height (expr : Expr) (h : expr.height ≤ limit) :
    ∃ number, A.height expr = pure number ∧ A.value number = expr.height := by
  have hone := hexact.value_one
  induction expr with
  | literal | var => exact ⟨A.ofNat 1, rfl, hone⟩
  | negate operand ih =>
      rw [Expr.height] at h ⊢
      obtain ⟨below, hbelow, hvalue⟩ := ih (by omega)
      obtain ⟨sum, hsum, hsumValue⟩ := hexact.plus (A.ofNat 1) below (by omega)
      refine ⟨sum, ?_, by omega⟩
      rw [Arithmetic.height, hbelow, pure_bind, hsum]
  | binary operator left right ihleft ihright =>
      rw [Expr.height] at h ⊢
      obtain ⟨leftNumber, hleft, hleftValue⟩ := ihleft (by omega)
      obtain ⟨rightNumber, hright, hrightValue⟩ := ihright (by omega)
      have hmax : A.value (A.max leftNumber rightNumber) = _ := value_max leftNumber rightNumber
      obtain ⟨sum, hsum, hsumValue⟩ := hexact.plus (A.ofNat 1) (A.max leftNumber rightNumber) (by omega)
      refine ⟨sum, ?_, by omega⟩
      rw [Arithmetic.height, hleft, pure_bind, hright, pure_bind, hsum]

end ExactTo

/-! ### Expressions -/

section

variable {A : Arithmetic Number} {depth : Number} (hdepth : levelLimit < A.value depth)

include hdepth

theorem descend_primary_of_lt : A.descend (.primary depth) = ofRule tooDeep := by
  rw [descend_eq, step, liftM_eq]
  refine bind_eq_ofRule reads_next fun _ token _ => ?_
  rw [check_of_lt hdepth]
  rfl

theorem descend_expr_of_lt (tier : Tier) : A.descend (.expr depth tier) = ofRule tooDeep := by
  induction tier using Tier.induction with
  | unary =>
      rw [descend_eq, step, if_pos rfl, liftM_eq]
      apply takeIf_bind_eq
      · intro rest lines _
        rw [← descend_primary_of_lt hdepth]
      · intro _ token rest lines _
        dsimp only
        rw [check_of_lt hdepth]
        rfl
  | looser tier htier htighter =>
      rw [descend_eq, step, if_neg htier, htighter, tooDeep, ofRule_bind, bind_assoc]
      rfl

end

section

variable {A : Arithmetic Number} {limit : Nat} (hexact : A.ExactTo limit)

include hexact

section

variable {depth : Number} {room : Nat} (hroom : A.value depth + room = levelLimit)
  (hbelow : ∀ next, A.value next = A.value depth + 1 → ∀ tier, A.descend (.expr next tier) = ofRule (expr room tier))

include hroom hbelow

theorem descend_primary : A.descend (.primary depth) = ofRule (primary (expr room)) := by
  have hbeyond := hexact.beyond
  obtain ⟨next, hnext, hvalue⟩ := hexact.succ depth (by omega)
  rw [descend_eq, step, liftM_eq]
  refine bind_eq_ofRule reads_next fun _ token _ => ?_
  rw [check_of_le (by omega), pure_bind]
  generalize token.kind = kind
  cases kind with
  | number => simp only [liftM_eq, ofRule_bind, ofRule_pure]
  | openParen => simp only [hnext, hbelow next hvalue, pure_bind, liftM_eq, ofRule_bind, ofRule_pure]
  | _ => rfl

theorem descend_unary : A.descend (.expr depth .unary) = ofRule (unary (expr room)) := by
  have hbeyond := hexact.beyond
  obtain ⟨next, hnext, hvalue⟩ := hexact.succ depth (by omega)
  rw [descend_eq, step, if_pos rfl, liftM_eq]
  refine bind_eq_ofRule (reads_takeIf _) fun _ result _ => ?_
  cases result with
  | none => exact descend_primary hexact hroom hbelow
  | some found =>
      dsimp only
      rw [check_of_le (by omega), pure_bind, hnext, pure_bind, hbelow next hvalue, ofRule_bind]
      rfl

/-- The two loops go on together: as long as a node fits into the room, the bounded one has a step left. -/
theorem descend_chain (tier : Tier) (steps : Nat) {left : Expr} {height : Number}
    (hheight : A.value height = left.height) (hleft : left.height ≤ room + 1) (hsteps : room + 1 < left.height + steps) :
    A.descend (.chain depth tier left height) = ofRule (chain (room + 1) tier (expr room tier.tighter) steps left) := by
  have hbeyond := hexact.beyond
  have hone := hexact.value_one
  obtain ⟨next, hnext, hvalue⟩ := hexact.succ depth (by omega)
  induction steps generalizing left height with
  | zero => omega
  | succ steps ih =>
      rw [descend_eq, step, chain, liftM_eq]
      refine bind_eq_ofRule (reads_takeIf _) fun _ result _ => ?_
      rcases result with _ | ⟨operator, token⟩
      · rfl
      · dsimp only
        rw [hnext, pure_bind, hbelow next hvalue]
        refine bind_eq_ofRule (reads_expr room tier.tighter) fun _ right hright => ?_
        have hrightFits := hright.2
        have hnode : (Expr.binary operator left right).height = Max.max left.height right.height + 1 := rfl
        obtain ⟨rightHeight, hrightHeight, hrightValue⟩ := hexact.height right (by omega)
        have hmax : A.value (A.max height rightHeight) = _ := value_max height rightHeight
        obtain ⟨sum, hsum, hsumValue⟩ := hexact.succ (A.max height rightHeight) (by omega)
        obtain ⟨reach, hreach, hreachValue⟩ := hexact.plus depth sum (by omega)
        obtain ⟨lowest, hlowest, hlowestValue⟩ := hexact.minus reach (A.ofNat 1) (by omega)
        rw [hrightHeight, pure_bind, hsum, pure_bind, hreach, pure_bind, hlowest, pure_bind]
        by_cases hfits : (Expr.binary operator left right).height ≤ room + 1
        · rw [check_of_le (by omega), pure_bind, if_pos hfits]
          exact ih (by omega) hfits (by omega)
        · rw [check_of_lt (by omega), if_neg hfits]
          rfl

end

theorem descend_expr {depth : Number} {room : Nat} (hroom : roomAt (A.value depth) = room) (tier : Tier) :
    A.descend (.expr depth tier) = ofRule (expr room tier) := by
  have hbeyond := hexact.beyond
  induction room generalizing depth tier with
  | zero => exact descend_expr_of_lt (roomAt_eq_zero_iff.mp hroom) tier
  | succ room ih =>
      have hlevel := roomAt_eq_succ_iff.mp hroom
      have hbelow (next : Number) (hnext : A.value next = A.value depth + 1) (tier : Tier) :
          A.descend (.expr next tier) = ofRule (expr room tier) :=
        ih (hnext ▸ roomAt_succ hlevel) tier
      induction tier using Tier.induction with
      | unary => exact descend_unary hexact hlevel hbelow
      | looser tier htier htighter =>
          rw [descend_eq, step, if_neg htier, htighter, expr_succ_eq_bind htier]
          refine bind_eq_ofRule (reads_expr (room + 1) tier.tighter) fun _ left hleft => ?_
          have hpos := left.height_pos
          have hfits := hleft.2
          obtain ⟨height, hheight, hvalue⟩ := hexact.height left (by omega)
          rw [hheight, pure_bind]
          exact descend_chain hexact hlevel hbelow tier (room + 1) hvalue hfits (by omega)

end

/-! ### Loops over statements -/

/-- A loop over statements without a bound is the bounded one, since every statement takes a token. -/
theorem loop_eq_statements {γ : Type} {item : Rule Statement} {room : Nat} (hreads : Reads item (FitsStatement room))
    {finish : Rule γ} {loop : Descent (List Statement)}
    (hend : ∀ cursor : Cursor, cursor.atBlockEnd = true → loop cursor = ofRule (finish >>= fun _ => pure []) cursor)
    (hstep : ∀ cursor : Cursor, cursor.atBlockEnd = false →
      loop cursor = (ofRule item >>= fun first => loop >>= fun rest => pure (first :: rest)) cursor) :
    loop = ofRule (statements item >>= fun body => finish >>= fun _ => pure body) := by
  have hwithin (bound : Nat) (cursor : Cursor) (hbound : cursor.rest.length ≤ bound) :
      loop cursor = ofRule (statementsWithin item bound >>= fun body => finish >>= fun _ => pure body) cursor := by
    induction bound generalizing cursor with
    | zero =>
        have hatEnd : cursor.atBlockEnd = true := by
          rw [Cursor.atBlockEnd, List.eq_nil_of_length_eq_zero (Nat.le_zero.mp hbound)]
        rw [hend cursor hatEnd, ofRule, ofRule, bind_of_ok (statementsWithin_of_atBlockEnd hatEnd item 0)]
    | succ bound ih =>
        cases hatEnd : cursor.atBlockEnd with
        | true =>
            rw [hend cursor hatEnd, ofRule, ofRule, bind_of_ok (statementsWithin_of_atBlockEnd hatEnd item (bound + 1))]
        | false =>
            have hsucc : (statementsWithin item (bound + 1) >>= fun body => finish >>= fun _ => pure body) cursor =
                (item >>= fun first => (statementsWithin item bound >>= fun body => finish >>= fun _ => pure body) >>=
                  fun rest => pure (first :: rest)) cursor := by
              rw [statementsWithin, bind_assoc, bind_of_ok (get_eq_ok cursor), if_neg (by rw [hatEnd]; decide)]
              simp only [bind_assoc, pure_bind]
            rw [hstep cursor hatEnd, ofRule_congr hsucc, ofRule_bind]
            cases hitem : item cursor with
            | ok first cursor' =>
                obtain ⟨taken, htaken, hfits⟩ := hreads hitem
                obtain ⟨token, more, rfl, _⟩ := hfits.exists_first
                have hlength := congrArg List.length htaken
                simp only [List.length_append, List.length_cons] at hlength
                rw [bind_apply_of_ok hitem, bind_apply_of_ok hitem, bind_apply_congr (ih cursor' (by omega))]
                simp only [ofRule_bind, ofRule_pure]
            | error error cursor' => rw [bind_apply_of_error hitem, bind_apply_of_error hitem]
  funext cursor
  rw [hwithin cursor.rest.length cursor (Nat.le_refl _)]
  rfl

section

variable {A : Arithmetic Number} {depth : Number} {room : Nat}
  (hstatement : A.descend (.statement depth) = ofRule (level room).statement)

include hstatement

theorem descend_block : A.descend (.block depth) = ofRule (block (level room).statement) := by
  have hloop : A.descend (.untilBrace depth) = ofRule (statements (level room).statement >>= fun body =>
      expect .closeBrace >>= fun _ => pure body) := by
    apply loop_eq_statements (reads_level_fits room).1
    · rintro ⟨rest, lines⟩ hend
      rw [descend_eq, step, get_bind_apply]
      cases rest with
      | nil => rfl
      | cons token rest =>
          have hkind : token.kind = .closeBrace := of_decide_eq_true hend
          dsimp only
          rw [if_pos hkind, ofRule, bind_of_ok (expect_eq_ok hkind rest lines)]
          rfl
    · rintro ⟨rest, lines⟩ hend
      conv_lhs => rw [descend_eq, step, get_bind_apply]
      cases rest with
      | nil => cases hend
      | cons token rest =>
          have hkind : token.kind ≠ .closeBrace := of_decide_eq_false hend
          dsimp only
          rw [if_neg hkind, hstatement]
  rw [descend_eq, step, hloop, liftM_eq, block]
  simp only [ofRule_bind]

/-- At the top level a closing brace ends nothing: it is refused as a statement. -/
theorem descend_untilEnd (hroom : 0 < room) :
    A.descend (.untilEnd depth) =
      ofRule (statements (level room).statement >>= fun body => atEnd >>= fun _ => pure body) := by
  obtain ⟨less, rfl⟩ := Nat.exists_eq_add_one.mpr hroom
  apply loop_eq_statements (reads_level_fits (less + 1)).1
  · rintro ⟨rest, lines⟩ hend
    rw [descend_eq, step, get_bind_apply]
    cases rest with
    | nil => rfl
    | cons token rest =>
        have hkind : token.kind = .closeBrace := of_decide_eq_true hend
        have hrefused : (level (less + 1)).statement ⟨token :: rest, lines⟩ =
            .error (.unexpectedToken token) ⟨rest, lines⟩ := by
          show (next >>= _) _ = _
          rw [bind_of_ok (next_eq_ok token rest lines), afterFirst, hkind]
          rfl
        dsimp only
        rw [hstatement, bind_apply_of_error hrefused]
        rfl
  · rintro ⟨rest, lines⟩ hend
    conv_lhs => rw [descend_eq, step, get_bind_apply]
    cases rest with
    | nil => cases hend
    | cons token rest =>
        dsimp only
        rw [hstatement]

end

/-! ### Statements

Statements and the clauses of conditionals go down together, so what is shown by induction on the room is shown of
both at once. -/

/-- A statement is read right at every depth that leaves this much room. -/
def StatementsAgree (A : Arithmetic Number) (room : Nat) : Prop :=
  ∀ depth, roomAt (A.value depth) = room → A.descend (.statement depth) = ofRule (level room).statement

/-- Clauses that are collected at some depth are those that nesting them gives, with this much room below the ones that
were read before. -/
def ClausesAgree (A : Arithmetic Number) (room : Nat) : Prop :=
  ∀ depth clauses, A.value depth + clauses.length + room = levelLimit →
    (do
      let all ← A.descend (.clauses depth clauses)
      let otherwise ← A.descend (.otherwise depth all)
      return alternativeOf all otherwise) =
    ofRule (do return alternativeOf clauses (← alternative (level room)))

section

variable {A : Arithmetic Number} {limit : Nat} (hexact : A.ExactTo limit) {room : Nat}
  (hstatements : StatementsAgree A room)

include hexact hstatements

theorem descend_otherwise {depth : Number} {clauses : List Clause}
    (hroom : A.value depth + clauses.length + room = levelLimit) {rest : List Token}
    (hrest : ∀ token ∈ rest.head?, token.kind ≠ .elseifWord) (lines : Array Nat) :
    A.descend (.otherwise depth clauses) ⟨rest, lines⟩ = ofRule (alternative (level room)) ⟨rest, lines⟩ := by
  have hbeyond := hexact.beyond
  obtain ⟨next, nested, hnext, hnested, hvalue⟩ := hexact.nested depth clauses.length (by omega)
  have hblock : A.descend (.block nested) = ofRule (block (level room).statement) := by
    apply descend_block
    apply hstatements
    rw [roomAt]
    omega
  rw [descend_eq, step, liftM_eq]
  by_cases helse : ∃ token tokens, rest = token :: tokens ∧ token.kind = .elseWord
  · obtain ⟨token, tokens, rfl, hkind⟩ := helse
    rw [bind_apply_of_ok (takeIf_eq_some (if_pos hkind) tokens lines), ofRule_congr (alternative_else hkind)]
    simp only [hnext, hnested, hblock, pure_bind, ofRule_bind, ofRule_pure]
  · have hkind (token : Token) (htoken : token ∈ rest.head?) : token.kind ≠ .elseWord := by
      intro hkind
      obtain ⟨tokens, htokens⟩ := List.head?_eq_some_iff.mp htoken
      exact helse ⟨token, tokens, htokens, hkind⟩
    rw [bind_apply_of_ok (takeIf_eq_none (fun token htoken => if_neg (hkind token htoken)) lines),
      ofRule_of_ok (alternative_absent fun token htoken => ⟨hrest token htoken, hkind token htoken⟩)]
    rfl

theorem clausesAgree (hbelow : ∀ less, room = less + 1 → StatementsAgree A less ∧ ClausesAgree A less) :
    ClausesAgree A room := by
  intro depth clauses hroom
  have hbeyond := hexact.beyond
  obtain ⟨next, nested, hnext, hnested, hvalue⟩ := hexact.nested depth clauses.length (by omega)
  rw [descend_eq, step, liftM_eq, bind_assoc]
  apply takeIf_bind_eq
  · intro rest lines hhead
    have hrest (token : Token) (htoken : token ∈ rest.head?) : token.kind ≠ .elseifWord := by
      intro hkind
      simpa [hkind] using hhead token htoken
    rw [pure_bind, bind_apply_congr (descend_otherwise hexact hstatements hroom hrest lines), ofRule_bind]
    rfl
  · intro _ keyword rest lines hkeyword
    have hkind : keyword.kind = .elseifWord := by
      by_contra hne
      simp [hne] at hkeyword
    have hrule : (do return alternativeOf clauses (← alternative (level room)) : Rule _) ⟨keyword :: rest, lines⟩ =
        (do return alternativeOf clauses (some [← (level room).conditional keyword]) : Rule _) ⟨rest, lines⟩ := by
      rw [bind_apply, alternative_elseIf hkind, ← bind_apply, bind_assoc]
      rfl
    rw [ofRule_congr hrule]
    simp only [hnext, hnested, pure_bind, bind_assoc]
    cases room with
    | zero =>
        rw [check_of_lt (by omega)]
        rfl
    | succ less =>
        obtain ⟨hless, hclauses⟩ := hbelow less rfl
        obtain ⟨lower, hlower, hlowerValue⟩ := hexact.succ nested (by omega)
        have hlowerRoom : roomAt (A.value lower) = less := by
          rw [roomAt]
          omega
        have hexpr := descend_expr hexact hlowerRoom .comparison
        have hblock := descend_block (hless lower hlowerRoom)
        have hrest (condition : Expr) (body : List Statement) :=
          hclauses depth (clauses ++ [⟨condition, body⟩]) (by rw [List.length_append, List.length_singleton]; omega)
        rw [check_of_le (by omega), level, conditional_eq_bind]
        simp only [hlower, hexpr, hblock, hrest, alternativeOf_append, pure_bind, bind_assoc, ofRule_bind, ofRule_pure]

section

variable (hclauses : ClausesAgree A room)

include hclauses

section

variable {depth : Number} (hdepth : A.value depth + 1 ≤ limit) (hroom : roomAt (A.value depth + 1) = room)

include hdepth hroom

theorem descend_conditional : A.descend (.conditional depth) = ofRule (conditional room (level room)) := by
  obtain ⟨next, hnext, hvalue⟩ := hexact.succ depth hdepth
  rw [← hvalue] at hroom
  have hblock := descend_block (hstatements next hroom)
  rw [descend_eq, step, hnext, pure_bind, descend_expr hexact hroom, conditional_eq_bind]
  refine bind_eq_ofRule (reads_expr room .comparison) fun _ condition hcondition => ?_
  -- There was room for the condition, so the depth is one of the levels.
  have hlevel : A.value depth + room = levelLimit := by
    have hpos := condition.height_pos
    have hfits := hcondition.2
    rw [roomAt] at hroom
    omega
  have hrest (body : List Statement) : (do
        let clauses ← A.descend (.clauses depth [])
        let otherwise ← A.descend (.otherwise depth clauses)
        return Statement.ifElse condition body (alternativeOf clauses otherwise)) =
      ofRule (do return .ifElse condition body (← alternative (level room))) := by
    have hbind := congrArg (· >>= fun found => pure (Statement.ifElse condition body found)) (hclauses depth [] hlevel)
    simpa only [alternativeOf, bind_assoc, pure_bind, bind_pure, ofRule_bind, ofRule_pure] using hbind
  simp only [hblock, hrest, pure_bind, ofRule_bind]

theorem descend_afterFirst (first : Token) :
    A.descend (.afterFirst depth first) = ofRule (afterFirst room (level room) first) := by
  obtain ⟨next, hnext, hvalue⟩ := hexact.succ depth hdepth
  have hexpr := descend_expr hexact (hvalue ▸ hroom) .comparison
  have hblock := descend_block (hstatements next (hvalue ▸ hroom))
  rw [descend_eq, step, afterFirst]
  generalize first.kind = kind
  cases kind with
  | identifier | printWord | whileWord | forWord =>
      simp only [hnext, hexpr, hblock, pure_bind, liftM_eq, ofRule_bind, ofRule_pure]
  | ifWord => exact descend_conditional hexact hstatements hclauses hdepth hroom
  | _ => rfl

end

theorem statementsAgree_succ : StatementsAgree A (room + 1) := by
  intro depth hroom
  have hbeyond := hexact.beyond
  have hlevel := roomAt_eq_succ_iff.mp hroom
  rw [descend_eq, step, level, statement, liftM_eq]
  refine bind_eq_ofRule reads_next fun _ first _ => ?_
  rw [check_of_le (by omega), pure_bind,
    descend_afterFirst hexact hstatements hclauses (by omega) (roomAt_succ hlevel)]
  simp only [liftM_eq, ofRule_bind, ofRule_pure]

end

end

theorem statementsAgree_zero (A : Arithmetic Number) : StatementsAgree A 0 := by
  intro depth hroom
  rw [descend_eq, step, liftM_eq]
  refine bind_eq_ofRule reads_next fun _ first _ => ?_
  rw [check_of_lt (roomAt_eq_zero_iff.mp hroom)]
  rfl

section

variable {A : Arithmetic Number} {limit : Nat} (hexact : A.ExactTo limit)

include hexact

theorem agree (room : Nat) : StatementsAgree A room ∧ ClausesAgree A room := by
  induction room with
  | zero => exact ⟨statementsAgree_zero A, clausesAgree hexact (statementsAgree_zero A) nofun⟩
  | succ room ih =>
      have hstatements := statementsAgree_succ hexact ih.1 ih.2
      refine ⟨hstatements, clausesAgree hexact hstatements ?_⟩
      intro less hless
      obtain rfl := Nat.succ.inj hless
      exact ih

/-! ### Phrases and programs -/

theorem descent_eq_ofRule {α : Type} (phrase : Phrase α) (depth : Number) :
    phrase.descent A depth = ofRule (phrase.rule (roomAt (A.value depth))) := by
  have hstatement := (agree hexact _).1 depth rfl
  cases phrase with
  | primary =>
      cases hroom : roomAt (A.value depth) with
      | zero => exact descend_primary_of_lt (roomAt_eq_zero_iff.mp hroom)
      | succ room =>
          have hlevel := roomAt_eq_succ_iff.mp hroom
          refine descend_primary hexact hlevel fun next hnext tier => ?_
          exact descend_expr hexact (hnext ▸ roomAt_succ hlevel) tier
  | expr tier => exact descend_expr hexact rfl tier
  | statement => exact hstatement
  | block => exact descend_block hstatement

theorem programAt_eq : A.programAt = ofRule program := by
  have hstatement : A.descend (.statement (A.ofNat 1)) = ofRule (level (roomAt 1)).statement :=
    (agree hexact _).1 (A.ofNat 1) (by rw [hexact.value_one])
  rw [programAt, descend_untilEnd hstatement (by decide), program]
  simp only [ofRule_bind, ofRule_pure, bind_assoc, pure_bind]

end

end Arithmetic

open Arithmetic

/-- Words that wrap around, words that refuse to, and natural numbers all lead to the answers of the rule, and no
operation is refused. -/
structure CountsAlike {α : Type} (wrapped guarded unbounded : Descent α) (rule : Rule α) : Prop where
  wrapped_eq : wrapped = unbounded
  guarded_eq : guarded = unbounded
  no_overflow : ∀ cursor cursor', guarded cursor ≠ some (.error .overflow, cursor')
  unbounded_eq : unbounded = ofRule rule

theorem CountsAlike.of_eq {α : Type} {wrapped guarded unbounded : Descent α} {rule : Rule α}
    (hwrapped : wrapped = ofRule rule) (hguarded : guarded = ofRule rule) (hunbounded : unbounded = ofRule rule) :
    CountsAlike wrapped guarded unbounded rule where
  wrapped_eq := hwrapped.trans hunbounded.symm
  guarded_eq := hguarded.trans hunbounded.symm
  no_overflow := hguarded ▸ ofRule_ne_overflow rule
  unbounded_eq := hunbounded

/-- No sum or difference of depths and heights leaves the words of 64 bits, whichever phrase is read from whichever
tokens, and whichever word the depth is at the start. Reading with words that wrap around is reading with natural
numbers: it has the same results and leaves the same tokens. -/
theorem depths_never_wrap (depth : UInt64) :
    (∀ (α : Type) (phrase : Phrase α),
      CountsAlike (phrase.descent wrapping depth) (phrase.descent checked depth)
        (phrase.descent natural depth.toNat) (phrase.rule (roomAt depth.toNat))) ∧
    CountsAlike wrapping.programAt checked.programAt natural.programAt program := by
  have hnatural : natural.ExactTo (2 ^ 64 - 1) := exactTo_natural (by decide)
  constructor
  · intro α phrase
    exact .of_eq (descent_eq_ofRule exactTo_wrapping phrase depth) (descent_eq_ofRule exactTo_checked phrase depth)
      (descent_eq_ofRule hnatural phrase depth.toNat)
  · exact .of_eq (programAt_eq exactTo_wrapping) (programAt_eq exactTo_checked) (programAt_eq hnatural)

end ScriptLang.Grammar
