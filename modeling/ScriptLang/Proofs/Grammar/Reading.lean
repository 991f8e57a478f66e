import ScriptLang.Grammar.Rule
/-!
# What a rule reads

The successes of a rule are described from two sides. `Reads` says what all of them have in common: the
tokens that were taken stand in front of the ones that are left, and meet a condition together with the
value. `Accepts` says that there is a success: from these tokens the rule comes to those, with this value.

Both compose along the sequencing of rules, so a rule of the grammar is analysed step by step and the
state of the cursor is never opened again. Neither says anything about the lines of closed statements, on
which no rule depends.
-/

namespace ScriptLang.Grammar.Rule

variable {α β : Type}

/-- Whenever the rule succeeds, what it has taken and its value meet the condition. -/
def Reads (rule : Rule α) (condition : List Token → α → Prop) : Prop :=
  ∀ ⦃cursor value cursor'⦄, rule cursor = .ok value cursor' →
    ∃ taken, cursor.rest = taken ++ cursor'.rest ∧ condition taken value

/-- The rule succeeds with this value and goes from the first tokens to the others. -/
def Accepts (rule : Rule α) (value : α) (before after : List Token) : Prop :=
  ∀ lines, ∃ lines', rule ⟨before, lines⟩ = .ok value ⟨after, lines'⟩

/-! ### Sequencing -/

theorem bind_eq_ok {first : Rule α} {continued : α → Rule β} {cursor cursor'' : Cursor} {value : β} :
    (first >>= continued) cursor = .ok value cursor'' ↔
      ∃ result cursor', first cursor = .ok result cursor' ∧ continued result cursor' = .ok value cursor'' := by
  change EStateM.bind first continued cursor = _ ↔ _
  rw [EStateM.bind]
  cases hfirst : first cursor with
  | ok result cursor' =>
      simp only [EStateM.Result.ok.injEq]
      constructor
      · intro h
        exact ⟨result, cursor', ⟨rfl, rfl⟩, h⟩
      · rintro ⟨_, _, ⟨rfl, rfl⟩, h⟩
        exact h
  | error error cursor' => simp

theorem bind_of_ok {first : Rule α} {cursor cursor' : Cursor} {result : α}
    (h : first cursor = .ok result cursor') (continued : α → Rule β) :
    (first >>= continued) cursor = continued result cursor' := by
  change EStateM.bind first continued cursor = _
  rw [EStateM.bind, h]

theorem Reads.bind {first : Rule α} {continued : α → Rule β} {condition : List Token → α → Prop}
    {condition' : List Token → β → Prop} (hfirst : Reads first condition)
    (hcontinued : ∀ taken result, condition taken result →
      Reads (continued result) fun more value => condition' (taken ++ more) value) :
    Reads (first >>= continued) condition' := by
  intro cursor value cursor'' h
  obtain ⟨result, cursor', hresult, hvalue⟩ := bind_eq_ok.mp h
  obtain ⟨taken, htaken, hcondition⟩ := hfirst hresult
  obtain ⟨more, hmore, hcondition'⟩ := hcontinued taken result hcondition hvalue
  refine ⟨taken ++ more, ?_, hcondition'⟩
  rw [htaken, hmore, List.append_assoc]

theorem Reads.mono {rule : Rule α} {condition condition' : List Token → α → Prop}
    (hreads : Reads rule condition) (himp : ∀ taken value, condition taken value → condition' taken value) :
    Reads rule condition' := by
  intro cursor value cursor' h
  obtain ⟨taken, htaken, hcondition⟩ := hreads h
  exact ⟨taken, htaken, himp taken value hcondition⟩

theorem reads_pure {condition : List Token → α → Prop} {value : α} (h : condition [] value) :
    Reads (pure value) condition := by
  intro cursor result cursor' hresult
  cases hresult
  exact ⟨[], rfl, h⟩

theorem reads_throw {condition : List Token → α → Prop} (error : SyntaxError) :
    Reads (throw error : Rule α) condition := by
  intro cursor result cursor' hresult
  cases hresult

theorem reads_get : Reads (get : Rule Cursor) fun taken _ => taken = [] := by
  intro cursor result cursor' hresult
  cases hresult
  exact ⟨[], rfl, rfl⟩

theorem get_eq_ok (cursor : Cursor) : (get : Rule Cursor) cursor = .ok cursor cursor := rfl

theorem Accepts.bind {first : Rule α} {continued : α → Rule β} {result : α} {value : β}
    {before between after : List Token} (hfirst : Accepts first result before between)
    (hcontinued : Accepts (continued result) value between after) :
    Accepts (first >>= continued) value before after := by
  intro lines
  obtain ⟨lines', hresult⟩ := hfirst lines
  obtain ⟨lines'', hvalue⟩ := hcontinued lines'
  exact ⟨lines'', bind_eq_ok.mpr ⟨result, _, hresult, hvalue⟩⟩

theorem accepts_pure (value : α) (tokens : List Token) : Accepts (pure value) value tokens tokens :=
  fun lines => ⟨lines, rfl⟩

/-! ### Single tokens -/

theorem reads_next : Reads next fun taken token => taken = [token] := by
  rintro ⟨rest, lines⟩ token cursor' h
  cases rest with
  | nil => cases h
  | cons first rest =>
      cases h
      exact ⟨[token], rfl, rfl⟩

theorem reads_expect (kind : Kind) :
    Reads (expect kind) fun taken token => taken = [token] ∧ token.kind = kind := by
  refine reads_next.bind ?_
  rintro taken token rfl
  split
  · rename_i hkind
    exact reads_pure ⟨rfl, hkind⟩
  · exact reads_throw _

/-- A known token is taken, and nothing is taken otherwise. -/
theorem reads_takeIf (known : Kind → Option α) :
    Reads (takeIf known) fun taken result =>
      (taken = [] ∧ result = none) ∨
        ∃ found token, taken = [token] ∧ result = some (found, token) ∧ known token.kind = some found := by
  rintro ⟨rest, lines⟩ result cursor' h
  cases rest with
  | nil =>
      cases h
      exact ⟨[], rfl, .inl ⟨rfl, rfl⟩⟩
  | cons first rest =>
      cases hknown : known first.kind with
      | none =>
          simp only [takeIf, hknown] at h
          cases h
          exact ⟨[], rfl, .inl ⟨rfl, rfl⟩⟩
      | some found =>
          simp only [takeIf, hknown] at h
          cases h
          exact ⟨[first], rfl, .inr ⟨found, first, rfl, rfl, hknown⟩⟩

theorem reads_tooDeep {condition : List Token → α → Prop} : Reads (tooDeep : Rule α) condition := by
  refine reads_next.bind ?_
  intro taken token _
  exact reads_throw _

theorem reads_close (token : Token) : Reads (close token) fun taken _ => taken = [] := by
  intro cursor result cursor' h
  cases h
  exact ⟨[], rfl, rfl⟩

theorem next_eq_ok (token : Token) (rest : List Token) (lines : Array Nat) :
    next ⟨token :: rest, lines⟩ = .ok token ⟨rest, lines⟩ := rfl

theorem expect_eq_ok {kind : Kind} {token : Token} (hkind : token.kind = kind) (rest : List Token)
    (lines : Array Nat) : expect kind ⟨token :: rest, lines⟩ = .ok token ⟨rest, lines⟩ := by
  rw [expect, bind_of_ok (next_eq_ok token rest lines), if_pos hkind]
  rfl

theorem takeIf_eq_some {known : Kind → Option α} {token : Token} {found : α}
    (hknown : known token.kind = some found) (rest : List Token) (lines : Array Nat) :
    takeIf known ⟨token :: rest, lines⟩ = .ok (some (found, token)) ⟨rest, lines⟩ := by
  simp only [takeIf, hknown]

theorem takeIf_eq_none {known : Kind → Option α} {rest : List Token}
    (hknown : ∀ token ∈ rest.head?, known token.kind = none) (lines : Array Nat) :
    takeIf known ⟨rest, lines⟩ = .ok none ⟨rest, lines⟩ := by
  cases rest with
  | nil => rfl
  | cons first rest => simp only [takeIf, hknown first rfl]

theorem accepts_next (token : Token) (rest : List Token) : Accepts next token (token :: rest) rest :=
  fun lines => ⟨lines, next_eq_ok token rest lines⟩

theorem accepts_expect {kind : Kind} {token : Token} (hkind : token.kind = kind) (rest : List Token) :
    Accepts (expect kind) token (token :: rest) rest :=
  fun lines => ⟨lines, expect_eq_ok hkind rest lines⟩

theorem accepts_takeIf_some {known : Kind → Option α} {token : Token} {found : α}
    (hknown : known token.kind = some found) (rest : List Token) :
    Accepts (takeIf known) (some (found, token)) (token :: rest) rest :=
  fun lines => ⟨lines, takeIf_eq_some hknown rest lines⟩

theorem accepts_takeIf_none {known : Kind → Option α} {rest : List Token}
    (hknown : ∀ token ∈ rest.head?, known token.kind = none) : Accepts (takeIf known) none rest rest :=
  fun lines => ⟨lines, takeIf_eq_none hknown lines⟩

theorem accepts_close (token : Token) (rest : List Token) : Accepts (close token) () rest rest :=
  fun lines => ⟨lines.push token.position.line, rfl⟩

/-- A rule comes to its end at the end of the tokens and nowhere else. -/
theorem atEnd_eq_ok {cursor cursor' : Cursor} :
    atEnd cursor = .ok () cursor' ↔ cursor.rest = [] ∧ cursor' = cursor := by
  obtain ⟨rest, lines⟩ := cursor
  cases rest with
  | nil =>
      simp only [atEnd, EStateM.Result.ok.injEq, true_and]
      exact eq_comm
  | cons first rest => simp [atEnd]

end ScriptLang.Grammar.Rule
