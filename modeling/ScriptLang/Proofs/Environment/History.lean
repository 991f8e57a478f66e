import Mathlib.Data.Finset.Card
import Mathlib.Data.List.DropRight
import ScriptLang.Proofs.Environment.Bindings
/-!
# Environments are maps

A history is any sequence of sets and clears, starting from no bindings at all. What an environment holds at its end is
said in terms of the history alone: of the names and values set since the last clear, the last value of each name.

The list of bindings comes to the same only because no name stands in it twice, so `Represents` asks for both at once.
It is kept by each operation, hence it holds after every history.
-/

namespace ScriptLang.Environment

variable {environment : Environment} {name : String} {value : Value} {sets : List (String × Value)}

/-! ### Histories -/

inductive Operation where
  | set (name : String) (value : Value)
  | clear
  deriving DecidableEq

def apply (environment : Environment) : Operation → Environment
  | .set name value => environment.set name value
  | .clear => environment.clear

/-- The environment that a history leaves. -/
def after (history : List Operation) : Environment :=
  history.foldl apply empty

/-- What an operation binds. -/
def Operation.binding? : Operation → Option (String × Value)
  | .set name value => some (name, value)
  | .clear => none

/-- The names and values set since the last clear, in the order in which they were set. -/
def setsSinceClear (history : List Operation) : List (String × Value) :=
  (history.rtakeWhile fun operation => operation ≠ .clear).filterMap Operation.binding?

/-- The last of the sets of a name has this value. -/
def LastSet (sets : List (String × Value)) (name : String) (value : Value) : Prop :=
  ∃ earlier later, sets = earlier ++ (name, value) :: later ∧ ∀ other, (name, other) ∉ later

theorem after_append (history : List Operation) (operation : Operation) :
    after (history ++ [operation]) = (after history).apply operation :=
  List.foldl_concat apply empty operation history

theorem setsSinceClear_set (history : List Operation) (name : String) (value : Value) :
    setsSinceClear (history ++ [.set name value]) = setsSinceClear history ++ [(name, value)] := by
  simp [setsSinceClear, Operation.binding?]

theorem setsSinceClear_clear (history : List Operation) : setsSinceClear (history ++ [.clear]) = [] := by
  simp [setsSinceClear]

/-! ### The last value of a name -/

theorem not_lastSet_nil : ¬LastSet [] name value := by
  rintro ⟨earlier, later, hsets, -⟩
  simp at hsets

/-- One more set is the last one of its own name, and for any other name it makes no difference. -/
theorem lastSet_append_iff {set : String × Value} :
    LastSet (sets ++ [set]) name value ↔ set = (name, value) ∨ set.1 ≠ name ∧ LastSet sets name value := by
  constructor
  · rintro ⟨earlier, later, hsets, hlater⟩
    rcases List.eq_nil_or_concat' later with rfl | ⟨later, final, rfl⟩
    · exact .inl (List.singleton_inj.mp (List.append_inj' hsets rfl).2)
    · rw [← List.cons_append, ← List.append_assoc] at hsets
      obtain ⟨hfront, hfinal⟩ := List.append_inj' hsets rfl
      obtain rfl : set = final := List.singleton_inj.mp hfinal
      refine .inr ⟨?_, earlier, later, hfront, fun other hmem => hlater other (List.mem_append_left _ hmem)⟩
      rintro rfl
      exact hlater set.2 (List.mem_append_right _ List.mem_cons_self)
  · rintro (rfl | ⟨hname, earlier, later, rfl, hlater⟩)
    · exact ⟨sets, [], rfl, fun _ => List.not_mem_nil⟩
    · refine ⟨earlier, later ++ [set], by simp, ?_⟩
      intro other hmem
      rcases List.mem_append.mp hmem with hmem | hmem
      · exact hlater other hmem
      · rw [List.mem_singleton] at hmem
        exact hname (congrArg Prod.fst hmem).symm

theorem exists_lastSet_iff : (∃ value, LastSet sets name value) ↔ name ∈ sets.map Prod.fst := by
  induction sets using List.reverseRecOn with
  | nil => simp [not_lastSet_nil]
  | append_singleton sets set ih =>
      obtain ⟨other, latest⟩ := set
      by_cases h : other = name
      · simp [lastSet_append_iff, h]
      · simp [lastSet_append_iff, ih, h, Ne.symm h]

/-! ### What an environment holds after a history -/

/-- The environment binds each name once, to the last of the values that it was set to. -/
structure Represents (environment : Environment) (sets : List (String × Value)) : Prop where
  distinct : environment.names.Nodup
  get?_eq_some_iff : ∀ name value, environment.get? name = some value ↔ LastSet sets name value

namespace Represents

theorem nil : empty.Represents [] where
  distinct := List.nodup_nil
  get?_eq_some_iff name value := by simp [not_lastSet_nil, empty, get?, find?]

theorem set (h : environment.Represents sets) (name : String) (value : Value) :
    (environment.set name value).Represents (sets ++ [(name, value)]) where
  distinct := nodup_names_set h.distinct name value
  get?_eq_some_iff other result := by
    rw [lastSet_append_iff]
    by_cases heq : name = other
    · subst heq
      simp
    · rw [get?_set_of_ne heq, h.get?_eq_some_iff]
      simp [heq]

theorem mem_bindings_iff (h : environment.Represents sets) :
    (name, value) ∈ environment.bindings ↔ LastSet sets name value := by
  rw [← find?_eq_some_iff h.distinct, ← h.get?_eq_some_iff, get?]

theorem mem_names_iff (h : environment.Represents sets) : name ∈ environment.names ↔ name ∈ sets.map Prod.fst := by
  rw [← exists_lastSet_iff, names, List.mem_map]
  constructor
  · rintro ⟨binding, hmem, rfl⟩
    exact ⟨binding.2, h.mem_bindings_iff.mp hmem⟩
  · rintro ⟨value, hlast⟩
    exact ⟨(name, value), h.mem_bindings_iff.mpr hlast, rfl⟩

theorem size_eq (h : environment.Represents sets) : environment.size = (sets.map Prod.fst).toFinset.card := by
  have hsame : environment.names.toFinset = (sets.map Prod.fst).toFinset := by
    ext name
    rw [List.mem_toFinset, List.mem_toFinset, h.mem_names_iff]
  calc environment.size
    _ = environment.names.length := (List.length_map _).symm
    _ = environment.names.toFinset.card := (List.toFinset_card_of_nodup h.distinct).symm
    _ = (sets.map Prod.fst).toFinset.card := by rw [hsame]

end Represents

theorem represents_after (history : List Operation) : (after history).Represents (setsSinceClear history) := by
  induction history using List.reverseRecOn with
  | nil => exact Represents.nil
  | append_singleton history operation ih =>
      rw [after_append]
      cases operation with
      | set name value =>
          rw [setsSinceClear_set]
          exact ih.set name value
      | clear =>
          rw [setsSinceClear_clear]
          exact Represents.nil

theorem get_eq_ok_iff : environment.get name = .ok value ↔ environment.get? name = some value := by
  rw [get]
  cases environment.get? name <;> simp

theorem get_eq_error_iff : environment.get name = .error (.undefinedVariable name) ↔ environment.get? name = none := by
  rw [get]
  cases environment.get? name <;> simp

/-- After every history of sets and clears a name has the value of its last set since the last clear, and is undefined
if there is none. The count is that of the names set since then. The bindings themselves are just these pairs, each name
once, whichever of the two ways each set has taken. -/
theorem after_binds_last_sets (history : List Operation) :
    let environment := after history
    let sets := setsSinceClear history
    (∀ name value, environment.get name = .ok value ↔ LastSet sets name value) ∧
    (∀ name, environment.get name = .error (.undefinedVariable name) ↔ ¬∃ value, LastSet sets name value) ∧
    (∀ name, environment.contains name = true ↔ ∃ value, environment.get name = .ok value) ∧
    environment.size = (sets.map Prod.fst).toFinset.card ∧
    (environment.isEmpty = true ↔ environment.size = 0) ∧
    environment.names.Nodup ∧
    (∀ name value, (name, value) ∈ environment.bindings ↔ LastSet sets name value) ∧
    ∀ name value, environment.set name value =
      if environment.contains name then environment.overwrite name value else environment.insert name value := by
  intro environment sets
  have h : environment.Represents sets := represents_after history
  refine ⟨fun name value => ?_, fun name => ?_, fun name => ?_, h.size_eq, List.isEmpty_iff_length_eq_zero, h.distinct,
    fun name value => h.mem_bindings_iff, set_eq_overwrite_or_insert h.distinct⟩
  · rw [get_eq_ok_iff, h.get?_eq_some_iff]
  · simp only [get_eq_error_iff, ← h.get?_eq_some_iff, Option.eq_none_iff_forall_ne_some, not_exists, ne_eq]
  · simp only [get_eq_ok_iff, contains, Option.isSome_iff_exists]

example : (((empty.set "y" .null).clear.set "x" .null).set "z" (.int 2)).set "x" (.int 1) =
    ⟨[("x", .int 1), ("z", .int 2)]⟩ := by
  decide

end ScriptLang.Environment
