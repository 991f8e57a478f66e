import ScriptLang.Environment
/-!
# Bindings

What a look-up finds after a name is set, whatever the bindings are, and what more is true as long as no name stands
twice. Then a look-up finds a binding wherever it stands, and setting a name comes to one of two things: a bound name
gets its new value in place (`overwrite`), and any other is added at the end (`insert`). Neither makes a name stand
twice.
-/

namespace ScriptLang.Environment

/-! ### Setting one name -/

theorem find?_put (name other : String) (value : Value) (bindings : List (String × Value)) :
    find? other (put name value bindings) = if name = other then some value else find? other bindings := by
  induction bindings with
  | nil => simp only [put, find?]
  | cons binding rest ih =>
      obtain ⟨bound, old⟩ := binding
      by_cases hbound : bound = name
      · subst hbound
        simp only [put, find?, if_true]
        split <;> rfl
      · simp only [put, find?, if_neg hbound, ih]
        split
        · rename_i hother
          rw [if_neg fun heq => hbound (hother.trans heq.symm)]
        · rfl

@[simp] theorem get?_set_self (environment : Environment) (name : String) (value : Value) :
    (environment.set name value).get? name = some value := by
  simp [get?, set, find?_put]

theorem get?_set_of_ne {name other : String} (h : name ≠ other) (environment : Environment) (value : Value) :
    (environment.set name value).get? other = environment.get? other := by
  simp [get?, set, find?_put, h]

/-! ### Bindings with distinct names -/

variable {environment : Environment} {name : String} {value : Value} {bindings : List (String × Value)}

/-- The bound names, in the order of their bindings. -/
def names (environment : Environment) : List String :=
  environment.bindings.map Prod.fst

/-- Changes the value of a bound name where it stands. -/
def overwrite (environment : Environment) (name : String) (value : Value) : Environment :=
  ⟨environment.bindings.map fun binding => if binding.1 = name then (name, value) else binding⟩

/-- Adds a binding behind the others. -/
def insert (environment : Environment) (name : String) (value : Value) : Environment :=
  ⟨environment.bindings ++ [(name, value)]⟩

theorem names_overwrite : (environment.overwrite name value).names = environment.names := by
  rw [names, overwrite, List.map_map, names]
  apply List.map_congr_left
  intro binding _
  by_cases h : binding.1 = name <;> simp [h]

theorem names_insert : (environment.insert name value).names = environment.names ++ [name] := by
  simp [names, insert]

theorem find?_eq_none_iff : find? name bindings = none ↔ name ∉ bindings.map Prod.fst := by
  induction bindings with
  | nil => simp [find?]
  | cons binding rest ih =>
      obtain ⟨bound, old⟩ := binding
      by_cases h : bound = name
      · simp [find?, h]
      · simp [find?, h, Ne.symm h, ih]

theorem put_of_not_mem (h : name ∉ bindings.map Prod.fst) :
    put name value bindings = bindings ++ [(name, value)] := by
  induction bindings with
  | nil => rfl
  | cons binding rest ih =>
      obtain ⟨bound, old⟩ := binding
      rw [List.map_cons, List.mem_cons, not_or] at h
      rw [put, if_neg (Ne.symm h.1), ih h.2, List.cons_append]

section

variable (hdistinct : (bindings.map Prod.fst).Nodup)

include hdistinct

theorem find?_eq_some_iff : find? name bindings = some value ↔ (name, value) ∈ bindings := by
  induction bindings with
  | nil => simp [find?]
  | cons binding rest ih =>
      obtain ⟨bound, old⟩ := binding
      obtain ⟨hbound, hrest⟩ := List.nodup_cons.mp hdistinct
      by_cases h : bound = name
      · subst h
        have hnew : (bound, value) ∉ rest := fun hmem => hbound (List.mem_map.mpr ⟨_, hmem, rfl⟩)
        simp [find?, hnew, eq_comm]
      · simp [find?, h, Ne.symm h, ih hrest]

theorem put_of_mem (h : name ∈ bindings.map Prod.fst) :
    put name value bindings = bindings.map fun binding => if binding.1 = name then (name, value) else binding := by
  induction bindings with
  | nil => cases h
  | cons binding rest ih =>
      obtain ⟨bound, old⟩ := binding
      obtain ⟨hbound, hrest⟩ := List.nodup_cons.mp hdistinct
      by_cases heq : bound = name
      · subst heq
        -- The name stands nowhere else, so changing every binding of it changes this one.
        have hkept : ∀ binding ∈ rest, binding.1 ≠ bound := fun binding hmem heq =>
          hbound (List.mem_map.mpr ⟨binding, hmem, heq⟩)
        rw [put, if_pos rfl, List.map_cons, if_pos rfl]
        congr 1
        exact ((List.map_congr_left fun binding hmem => if_neg (hkept binding hmem)).trans (List.map_id rest)).symm
      · have hmem : name ∈ rest.map Prod.fst := (List.mem_cons.mp h).resolve_left (Ne.symm heq)
        rw [put, if_neg heq, List.map_cons, if_neg heq, ih hrest hmem]

end

theorem contains_iff_mem_names : environment.contains name = true ↔ name ∈ environment.names := by
  rw [contains, Option.isSome_iff_ne_none, get?, ne_eq, find?_eq_none_iff, Classical.not_not, names]

/-- As long as no name stands twice, setting a bound name changes its value in place, and setting any other name adds
one binding. -/
theorem set_eq_overwrite_or_insert (hdistinct : environment.names.Nodup) (name : String) (value : Value) :
    environment.set name value =
      if environment.contains name then environment.overwrite name value else environment.insert name value := by
  by_cases h : environment.contains name = true
  · rw [if_pos h, set, put_of_mem hdistinct (contains_iff_mem_names.mp h), overwrite]
  · rw [if_neg h, set, put_of_not_mem fun hmem => h (contains_iff_mem_names.mpr hmem), insert]

theorem nodup_names_set (hdistinct : environment.names.Nodup) (name : String) (value : Value) :
    (environment.set name value).names.Nodup := by
  rw [set_eq_overwrite_or_insert hdistinct]
  by_cases h : environment.contains name = true
  · rw [if_pos h, names_overwrite]
    exact hdistinct
  · have hnew : ∀ bound ∈ environment.names, ∀ added ∈ [name], bound ≠ added := by
      intro bound hbound added hadded heq
      rw [heq, List.mem_singleton.mp hadded] at hbound
      exact h (contains_iff_mem_names.mpr hbound)
    rw [if_neg h, names_insert, List.nodup_append]
    exact ⟨hdistinct, List.pairwise_singleton _ name, hnew⟩

end ScriptLang.Environment
