import ScriptLang.RuntimeError
/-!
# Environments

An environment binds names to values. It is a list of bindings in which no name stands twice: setting a
name that is bound replaces its value in place, and setting another adds a binding at the end.
-/

namespace ScriptLang

structure Environment where
  bindings : List (String × Value)
  deriving DecidableEq

namespace Environment

def empty : Environment := ⟨[]⟩

def find? (name : String) : List (String × Value) → Option Value
  | [] => none
  | (other, value) :: rest => if other = name then some value else find? name rest

def put (name : String) (value : Value) : List (String × Value) → List (String × Value)
  | [] => [(name, value)]
  | (other, old) :: rest =>
    if other = name then (name, value) :: rest else (other, old) :: put name value rest

def get? (environment : Environment) (name : String) : Option Value :=
  find? name environment.bindings

def set (environment : Environment) (name : String) (value : Value) : Environment :=
  ⟨put name value environment.bindings⟩

def contains (environment : Environment) (name : String) : Bool :=
  (environment.get? name).isSome

/-- Forgets every binding. -/
def clear (_environment : Environment) : Environment :=
  empty

/-- The number of bound names. -/
def size (environment : Environment) : Nat :=
  environment.bindings.length

def isEmpty (environment : Environment) : Bool :=
  environment.bindings.isEmpty

/-- The value of a name that has to be bound. -/
def get (environment : Environment) (name : String) : Except RuntimeError Value :=
  match environment.get? name with
  | some value => .ok value
  | none => .error (.undefinedVariable name)

end Environment

end ScriptLang
