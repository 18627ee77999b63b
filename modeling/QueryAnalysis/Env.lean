import QueryAnalysis.Signature

/-!
Function environments. An environment is a chain of scopes, each of which gives signatures to some
names; the nearest scope that knows a name decides.

* `Env.lookup`: the signature of a function.
* `Env.register`: one more definition in the innermost scope, which replaces an earlier one of the
  same name.
* `Env.fresh`: an empty scope, on top of another environment or on its own.
* `Env.builtins`: the functions that every program can call.
-/

namespace QueryAnalysis

/-- The definitions of one scope, the latest first. -/
abbrev Scope := List (String × Signature)

/-- A chain of scopes: the innermost one, and those around it from the inside out. -/
structure Env where
  own : Scope
  outer : List Scope
deriving DecidableEq

namespace Env

/-- An environment without definitions of its own, inside of another one if there is a parent. -/
def fresh (parent : Option Env) : Env where
  own := []
  outer := parent.elim [] fun Γ => Γ.own :: Γ.outer

/-- Defines a function in the innermost scope. -/
def register (Γ : Env) (name : String) (σ : Signature) : Env :=
  { Γ with own := (name, σ) :: Γ.own }

/-- The signature of a function: the latest definition in the nearest scope that has one. -/
def lookup (Γ : Env) (name : String) : Option Signature :=
  (Γ.own :: Γ.outer).findSome? fun scope => scope.lookup name

@[simp] theorem lookup_fresh_none (name : String) : (fresh none).lookup name = none := rfl

@[simp] theorem lookup_fresh_some (Γ : Env) (name : String) :
    (fresh (some Γ)).lookup name = Γ.lookup name := rfl

/-- A definition is found under its own name and leaves all other names alone. -/
theorem lookup_register (Γ : Env) (name other : String) (σ : Signature) :
    (Γ.register name σ).lookup other = if other = name then some σ else Γ.lookup other := by
  by_cases h : other = name
  · subst h
    simp [lookup, register]
  · have hb : (other == name) = false := by simpa using h
    simp [lookup, register, List.findSome?_cons, List.lookup_cons, h, hb]

/-! ### The built-in functions -/

/-- A function of one number, as a number. -/
def numericFunction : Signature :=
  .builtin [⟨[.numeric], .numeric⟩]

/-- An aggregate that counts truth values as zero and one. -/
def aggregate : Signature :=
  .builtin [⟨[.arithmetic], .numeric⟩]

/-- A running aggregate, with the size of its window in front if that is given. -/
def runningAggregate (values : Expectation) : Signature :=
  .builtin [⟨[values], .numeric⟩, ⟨[.numeric, values], .numeric⟩]

/-- A function of one value, whose type is not known beforehand. -/
def valueFunction : Signature :=
  .builtin [⟨[.value], .unknown⟩]

/-- A function of a count and a value, whose type is not known beforehand. -/
def countedFunction : Signature :=
  .builtin [⟨[.numeric, .value], .unknown⟩]

/-- The functions that every program can call. -/
def builtins : Env where
  own := [
    ("abs", numericFunction),
    ("sqrt", numericFunction),
    ("exp", numericFunction),
    ("log", numericFunction),
    ("deltas", numericFunction),
    ("ratios", numericFunction),
    ("prd", numericFunction),
    ("prds", numericFunction),
    ("stddev", numericFunction),
    ("vars", numericFunction),
    ("max", numericFunction),
    ("min", numericFunction),
    ("sum", aggregate),
    ("avg", aggregate),
    ("sums", runningAggregate .arithmetic),
    ("avgs", runningAggregate .arithmetic),
    ("maxs", runningAggregate .numeric),
    ("mins", runningAggregate .numeric),
    ("mod", .builtin [⟨[.numeric, .numeric], .numeric⟩]),
    ("count", .builtin [⟨[.value], .numeric⟩]),
    ("first", countedFunction),
    ("last", countedFunction),
    ("drop", countedFunction),
    ("distinct", valueFunction),
    ("fills", valueFunction),
    ("next", valueFunction),
    ("prev", valueFunction),
    ("reverse", valueFunction),
    ("show", valueFunction),
    ("between", .builtin [⟨[.numeric, .numeric, .numeric], .boolean⟩]),
    ("like", .builtin [⟨[.string, .string], .boolean⟩])]
  outer := []

end Env

end QueryAnalysis
