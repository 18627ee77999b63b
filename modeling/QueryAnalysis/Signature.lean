import QueryAnalysis.Ty

/-!
Signatures of functions. Of a built-in function the acceptable argument types are known, as a list
of overloads; of a function that the program defines itself only the number of parameters is.

* `Overload.Fits`: an overload applies to a list of argument types.
* `Signature.result?`: the type of a call. The first overload that fits decides.

Numbers of parameters and of arguments are natural numbers without a bound. A number of parameters
that is kept in 32 bits agrees with this as long as there are fewer than `2 ^ 32` of them.
-/

namespace QueryAnalysis

/-- One way to call a built-in function. -/
structure Overload where
  args : List Expectation
  result : Ty
deriving DecidableEq

namespace Overload

/-- The overload applies to arguments of these types: there are as many as it takes, and each type
meets the expectation at its place. -/
def Fits (o : Overload) (ts : List Ty) : Prop :=
  o.args.length = ts.length ∧ ∀ a ∈ o.args.zip ts, a.1.Admits a.2

instance (o : Overload) (ts : List Ty) : Decidable (o.Fits ts) :=
  inferInstanceAs (Decidable (o.args.length = ts.length ∧ ∀ a ∈ o.args.zip ts, a.1.Admits a.2))

end Overload

/-- What is known about a function: the overloads of a built-in one, or the number of parameters of
one that the program defines, which has no bound. -/
inductive Signature where
  | builtin (overloads : List Overload)
  | userDefined (arity : Nat)
deriving DecidableEq

namespace Signature

/-- The overloads of a built-in function. -/
def overloads? : Signature → Option (List Overload)
  | builtin os => some os
  | userDefined _ => none

/-- The number of parameters of a function that the program defines. -/
def arity? : Signature → Option Nat
  | builtin _ => none
  | userDefined n => some n

/-- The type of a call with arguments of the given types, if such a call is possible. The first
overload that fits gives the type; of a function that the program defines, the type is unknown. -/
def result? : Signature → List Ty → Option Ty
  | builtin os, ts => (os.find? fun o => o.Fits ts).map Overload.result
  | userDefined n, ts => if ts.length = n then some .unknown else none

end Signature

end QueryAnalysis
