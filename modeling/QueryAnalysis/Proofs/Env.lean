import Mathlib.Data.List.Induction
import QueryAnalysis.Program.Basic

/-!
What a function name stands for in a program.

* `Env.forall_builtins`: what holds of all signatures in the table of built-in functions.
* `Env.lookup_foldl_register`: what is found after any number of registrations.
* `Program.resolve`: the last definition of the name in the program, or else a built-in function.
* `Program.lookup_env`: the environment of a program resolves names that way.
-/

namespace QueryAnalysis

/-- What holds of every entry in the table of built-in functions holds of every signature that is
found there. -/
lemma Env.forall_builtins {Q : Signature → Prop} (h : ∀ d ∈ builtins.own, Q d.2) {f : String}
    {σ : Signature} (hf : builtins.lookup f = some σ) : Q σ := by
  obtain ⟨scope, hscope, hlookup⟩ := List.exists_of_findSome?_eq_some hf
  obtain rfl := List.mem_singleton.mp hscope
  obtain ⟨before, after, hown, -⟩ := List.lookup_eq_some_iff.mp hlookup
  refine h (f, σ) ?_
  rw [hown]
  exact List.mem_append_right _ List.mem_cons_self

/-- Definitions are registered one by one, and the latest one of a name counts. -/
lemma Env.lookup_foldl_register {α : Type} (name : α → String) (signature : α → Signature)
    (ds : List α) (Γ : Env) (f : String) :
    (ds.foldl (fun Γ d => Γ.register (name d) (signature d)) Γ).lookup f =
      ((ds.reverse.find? fun d => name d = f).map signature).or (Γ.lookup f) := by
  induction ds using List.reverseRecOn with
  | nil => simp
  | append_singleton ds d ih =>
      rw [List.foldl_append, List.foldl_cons, List.foldl_nil, Env.lookup_register, ih,
        List.reverse_append, List.reverse_singleton, List.singleton_append, List.find?_cons]
      by_cases h : f = name d
      · simp [h]
      · simp [h, Ne.symm h]

namespace Program

/-- What a function name stands for: the last definition of that name in the program, which only
tells the number of parameters, or else a built-in function. -/
def resolve (P : Program) (f : String) : Option Signature :=
  ((P.functions.reverse.find? fun d => d.name = f).map fun d =>
    .userDefined d.params.length).or (Env.builtins.lookup f)

/-- The functions of a program are its statements that define one. -/
lemma mem_functions {P : Program} {d : FunctionDef} :
    d ∈ P.functions ↔ some (.function d) ∈ P := by
  rw [functions, List.mem_filterMap]
  constructor
  · rintro ⟨_ | s, hs, hd⟩
    · cases hd
    · cases s with
      | function d' =>
          cases hd
          exact hs
      | _ => cases hd
  · intro hd
    exact ⟨_, hd, rfl⟩

/-- No definition is found under a name that is not defined. -/
lemma find?_functions_eq_none {P : Program} {f : String} (hf : ∀ d ∈ P.functions, d.name ≠ f) :
    P.functions.reverse.find? (fun d => d.name = f) = none := by
  rw [List.find?_eq_none]
  intro d hd
  simpa using hf d (List.mem_reverse.mp hd)

/-- The environment of a program resolves names by the last definition, or else as built-in
functions. -/
lemma lookup_env (P : Program) : (P.env (some .builtins)).lookup = P.resolve := by
  funext f
  exact Env.lookup_foldl_register FunctionDef.name (fun d => .userDefined d.params.length) _ _ f

end Program

end QueryAnalysis
