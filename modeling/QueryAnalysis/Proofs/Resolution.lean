import Mathlib.Logic.Function.Iterate
import QueryAnalysis.Proofs.Env
import QueryAnalysis.Session

/-!
Nested environments. An environment is created empty or with the functions of a program, on top of
another one or on its own, and then functions are registered in it, until the next one is created on
top of it.

* `Layer`: how an environment was created, and what was registered in it since.
* `Env.nest`: environments on top of each other, layer by layer.
* `Resolves`: what a function name stands for there, in terms of the layers.
* `Session.push`, `Session.pushAll`: a session that creates the environments one after the other.
* `lookup_nested`: the nearest layer that knows a name decides, by its last registration or else by
  its last definition, and the environments further out stay as they are.
-/

namespace QueryAnalysis

/-- The last member of a list with the property `q`. -/
def IsLast {α : Type} (q : α → Bool) (as : List α) (a : α) : Prop :=
  ∃ before after, as = before ++ a :: after ∧ q a = true ∧ ∀ b ∈ after, q b = false

/-- The search from the end finds the last one. -/
lemma find?_reverse_eq_some_iff {α : Type} {q : α → Bool} {as : List α} {a : α} :
    as.reverse.find? q = some a ↔ IsLast q as a := by
  rw [List.find?_eq_some_iff_append, IsLast]
  constructor
  · rintro ⟨ha, after, before, has, hafter⟩
    refine ⟨before.reverse, after.reverse, ?_, ha, fun b hb => ?_⟩
    · simpa using congrArg List.reverse has
    · simpa using hafter b (List.mem_reverse.mp hb)
  · rintro ⟨before, after, rfl, ha, hafter⟩
    refine ⟨ha, after.reverse, before.reverse, by simp, fun b hb => ?_⟩
    simpa using hafter b (List.mem_reverse.mp hb)

lemma find?_reverse_eq_none_iff {α : Type} {q : α → Bool} {as : List α} :
    as.reverse.find? q = none ↔ ∀ a ∈ as, q a = false := by
  simp

/-! ### Layers -/

/-- How an environment is created: empty, or with the functions that a program defines. -/
inductive Opening where
  | empty
  | program (P : Program)

/-- An environment, by how it was created and by what was registered in it since. -/
structure Layer where
  opening : Opening
  registered : List (String × Signature)

/-- The statement defines a function of the given name. -/
def Program.defines (n : String) : Option Statement → Bool
  | some (.function f) => f.name = n
  | _ => false

namespace Opening

/-- The environment at the start, on top of a parent if there is one. -/
def on (parent : Option Env) : Opening → Env
  | empty => .fresh parent
  | program P => P.env parent

/-- The statements of the program, if there is one. -/
def statements : Opening → Program
  | empty => []
  | program P => P

/-- An empty layer is that of a program without statements. -/
lemma on_eq (o : Opening) (parent : Option Env) : o.on parent = o.statements.env parent := by
  cases o <;> rfl

end Opening

/-- The environment of a layer on top of a parent. -/
def Layer.on (parent : Option Env) (l : Layer) : Env :=
  l.registered.foldl (fun Γ d => Γ.register d.1 d.2) (l.opening.on parent)

/-- Environments on top of each other, the innermost one first. -/
def Env.nest (parent : Option Env) : List Layer → Option Env
  | [] => parent
  | l :: ls => some (l.on (nest parent ls))

/-- **What a function name stands for** in the innermost of some layers. The last registration in
that layer counts, or else the last definition in its program, or else the next layer. -/
inductive Resolves (parent : Option Env) : List Layer → String → Signature → Prop
  | registered {l : Layer} {ls : List Layer} {n : String} {σ : Signature}
      (h : IsLast (fun d => d.1 = n) l.registered (n, σ)) : Resolves parent (l :: ls) n σ
  | defined {l : Layer} {ls : List Layer} {n : String} {f : FunctionDef}
      (hregistered : ∀ d ∈ l.registered, d.1 ≠ n)
      (h : IsLast (Program.defines n) l.opening.statements (some (.function f))) :
      Resolves parent (l :: ls) n (.userDefined f.params.length)
  | outer {l : Layer} {ls : List Layer} {n : String} {σ : Signature}
      (hregistered : ∀ d ∈ l.registered, d.1 ≠ n)
      (hdefined : ∀ s ∈ l.opening.statements, Program.defines n s = false)
      (h : Resolves parent ls n σ) : Resolves parent (l :: ls) n σ
  | parent {Γ : Env} {n : String} {σ : Signature} (hparent : parent = some Γ)
      (h : Γ.lookup n = some σ) : Resolves parent [] n σ

/-! ### Looking up a name -/

lemma Env.lookup_fresh (parent : Option Env) (n : String) :
    (fresh parent).lookup n = parent.bind fun Γ => Γ.lookup n := by
  cases parent <;> rfl

namespace Program

/-- Only the definition of a function defines a name. -/
lemma exists_function_of_defines {n : String} {s : Option Statement} (h : defines n s = true) :
    ∃ f, s = some (.function f) := by
  obtain _ | s := s
  · cases h
  · cases s with
    | function f => exact ⟨f, rfl⟩
    | _ => cases h

/-- Of the functions of a program, the last one of a name is that of the last statement that defines
the name. -/
lemma find?_functions (P : Program) (n : String) :
    (P.functions.reverse.find? fun f => f.name = n) =
      (P.reverse.find? (defines n)).bind fun s => s.bind Statement.function? := by
  have hdefines : (fun s : Option Statement => (s.bind Statement.function?).any (·.name = n)) =
      defines n := by
    funext s
    obtain _ | s := s
    · rfl
    · cases s <;> rfl
  rw [functions, ← List.filterMap_reverse, List.find?_filterMap, hdefines]

end Program

/-- What is found in a layer: a registration, a definition, or what the parent has. -/
lemma Layer.lookup_on (parent : Option Env) (l : Layer) (n : String) :
    (l.on parent).lookup n =
      ((l.registered.reverse.find? fun d => d.1 = n).map Prod.snd).or
        ((((l.opening.statements.reverse.find? (Program.defines n)).bind fun s =>
          s.bind Statement.function?).map fun f => .userDefined f.params.length).or
            (parent.bind fun Γ => Γ.lookup n)) := by
  rw [on, Env.lookup_foldl_register, Opening.on_eq, Program.env,
    Env.lookup_foldl_register FunctionDef.name fun f => .userDefined f.params.length,
    Program.find?_functions, Env.lookup_fresh]

namespace Resolves

variable {parent : Option Env} {ls : List Layer} {n : String} {σ : Signature}

/-- What a name stands for is found in the environments on top of each other. -/
lemma lookup_nest (h : Resolves parent ls n σ) :
    ((Env.nest parent ls).bind fun Γ => Γ.lookup n) = some σ := by
  induction h with
  | registered h =>
      rw [Env.nest, Option.bind_some, Layer.lookup_on, find?_reverse_eq_some_iff.mpr h]
      rfl
  | defined hregistered h =>
      rw [Env.nest, Option.bind_some, Layer.lookup_on,
        find?_reverse_eq_none_iff.mpr (by simpa using hregistered),
        find?_reverse_eq_some_iff.mpr h]
      rfl
  | outer hregistered hdefined _ ih =>
      rw [Env.nest, Option.bind_some, Layer.lookup_on,
        find?_reverse_eq_none_iff.mpr (by simpa using hregistered),
        find?_reverse_eq_none_iff.mpr hdefined, ih]
      rfl
  | parent hparent h => rw [Env.nest, hparent, Option.bind_some, h]

/-- What is found there is what the name stands for. -/
lemma of_lookup_nest (h : ((Env.nest parent ls).bind fun Γ => Γ.lookup n) = some σ) :
    Resolves parent ls n σ := by
  induction ls with
  | nil =>
      obtain ⟨Γ, hparent, hΓ⟩ := Option.bind_eq_some_iff.mp h
      exact .parent hparent hΓ
  | cons l ls ih =>
      rw [Env.nest, Option.bind_some, Layer.lookup_on] at h
      cases hr : l.registered.reverse.find? fun d => d.1 = n with
      | some d =>
          rw [hr] at h
          obtain ⟨m, τ⟩ := d
          obtain rfl : τ = σ := Option.some.inj h
          have hlast := find?_reverse_eq_some_iff.mp hr
          obtain rfl : m = n := by simpa using List.find?_some hr
          exact .registered hlast
      | none =>
          have hregistered : ∀ d ∈ l.registered, d.1 ≠ n := by
            simpa using find?_reverse_eq_none_iff.mp hr
          cases hd : l.opening.statements.reverse.find? (Program.defines n) with
          | some s =>
              obtain ⟨f, rfl⟩ := Program.exists_function_of_defines (List.find?_some hd)
              rw [hr, hd] at h
              obtain rfl : Signature.userDefined f.params.length = σ := Option.some.inj h
              exact .defined hregistered (find?_reverse_eq_some_iff.mp hd)
          | none =>
              rw [hr, hd] at h
              exact .outer hregistered (find?_reverse_eq_none_iff.mp hd) (ih h)

end Resolves

/-! ### Sessions -/

namespace Session

/-- Creates an environment on top of the current one, and registers functions in it. -/
def push (s : Session) (l : Layer) : Session :=
  l.registered.foldl (fun s d => s.register d.1 d.2) (s.enter (l.opening.on (some s.env)))

/-- Creates environments on top of each other. The first one in the list is the innermost, which is
created last. -/
def pushAll (s : Session) : List Layer → Session
  | [] => s
  | l :: ls => (s.pushAll ls).push l

/-- Registrations change the current environment only. -/
lemma foldl_register (s : Session) (ds : List (String × Signature)) :
    ds.foldl (fun s d => s.register d.1 d.2) s =
      { s with env := ds.foldl (fun Γ d => Γ.register d.1 d.2) s.env } := by
  induction ds generalizing s with
  | nil => rfl
  | cons d ds ih =>
      rw [List.foldl_cons, ih]
      rfl

lemma push_eq (s : Session) (l : Layer) : s.push l = s.enter (l.on (some s.env)) :=
  foldl_register _ _

/-- A layer that is entered and left again makes no difference. -/
lemma leave_push (s : Session) (l : Layer) : (s.push l).leave = s := by
  rw [push_eq]
  rfl

/-- The current environment is that of the layers. -/
lemma env_pushAll (s : Session) (ls : List Layer) :
    some (s.pushAll ls).env = Env.nest (some s.env) ls := by
  induction ls with
  | nil => rfl
  | cons l ls ih =>
      rw [pushAll, push_eq, Env.nest, ← ih]
      rfl

/-- Leaving environments brings back those further out. -/
lemma leave_pushAll (s : Session) (ls ls' : List Layer) :
    leave^[ls.length] (s.pushAll (ls ++ ls')) = s.pushAll ls' := by
  induction ls with
  | nil => rfl
  | cons l ls ih =>
      rw [List.length_cons, Function.iterate_succ_apply, List.cons_append, pushAll, leave_push, ih]

end Session

/-- **Names resolve by nearest scope and last definition.** In environments that were created on top
of each other, each of them empty or with the functions of a program, a name stands for its last
registration in the innermost environment. If there is none there, it stands for its last definition
in the program that the environment was created with, of which the number of parameters is known, or
else for what it stands for further out; and for nothing if there is nothing further out. All this
leaves the outer environments as they are: they are found again when the inner ones are left. -/
theorem lookup_nested :
    (∀ (parent : Option Env) (ls : List Layer) (n : String) (σ : Signature),
      ((Env.nest parent ls).bind fun Γ => Γ.lookup n) = some σ ↔ Resolves parent ls n σ) ∧
      ∀ (s : Session) (ls ls' : List Layer),
        some (s.pushAll (ls ++ ls')).env = Env.nest (some s.env) (ls ++ ls') ∧
          Session.leave^[ls.length] (s.pushAll (ls ++ ls')) = s.pushAll ls' :=
  ⟨fun _ _ _ _ => ⟨Resolves.of_lookup_nest, Resolves.lookup_nest⟩,
    fun s ls ls' => ⟨s.env_pushAll _, s.leave_pushAll ls ls'⟩⟩

/-- A program with a gap that defines a function twice, and an empty environment around it. -/
def shadowedSum : List Layer :=
  [⟨.program [some (.function ⟨"sum", ["x"], []⟩), none, some (.function ⟨"sum", ["x", "y"], []⟩),
      some (.verbatim "sum")], [("avg", .userDefined 4), ("avg", .userDefined 5)]⟩,
    ⟨.empty, [("sum", .userDefined 3), ("abs", .userDefined 0)]⟩]

/-- The last registration, the last definition, a registration further out, a built-in function, and
a name that stands for nothing. -/
theorem shadowedSum_resolves :
    Resolves (some .builtins) shadowedSum "avg" (.userDefined 5) ∧
      Resolves (some .builtins) shadowedSum "sum" (.userDefined 2) ∧
      Resolves (some .builtins) shadowedSum "abs" (.userDefined 0) ∧
      Resolves (some .builtins) shadowedSum "like"
        (.builtin [⟨[.string, .string], .boolean⟩]) ∧
      ∀ σ, ¬ Resolves (some .builtins) shadowedSum "vwap" σ := by
  have hiff := lookup_nested.1 (some .builtins) shadowedSum
  refine ⟨(hiff _ _).mp (by decide), (hiff _ _).mp (by decide), (hiff _ _).mp (by decide),
    (hiff _ _).mp (by decide), fun σ hσ => ?_⟩
  have hnone : ((Env.nest (some .builtins) shadowedSum).bind fun Γ => Γ.lookup "vwap") = none := by
    decide
  have hsome := (hiff _ _).mpr hσ
  rw [hnone] at hsome
  cases hsome

end QueryAnalysis
