import QueryAnalysis.Collecting

/-!
Sessions: checks that are made one after the other, in environments that may change between them,
with all findings collected in one list.

* `Check`: a request for a check. `Check.run` is its outcome, and `Check.collect` makes it with a
  list at hand.
* `Session`: the environments in use, and what was found so far.
* `Session.perform`: makes a check in the current environment and collects what it finds, also if it
  meets a missing part.
-/

namespace QueryAnalysis

/-- A check of some tree. -/
inductive Check where
  | infer (e : Expr)
  | expect (S : Expectation) (e : Expr)
  | standalone (e : Expr)
  | plan (p : Plan)
  | query (q : Query)
  | statement (s : Statement)

/-- Makes a check. Only the first kind of check yields a type. -/
def Check.run (Γ : Env) : Check → Diagnosis (Option Ty)
  | infer e => some <$> e.infer Γ
  | expect S e => (fun _ => none) <$> e.expect Γ S
  | standalone e => (fun _ => none) <$> e.checkStandalone
  | plan p => (fun _ => none) <$> p.check Γ
  | query q => (fun _ => none) <$> q.check Γ
  | statement s => (fun _ => none) <$> s.check Γ

/-- Makes a check and appends its findings to a list. -/
def Check.collect (Γ : Env) : Check → Collecting (Option Ty)
  | infer e => some <$> e.collect Γ
  | expect S e => (fun _ => none) <$> e.collectExpected Γ S
  | standalone e => (fun _ => none) <$> e.collectStandalone
  | plan p => (fun _ => none) <$> p.collect Γ
  | query q => (fun _ => none) <$> q.collect Γ
  | statement s => (fun _ => none) <$> s.collect Γ

/-- The state of a session: the current environment, those that were set aside for it, the latest
first, and the findings so far. -/
structure Session where
  env : Env
  suspended : List Env
  collected : List Diagnostic

namespace Session

/-- A new session has the built-in functions, and room for more. -/
def start : Session where
  env := .fresh (some .builtins)
  suspended := []
  collected := []

/-- The number of environments in use. -/
def depth (s : Session) : Nat :=
  s.suspended.length + 1

/-- Defines a function in the current environment. -/
def register (s : Session) (name : String) (σ : Signature) : Session :=
  { s with env := s.env.register name σ }

/-- Continues in another environment, and sets the current one aside. -/
def enter (s : Session) (Γ : Env) : Session :=
  { s with env := Γ, suspended := s.env :: s.suspended }

/-- Returns to the environment that was set aside last. The first one is never left. -/
def leave (s : Session) : Session :=
  match s.suspended with
  | [] => s
  | Γ :: rest => { s with env := Γ, suspended := rest }

/-- Makes a check that appends to the findings so far. Its outcome is what it yields, and what is
new in the list. -/
def perform (s : Session) (c : Check) : Diagnosis (Option Ty) × Session :=
  let (result, collected) := (c.collect s.env).runFrom s.collected
  (⟨collected.drop s.collected.length, result⟩, { s with collected })

/-- Forgets the findings. -/
def clear (s : Session) : Session :=
  { s with collected := [] }

end Session

end QueryAnalysis
