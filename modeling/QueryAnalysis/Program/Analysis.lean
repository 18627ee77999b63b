import QueryAnalysis.Expr.Standalone
import QueryAnalysis.Plan.Analysis
import QueryAnalysis.Program.Basic

/-!
The analysis of statements and of whole programs.

* `Query.check`, `Statement.check`: one statement, in an environment of functions.
* `Program.check`: the statements of a program one after the other.
* `Program.analyze`: a program with the functions that it defines and the built-in ones.
-/

namespace QueryAnalysis

/-- Checks the plans of a query, the local ones first. -/
def Query.check (Γ : Env) (q : Query) : Diagnosis Unit := do
  forM q.locals fun l => l.plan.check Γ
  q.main.check Γ

/-- Checks a query that has to be there. -/
def Query.checkRequired (Γ : Env) : Option Query → Diagnosis Unit
  | none => .incomplete
  | some q => q.check Γ

/-- Checks an update. Only its own table is in scope. -/
def Update.check (Γ : Env) (u : Update) : Diagnosis Unit := do
  forM u.assignments fun a => a.value.examine Γ
  forM u.order SortKey.check
  forM u.conditions (Expr.expect Γ .boolean)
  forM u.groupBy (Expr.examine Γ)
  forM u.having (Expr.expect Γ .boolean)
  .reportAll (ColumnRef.unresolved [u.table] (u.exprs.flatMap Expr.columnRefs))

/-- Checks a removal. Only its own table is in scope. -/
def Delete.check (Γ : Env) (d : Delete) : Diagnosis Unit := do
  forM d.conditions (Expr.expect Γ .boolean)
  forM d.order SortKey.check
  forM d.groupBy (Expr.examine Γ)
  forM d.having (Expr.expect Γ .boolean)
  .reportAll (ColumnRef.unresolved [d.table] (d.exprs.flatMap Expr.columnRefs))

/-- Checks a new table. There is nothing to check in a schema. -/
def Create.check (Γ : Env) (c : Create) : Diagnosis Unit :=
  match c.content with
  | .schema _ => pure ()
  | .query q => Query.checkRequired Γ q

/-- Checks an insertion. The values are not compared with the columns, whose types are not known;
and no table is in scope for them. -/
def Insert.check (Γ : Env) (i : Insert) : Diagnosis Unit :=
  match i.source with
  | .values vs => do
    forM vs (Expr.examine Γ)
    forM i.order SortKey.check
    forM vs Expr.checkStandalone
  | .query q => do
    Query.checkRequired Γ q
    forM i.order SortKey.check

/-- Checks the body of a function, step by step. No table is in scope in it. -/
def FunctionDef.check (Γ : Env) (f : FunctionDef) : Diagnosis Unit :=
  forM f.body fun s => do
    s.value.examine Γ
    s.value.checkStandalone

/-- Checks a statement. Foreign code is taken as it is. -/
def Statement.check (Γ : Env) : Statement → Diagnosis Unit
  | query q => q.check Γ
  | update u => u.check Γ
  | delete d => d.check Γ
  | create c => c.check Γ
  | insert i => i.check Γ
  | function f => f.check Γ
  | verbatim _ => pure ()

/-- Checks a statement that has to be there. -/
def Statement.checkRequired (Γ : Env) : Option Statement → Diagnosis Unit
  | none => .incomplete
  | some s => s.check Γ

namespace Program

/-- Checks the statements of a program in their order. -/
def check (Γ : Env) (P : Program) : Diagnosis Unit :=
  forM P (Statement.checkRequired Γ)

/-- The diagnosis of a program with the functions that it defines itself, wherever they are defined,
and the built-in ones. -/
def diagnose (P : Program) : Diagnosis Unit :=
  P.check (P.env (some .builtins))

/-- The findings about a program. There is no answer for an incomplete one. -/
def analyze (P : Program) : Option (List Diagnostic) :=
  P.diagnose.complete?

end Program

end QueryAnalysis
