import QueryAnalysis.Program.Analysis
import QueryAnalysis.Proofs.Diagnosis

/-!
The analysis as a list of tasks. Whatever tree is checked, the check is a sequence of tasks that do
not depend on each other, and each of them is about a single expression, a single sort key, or the
tables or column accesses of a plan or statement.

* `Task`: the elementary checks, and `Task.run` what they find.
* `Plan.tasks`, `Query.tasks`, `Statement.tasks`, `Program.tasks`: the tasks of a tree, in order.
* `Plan.check_eq_forM`, `Query.check_eq_forM`, `Statement.check_eq_forM`, `Program.check_eq_forM`: a
  check runs the tasks one after the other.
-/

namespace QueryAnalysis

open Diagnosis

/-- An elementary check. The task `missing` stands for a part that is not there. -/
inductive Task where
  | missing
  | value (e : Expr)
  | condition (e : Expr)
  | key (k : SortKey)
  | standalone (e : Expr)
  | tables (ts : List TableRef)
  | columns (names : List String) (rs : List ColumnRef)

/-- What a task finds. -/
def Task.run (Γ : Env) : Task → Diagnosis Unit
  | missing => .incomplete
  | value e => e.examine Γ
  | condition e => e.expect Γ .boolean
  | key k => k.check
  | standalone e => e.checkStandalone
  | tables ts => .reportAll (TableRef.duplicates ts)
  | columns names rs => .reportAll (ColumnRef.unresolved names rs)

namespace Diagnosis

variable {α β : Type}

/-- Findings that are reported together are reported one part after the other. -/
lemma reportAll_append (ds ds' : List Diagnostic) :
    reportAll (ds ++ ds') = reportAll ds >>= fun _ => reportAll ds' := rfl

lemma forM_singleton (f : α → Diagnosis Unit) (a : α) : forM [a] f = f a := by
  rw [List.forM_cons, List.forM_nil]
  exact bind_pure_unit

/-- A loop over several lists in a row is a loop over these lists. -/
lemma forM_flatMap (g : α → List β) (f : β → Diagnosis Unit) (as : List α) :
    forM (as.flatMap g) f = forM as fun a => forM (g a) f := by
  induction as with
  | nil => rfl
  | cons a as ih => rw [List.flatMap_cons, List.forM_append, List.forM_cons, ih]

end Diagnosis

variable (Γ : Env)

/-! ### Plans and queries -/

namespace Plan

/-- The tasks of a single operator. What follows `having` comes up twice. -/
def operatorTasks : Plan → List Task
  | hole => [.missing]
  | scan _ => []
  | project _ es => es.map .value
  | filter _ cs => cs.map .condition
  | groupBy _ gs hs => hs.map .condition ++ (gs ++ hs).map .value
  | join _ _ _ cs => cs.map .condition
  | sort _ ks => ks.map .key

/-- The tasks of a plan: those of its operators, and then its names. -/
def tasks (p : Plan) : List Task :=
  p.operators.flatMap operatorTasks ++
    [.tables p.tables, .columns (p.tables.map TableRef.correlationName) p.columnRefs]

/-- The check of an operator runs its tasks, those about `having` before those about all values. -/
lemma checkOperator_eq_forM :
    checkOperator Γ = fun o => forM o.operatorTasks (Task.run Γ) := by
  funext o
  cases o with
  | hole => rfl
  | scan => rfl
  | groupBy p gs hs =>
      simp only [checkOperator, operatorTasks, List.map_append, List.forM_append, List.forM_map]
      rfl
  | _ =>
      rw [checkOperator, operatorTasks, List.forM_map]
      rfl

/-- The check of a plan runs the tasks of its operators, each operator before its inputs, and then
the two tasks about names. -/
lemma check_eq_forM : check Γ = fun p => forM p.tasks (Task.run Γ) := by
  funext p
  rw [check, tasks, List.forM_append, forM_flatMap, List.forM_cons, forM_singleton,
    checkOperator_eq_forM, checkNames, reportAll_append]
  rfl

end Plan

namespace Query

/-- The plans of a query, the local ones first. -/
def plans (q : Query) : List Plan :=
  q.locals.map LocalQuery.plan ++ [q.main]

/-- The tasks of a query, plan by plan. -/
def tasks (q : Query) : List Task :=
  q.plans.flatMap Plan.tasks

/-- The tasks of a query that has to be there. -/
def requiredTasks (q : Option Query) : List Task :=
  q.elim [.missing] tasks

/-- A query is checked plan by plan, the main one last. -/
lemma check_eq_forM_plans (q : Query) : q.check Γ = forM q.plans (Plan.check Γ) := by
  rw [check, plans, List.forM_append, List.forM_map, forM_singleton]

/-- The check of a query runs its tasks. -/
lemma check_eq_forM : check Γ = fun q => forM q.tasks (Task.run Γ) := by
  funext q
  rw [check_eq_forM_plans, tasks, forM_flatMap, Plan.check_eq_forM]

/-- If the query is missing, then the one task is to report this, and it fails. -/
lemma checkRequired_eq_forM :
    checkRequired Γ = fun q => forM (requiredTasks q) (Task.run Γ) := by
  funext q
  cases q with
  | none => rfl
  | some q => rw [checkRequired, check_eq_forM, requiredTasks, Option.elim_some]

end Query

/-! ### Statements and programs -/

namespace Statement

/-- The tasks of a statement, in the order of its check. -/
def tasks : Statement → List Task
  | query q => q.tasks
  | update u =>
    (u.assignments.map Assignment.value).map .value ++ u.order.map .key ++
      u.conditions.map .condition ++ u.groupBy.map .value ++ u.having.map .condition ++
      [.columns [u.table] (u.exprs.flatMap Expr.columnRefs)]
  | delete d =>
    d.conditions.map .condition ++ d.order.map .key ++ d.groupBy.map .value ++
      d.having.map .condition ++
      [.columns [d.table] (d.exprs.flatMap Expr.columnRefs)]
  | create c => c.content.query?.elim [] Query.requiredTasks
  | insert i =>
    match i.source with
    | .values vs => vs.map .value ++ i.order.map .key ++ vs.map .standalone
    | .query q => Query.requiredTasks q ++ i.order.map .key
  | function f => f.body.flatMap fun s => [.value s.value, .standalone s.value]
  | verbatim _ => []

/-- The tasks of a statement that has to be there. -/
def requiredTasks (s : Option Statement) : List Task :=
  s.elim [.missing] tasks

/-- The check of a statement runs its tasks, clause by clause in the order of the statement. -/
lemma check_eq_forM : check Γ = fun s => forM s.tasks (Task.run Γ) := by
  funext s
  cases s with
  | query q => rw [check, Query.check_eq_forM, tasks]
  | update u =>
      simp only [check, Update.check, tasks, List.forM_append, List.forM_map, forM_singleton,
        bind_assoc]
      rfl
  | delete d =>
      simp only [check, Delete.check, tasks, List.forM_append, List.forM_map, forM_singleton,
        bind_assoc]
      rfl
  | create c =>
      obtain ⟨name, _ | q⟩ := c
      · rfl
      · rw [check, Create.check, Query.checkRequired_eq_forM]
        rfl
  | insert i =>
      obtain ⟨table, order, columns, vs | q⟩ := i
      · simp only [check, Insert.check, tasks, List.forM_append, List.forM_map, bind_assoc]
        rfl
      · rw [check, Insert.check, Query.checkRequired_eq_forM, tasks, List.forM_append,
          List.forM_map]
        rfl
  | function f =>
      simp only [check, FunctionDef.check, tasks, forM_flatMap, List.forM_cons, List.forM_nil,
        bind_pure_unit]
      rfl
  | verbatim code => rfl

/-- The same for a statement that may be missing. -/
lemma checkRequired_eq_forM :
    checkRequired Γ = fun s => forM (requiredTasks s) (Task.run Γ) := by
  funext s
  cases s with
  | none => rfl
  | some s => rw [checkRequired, check_eq_forM, requiredTasks, Option.elim_some]

end Statement

namespace Program

/-- The tasks of a program, statement by statement. -/
def tasks (P : Program) : List Task :=
  P.flatMap Statement.requiredTasks

/-- **The analysis is a list of tasks.** -/
theorem check_eq_forM (P : Program) : P.check Γ = forM P.tasks (Task.run Γ) := by
  rw [check, tasks, forM_flatMap, Statement.checkRequired_eq_forM]

end Program

end QueryAnalysis
