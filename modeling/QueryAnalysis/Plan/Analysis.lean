import QueryAnalysis.Expr.Typing
import QueryAnalysis.Expr.Render
import QueryAnalysis.Plan.Names

/-!
The analysis of a query plan. First come the operators one by one, each before its inputs, then the
names of the plan as a whole.

* `SortKey.check`: a key is a plain name or a column of a table.
* `Plan.checkOperator`: the expressions of one operator.
* `Plan.check`: the whole plan.
-/

namespace QueryAnalysis

/-- The expression can serve as a sort key. -/
def Expr.isSortable : Expr → Bool
  | ident _ _ | column _ _ _ => true
  | _ => false

/-- Checks a sort key. Nothing but its form matters. -/
def SortKey.check (k : SortKey) : Diagnosis Unit :=
  if k.value.isHole then .incomplete
  else if k.value.isSortable then pure ()
  else .report (.illegalExpression k.value.text k.value.pos)

namespace Plan

/-- Checks the expressions of an operator. What follows `having` is checked as a condition, and a
second time together with the groups. -/
def checkOperator (Γ : Env) : Plan → Diagnosis Unit
  | hole => .incomplete
  | scan _ => pure ()
  | project _ es => forM es (Expr.examine Γ)
  | filter _ cs => forM cs (Expr.expect Γ .boolean)
  | groupBy _ gs hs => do
    forM hs (Expr.expect Γ .boolean)
    forM (gs ++ hs) (Expr.examine Γ)
  | join _ _ _ cs => forM cs (Expr.expect Γ .boolean)
  | sort _ ks => forM ks SortKey.check

/-- What is wrong with the names of a plan: tables in conflict, then column accesses. -/
def checkNames (p : Plan) : List Diagnostic :=
  TableRef.duplicates p.tables ++
    ColumnRef.unresolved (p.tables.map TableRef.correlationName) p.columnRefs

/-- Checks a plan: its operators, and then its names. -/
def check (Γ : Env) (p : Plan) : Diagnosis Unit := do
  forM p.operators (checkOperator Γ)
  .reportAll p.checkNames

end Plan

end QueryAnalysis
