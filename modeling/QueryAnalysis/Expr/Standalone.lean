import QueryAnalysis.Diagnosis
import QueryAnalysis.Expr.Render

/-!
Expressions that stand outside of a query, in the body of a function or as inserted values. No table
is in scope there, so nothing may refer to a row: neither a wildcard, nor a column of a table, nor
the row number.

* `Expr.needsRow`: a node of that kind.
* `Expr.checkStandalone`: reports all of them in the order of the text, up to the first missing
  part. Subscripts count too.
-/

namespace QueryAnalysis.Expr

/-- The node itself refers to a row of a table. -/
def needsRow : Expr → Bool
  | wildcard _ | column _ _ _ | rowId _ => true
  | _ => false

/-- Checks a single node. -/
def checkStandaloneNode (e : Expr) : Diagnosis Unit :=
  if e.isHole then .incomplete
  else if e.needsRow then .report (.illegalExpression e.text e.pos)
  else pure ()

/-- Checks that nothing in the expression refers to a row. -/
def checkStandalone (e : Expr) : Diagnosis Unit :=
  forM e.preorder checkStandaloneNode

end QueryAnalysis.Expr
