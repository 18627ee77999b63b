import QueryAnalysis.Expr.Basic

/-!
Query plans: trees of relational operators over table scans.

As with expressions, the leaf `Plan.hole` stands where nothing was given. Every input of an operator
is required.

* `TableRef`: a table as it is named by a query, with its correlation name.
* `Plan`: the trees.
* `Plan.operators`: all operators of a plan, each before its inputs.
* `Plan.tables`, `Plan.columnRefs`: the table scans of a plan from left to right, and the column
  accesses in its expressions.

The kind of a join and the direction of a sort key belong to the tree and can be read off it, but no
check depends on them.
-/

namespace QueryAnalysis

/-- A table in a query, under its own name or under an alias. -/
structure TableRef where
  name : String
  aliasName : Option String
  pos : Pos
deriving DecidableEq

namespace TableRef

/-- The name by which columns refer to the table. An alias hides the table's own name. -/
def correlationName (t : TableRef) : String :=
  t.aliasName.getD t.name

/-- The table as it is written in a query. -/
def fullName (t : TableRef) : String :=
  match t.aliasName with
  | none => t.name
  | some a => t.name ++ " as " ++ a

end TableRef

/-- A value to sort by, and whether the largest one comes first. -/
structure SortKey where
  value : Expr
  descending : Bool

/-- How rows without a partner are treated by a join. -/
inductive JoinKind where
  | cross
  | inner
  | leftOuter
  | fullOuter
deriving DecidableEq

/-- A query plan. -/
inductive Plan where
  | hole
  | scan (table : TableRef)
  | project (input : Plan) (exprs : List Expr)
  | filter (input : Plan) (conditions : List Expr)
  | groupBy (input : Plan) (groups having : List Expr)
  | join (kind : JoinKind) (left right : Plan) (conditions : List Expr)
  | sort (input : Plan) (order : List SortKey)

namespace Plan

/-- The inputs of an operator, from left to right. -/
def inputs : Plan → List Plan
  | hole | scan _ => []
  | project p _ | filter p _ | groupBy p _ _ | sort p _ => [p]
  | join _ l r _ => [l, r]

/-- The expressions that an operator carries itself. -/
def exprs : Plan → List Expr
  | hole | scan _ => []
  | project _ es => es
  | filter _ cs => cs
  | groupBy _ gs hs => gs ++ hs
  | join _ _ _ cs => cs
  | sort _ ks => ks.map SortKey.value

/-- The operators of a plan, each one before its inputs. A missing input shows as `hole`. -/
def operators : Plan → List Plan
  | hole => [hole]
  | scan t => [scan t]
  | project p es => project p es :: operators p
  | filter p cs => filter p cs :: operators p
  | groupBy p gs hs => groupBy p gs hs :: operators p
  | join k l r cs => join k l r cs :: (operators l ++ operators r)
  | sort p ks => sort p ks :: operators p

/-- An operator comes first, then the operators of its inputs from left to right. -/
theorem operators_eq (p : Plan) : p.operators = p :: p.inputs.flatMap operators := by
  cases p <;> simp [operators, inputs]

/-- The table that an operator scans, if it is a table scan. -/
def table? : Plan → Option TableRef
  | scan t => some t
  | _ => none

/-- The tables of a plan, from left to right. -/
def tables (p : Plan) : List TableRef :=
  p.operators.filterMap table?

/-- The column accesses in the expressions of a plan, operator by operator. -/
def columnRefs (p : Plan) : List ColumnRef :=
  p.operators.flatMap fun o => o.exprs.flatMap Expr.columnRefs

end Plan

end QueryAnalysis
