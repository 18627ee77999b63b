import QueryAnalysis.Env
import QueryAnalysis.Plan.Basic

/-!
Statements and programs.

* `Query`: a plan, with the local queries that are computed before it.
* `Statement`: a query, a change of a table, a function or a piece of foreign code.
* `Program`: a list of statements. A statement may be missing, as may be the query of a statement
  that is built on one.
* `Program.env`: the functions that a program defines.

A statement is kept as it was given. The names of local queries and of their columns, of assigned
columns and variables, and of the columns of a new table, and the table and columns of an insertion
belong to it and can be read off it, but no check depends on them.
-/

namespace QueryAnalysis

/-- A query with a name, and with names for its columns if these are given. -/
structure LocalQuery where
  name : String
  columns : List String
  plan : Plan

/-- A query. The local ones are computed first. -/
structure Query where
  locals : List LocalQuery
  main : Plan

/-- A new value for a column. -/
structure Assignment where
  column : String
  value : Expr

/-- A change of the rows of a table. -/
structure Update where
  table : String
  assignments : List Assignment
  order : List SortKey
  conditions : List Expr
  groupBy : List Expr
  having : List Expr

/-- The expressions of an update, clause by clause. -/
def Update.exprs (u : Update) : List Expr :=
  u.assignments.map Assignment.value ++ u.order.map SortKey.value ++ u.conditions ++ u.groupBy ++
    u.having

/-- What is removed from a table: columns, or the rows that meet some conditions. -/
inductive Removal where
  | columns (names : List String)
  | rows (conditions : List Expr)

/-- The columns to remove. -/
def Removal.columns? : Removal → Option (List String)
  | columns ns => some ns
  | rows _ => none

/-- The conditions on the rows to remove. -/
def Removal.conditions? : Removal → Option (List Expr)
  | columns _ => none
  | rows cs => some cs

/-- A removal from a table. -/
structure Delete where
  table : String
  target : Removal
  order : List SortKey
  groupBy : List Expr
  having : List Expr

/-- The conditions on the rows. There are none if columns are removed. -/
def Delete.conditions (d : Delete) : List Expr :=
  d.target.conditions?.getD []

/-- The expressions of a removal, clause by clause. -/
def Delete.exprs (d : Delete) : List Expr :=
  d.conditions ++ d.order.map SortKey.value ++ d.groupBy ++ d.having

/-- A column of a new table, with the name of its type as it is written. -/
structure ColumnDef where
  name : String
  type : String
deriving DecidableEq

/-- What a new table is made from. -/
inductive TableContent where
  | schema (columns : List ColumnDef)
  | query (q : Option Query)

/-- The query that a new table is made from, which may itself be missing. -/
def TableContent.query? : TableContent → Option (Option Query)
  | schema _ => none
  | query q => some q

/-- A new table. -/
structure Create where
  name : String
  content : TableContent

/-- Where inserted rows come from. -/
inductive RowSource where
  | values (vs : List Expr)
  | query (q : Option Query)

/-- The values to insert. -/
def RowSource.values? : RowSource → Option (List Expr)
  | values vs => some vs
  | query _ => none

/-- The query whose rows are inserted, which may itself be missing. -/
def RowSource.query? : RowSource → Option (Option Query)
  | values _ => none
  | query q => some q

/-- An insertion into a table. -/
structure Insert where
  table : String
  order : List SortKey
  columns : List String
  source : RowSource

/-- A step of a function: an expression, or an assignment to a variable. -/
structure Step where
  target : Option String
  value : Expr

/-- A function that the program defines. -/
structure FunctionDef where
  name : String
  params : List String
  body : List Step

/-- A statement. -/
inductive Statement where
  | query (q : Query)
  | update (u : Update)
  | delete (d : Delete)
  | create (c : Create)
  | insert (i : Insert)
  | function (f : FunctionDef)
  | verbatim (code : String)

/-- The function that a statement defines, if it does. -/
def Statement.function? : Statement → Option FunctionDef
  | function f => some f
  | _ => none

/-- A program: its statements in order. -/
abbrev Program := List (Option Statement)

namespace Program

/-- The functions that a program defines, in its order. -/
def functions (P : Program) : List FunctionDef :=
  P.filterMap fun s => s.bind Statement.function?

/-- The environment of a program: what it defines itself, inside of a parent. Only the number of
parameters is known of a function, and of two definitions with the same name the later counts. -/
def env (P : Program) (parent : Option Env) : Env :=
  P.functions.foldl (fun Γ f => Γ.register f.name (.userDefined f.params.length)) (.fresh parent)

end Program

end QueryAnalysis
