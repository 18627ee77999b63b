import QueryAnalysis.Program.Analysis

/-!
Checks that collect their findings in place. A session has one list of findings, and every check in
it appends to that list while it runs; a check that meets a missing part stops there and leaves what
it has appended so far.

* `Collecting`: such a check, and `Collecting.runFrom` its run on a given list.
* `Collecting.push`, `Collecting.append`: findings go to the end of the list.
* `Collecting.apart`: a check on a list of its own. A call of a known function needs it, since the
  call itself is judged after its arguments and reported ahead of them.
* `Expr.collect`, `Plan.collect`, `Query.collect`, `Statement.collect`: the checks.
-/

namespace QueryAnalysis

/-- A check that appends what it finds to a list. It yields nothing if a part is missing; the list
is kept in any case. -/
abbrev Collecting := OptionT (StateM (List Diagnostic))

namespace Collecting

variable {α : Type}

/-- Runs a check on a list: what it yields, and the list that it leaves behind. -/
def runFrom (x : Collecting α) (L : List Diagnostic) : Option α × List Diagnostic :=
  Id.run (StateT.run (OptionT.run x) L)

/-- Appends findings. -/
def append (ds : List Diagnostic) : Collecting Unit :=
  modify (· ++ ds)

/-- Appends one finding. -/
def push (d : Diagnostic) : Collecting Unit :=
  append [d]

/-- Runs a check on an empty list of its own, and hands that list over together with the value. If a
part is missing, the list is lost. -/
def apart (x : Collecting α) : Collecting (α × List Diagnostic) :=
  match x.runFrom [] with
  | (some a, ds) => pure (a, ds)
  | (none, _) => failure

/-- Holds the type of what stands at position `p` to the expectation `S`. -/
def expecting (x : Collecting Ty) (S : Expectation) (p : Pos) : Collecting Unit := do
  let t ← x
  if S.Admits t then pure () else push (.typeMismatch S.primary t p)

end Collecting

open Collecting

/-! ### Expressions -/

/-- A call at position `p` of a function with this signature. The findings about its arguments are
set aside until the call is judged. -/
def Signature.collect (σ : Signature) (name : String) (p : Pos) (args : Collecting (List Ty)) :
    Collecting Ty := do
  let (ts, ds) ← args.apart
  let result := σ.result? ts
  if result.isNone then push (.badCall name p)
  append ds
  pure (result.getD .unknown)

namespace Expr

mutual

/-- The type of an expression, as far as it is known. -/
def collect (Γ : Env) : Expr → Collecting Ty
  | hole => failure
  | literal _ k _ => pure k.type
  | ident _ _ => pure .unknown
  | rowId _ => pure .numeric
  | wildcard _ => pure .unknown
  | column _ _ _ => pure .unknown
  | unary _ op a => do
    (collect Γ a).expecting op.operand a.pos
    pure op.type
  | binary _ op l r =>
    match op.operand? with
    | some S => do
      (collect Γ l).expecting S l.pos
      (collect Γ r).expecting S r.pos
      pure op.type
    | none => do
      let t ← collect Γ l
      (collect Γ r).expecting (.exactly t) r.pos
      pure op.type
  | call p f args =>
    match Γ.lookup f with
    | some σ => σ.collect f p (collectAll Γ args)
    | none => do
      let _ ← collectAll Γ args
      pure .unknown
  | index _ a i =>
    if i.isHole then failure
    else do
      let _ ← collect Γ a
      pure .unknown
  | case p s bs d => do
    let c ← if s.isHole then pure .boolean else collect Γ s
    collectConditions Γ (.exactly c) bs
    let t ← collectResults Γ p bs
    if d.isHole then pure () else (collect Γ d).expecting (.exactly t) d.pos
    pure t
  | each _ a => collect Γ a

/-- The types of a list of expressions. -/
def collectAll (Γ : Env) : List Expr → Collecting (List Ty)
  | [] => pure []
  | e :: es => do
    let t ← collect Γ e
    let ts ← collectAll Γ es
    pure (t :: ts)

/-- Holds the conditions of a case to an expectation. -/
def collectConditions (Γ : Env) (S : Expectation) : List (Branch Expr) → Collecting Unit
  | [] => pure ()
  | ⟨c, _⟩ :: bs => do
    (collect Γ c).expecting S c.pos
    collectConditions Γ S bs

/-- The common type of the results of a case at position `p`. -/
def collectResults (Γ : Env) (p : Pos) : List (Branch Expr) → Collecting Ty
  | [] => do
    push (.typeMismatch .boolean .unit p)
    pure .unknown
  | ⟨_, r⟩ :: bs => do
    let t ← collect Γ r
    collectFurther Γ (.exactly t) bs
    pure t

/-- Holds the results of further branches to an expectation. -/
def collectFurther (Γ : Env) (S : Expectation) : List (Branch Expr) → Collecting Unit
  | [] => pure ()
  | ⟨_, r⟩ :: bs => do
    (collect Γ r).expecting S r.pos
    collectFurther Γ S bs

end

/-- Checks an expression, and holds its type to an expectation. -/
def collectExpected (Γ : Env) (S : Expectation) (e : Expr) : Collecting Unit :=
  (e.collect Γ).expecting S e.pos

/-- Checks an expression of any type. -/
def collectValue (Γ : Env) (e : Expr) : Collecting Unit := do
  let _ ← e.collect Γ
  pure ()

/-- Checks that nothing in the expression refers to a row. -/
def collectStandalone (e : Expr) : Collecting Unit :=
  forM e.preorder fun n =>
    if n.isHole then failure
    else if n.needsRow then push (.illegalExpression n.text n.pos)
    else pure ()

end Expr

/-- Checks a sort key. -/
def SortKey.collect (k : SortKey) : Collecting Unit :=
  if k.value.isHole then failure
  else if k.value.isSortable then pure ()
  else push (.illegalExpression k.value.text k.value.pos)

/-! ### Plans and queries -/

namespace Plan

/-- Checks the expressions of an operator. -/
def collectOperator (Γ : Env) : Plan → Collecting Unit
  | hole => failure
  | scan _ => pure ()
  | project _ es => forM es (Expr.collectValue Γ)
  | filter _ cs => forM cs (Expr.collectExpected Γ .boolean)
  | groupBy _ gs hs => do
    forM hs (Expr.collectExpected Γ .boolean)
    forM (gs ++ hs) (Expr.collectValue Γ)
  | join _ _ _ cs => forM cs (Expr.collectExpected Γ .boolean)
  | sort _ ks => forM ks SortKey.collect

/-- Checks a plan: its operators, then tables in conflict, then column accesses. -/
def collect (Γ : Env) (p : Plan) : Collecting Unit := do
  forM p.operators (collectOperator Γ)
  forM (TableRef.duplicates p.tables) push
  forM (ColumnRef.unresolved (p.tables.map TableRef.correlationName) p.columnRefs) push

end Plan

namespace Query

/-- Checks the plans of a query, the local ones first. -/
def collect (Γ : Env) (q : Query) : Collecting Unit := do
  forM q.locals fun l => l.plan.collect Γ
  q.main.collect Γ

/-- Checks a query that has to be there. -/
def collectRequired (Γ : Env) : Option Query → Collecting Unit
  | none => failure
  | some q => q.collect Γ

end Query

/-! ### Statements -/

/-- Checks an update. -/
def Update.collect (Γ : Env) (u : Update) : Collecting Unit := do
  forM u.assignments fun a => a.value.collectValue Γ
  forM u.order SortKey.collect
  forM u.conditions (Expr.collectExpected Γ .boolean)
  forM u.groupBy (Expr.collectValue Γ)
  forM u.having (Expr.collectExpected Γ .boolean)
  forM (ColumnRef.unresolved [u.table] (u.exprs.flatMap Expr.columnRefs)) push

/-- Checks a removal. -/
def Delete.collect (Γ : Env) (d : Delete) : Collecting Unit := do
  forM d.conditions (Expr.collectExpected Γ .boolean)
  forM d.order SortKey.collect
  forM d.groupBy (Expr.collectValue Γ)
  forM d.having (Expr.collectExpected Γ .boolean)
  forM (ColumnRef.unresolved [d.table] (d.exprs.flatMap Expr.columnRefs)) push

/-- Checks a new table. -/
def Create.collect (Γ : Env) (c : Create) : Collecting Unit :=
  match c.content with
  | .schema _ => pure ()
  | .query q => Query.collectRequired Γ q

/-- Checks an insertion. -/
def Insert.collect (Γ : Env) (i : Insert) : Collecting Unit :=
  match i.source with
  | .values vs => do
    forM vs (Expr.collectValue Γ)
    forM i.order SortKey.collect
    forM vs Expr.collectStandalone
  | .query q => do
    Query.collectRequired Γ q
    forM i.order SortKey.collect

/-- Checks the body of a function, step by step. -/
def FunctionDef.collect (Γ : Env) (f : FunctionDef) : Collecting Unit :=
  forM f.body fun s => do
    s.value.collectValue Γ
    s.value.collectStandalone

/-- Checks a statement. -/
def Statement.collect (Γ : Env) : Statement → Collecting Unit
  | query q => q.collect Γ
  | update u => u.collect Γ
  | delete d => d.collect Γ
  | create c => c.collect Γ
  | insert i => i.collect Γ
  | function f => f.collect Γ
  | verbatim _ => pure ()

end QueryAnalysis
