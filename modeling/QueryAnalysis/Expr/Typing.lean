import QueryAnalysis.Diagnosis
import QueryAnalysis.Env
import QueryAnalysis.Expr.Basic

/-!
The soft typing of expressions. Columns, variables and results of user-defined functions have types
that are not known before the query runs, and such an expression is accepted everywhere. A mismatch
is reported only between types that are known.

* `Expr.infer`: the type of an expression, and what is wrong inside of it.
* `Expr.expect`: holds an expression to an expectation.
* `Expr.examine`: checks an expression in a place that takes any type.

The subscript of an array has to be there, and is not looked into.
-/

namespace QueryAnalysis

/-- The type of a literal. -/
def LiteralKind.type : LiteralKind → Ty
  | integer | float | date | timestamp => .numeric
  | string => .string
  | boolean => .boolean

/-- What the operand is held to. -/
def UnaryOp.operand : UnaryOp → Expectation
  | not => .boolean
  | negate => .numeric

/-- The type of the operation. -/
def UnaryOp.type : UnaryOp → Ty
  | not => .boolean
  | negate => .numeric

/-- What both operands are held to. A test for equality has no expectation of its own: there the
left operand is free, and the right one has to be of its type. -/
def BinaryOp.operand? : BinaryOp → Option Expectation
  | and | or => some .boolean
  | less | lessOrEqual | greater | greaterOrEqual => some .numeric
  | equal | notEqual => none
  | plus | minus | times | divide | power => some .arithmetic

/-- The type of the operation. -/
def BinaryOp.type : BinaryOp → Ty
  | and | or | less | lessOrEqual | greater | greaterOrEqual | equal | notEqual => .boolean
  | plus | minus | times | divide | power => .numeric

/-- A call at position `p` of a function with this signature, given the outcome for its arguments. A
call that the signature does not allow is reported ahead of what is wrong in the arguments, and its
type is unknown. Of a call that cannot be judged because an argument is incomplete nothing is
reported at all. -/
def Signature.applied (σ : Signature) (name : String) (p : Pos) (args : Diagnosis (List Ty)) :
    Diagnosis Ty :=
  match args.result with
  | none => .incomplete
  | some ts =>
    match σ.result? ts with
    | some t => ⟨args.diagnostics, some t⟩
    | none => ⟨.badCall name p :: args.diagnostics, some .unknown⟩

namespace Expr

mutual

/-- The type of an expression, as far as it is known. -/
def infer (Γ : Env) : Expr → Diagnosis Ty
  | hole => .incomplete
  | literal _ k _ => pure k.type
  | ident _ _ => pure .unknown
  | rowId _ => pure .numeric
  | wildcard _ => pure .unknown
  | column _ _ _ => pure .unknown
  | unary _ op a => do
    (infer Γ a).expecting op.operand a.pos
    pure op.type
  | binary _ op l r =>
    match op.operand? with
    | some S => do
      (infer Γ l).expecting S l.pos
      (infer Γ r).expecting S r.pos
      pure op.type
    | none => do
      let t ← infer Γ l
      (infer Γ r).expecting (.exactly t) r.pos
      pure op.type
  | call p f args =>
    match Γ.lookup f with
    | some σ => σ.applied f p (inferAll Γ args)
    | none => do
      let _ ← inferAll Γ args
      pure .unknown
  | index _ a i =>
    if i.isHole then .incomplete
    else do
      let _ ← infer Γ a
      pure .unknown
  | case p s bs d => do
    let c ← if s.isHole then pure .boolean else infer Γ s
    expectConditions Γ (.exactly c) bs
    let t ← inferResults Γ p bs
    if d.isHole then pure () else (infer Γ d).expecting (.exactly t) d.pos
    pure t
  | each _ a => infer Γ a

/-- The types of a list of expressions. -/
def inferAll (Γ : Env) : List Expr → Diagnosis (List Ty)
  | [] => pure []
  | e :: es => do
    let t ← infer Γ e
    let ts ← inferAll Γ es
    pure (t :: ts)

/-- Holds the conditions of a case to an expectation. -/
def expectConditions (Γ : Env) (S : Expectation) : List (Branch Expr) → Diagnosis Unit
  | [] => pure ()
  | ⟨c, _⟩ :: bs => do
    (infer Γ c).expecting S c.pos
    expectConditions Γ S bs

/-- The common type of the results of a case at position `p`, which is that of the first one. A case
has to have a branch. -/
def inferResults (Γ : Env) (p : Pos) : List (Branch Expr) → Diagnosis Ty
  | [] => do
    .report (.typeMismatch .boolean .unit p)
    pure .unknown
  | ⟨_, r⟩ :: bs => do
    let t ← infer Γ r
    expectResults Γ (.exactly t) bs
    pure t

/-- Holds the results of further branches to an expectation. -/
def expectResults (Γ : Env) (S : Expectation) : List (Branch Expr) → Diagnosis Unit
  | [] => pure ()
  | ⟨_, r⟩ :: bs => do
    (infer Γ r).expecting S r.pos
    expectResults Γ S bs

end

/-- Checks an expression, and holds its type to an expectation. -/
def expect (Γ : Env) (S : Expectation) (e : Expr) : Diagnosis Unit :=
  (e.infer Γ).expecting S e.pos

/-- Checks an expression of any type. -/
def examine (Γ : Env) (e : Expr) : Diagnosis Unit := do
  let _ ← e.infer Γ
  pure ()

/-! ### The lists of a node in terms of its single parts -/

/-- The arguments of a call are typed one by one. -/
theorem inferAll_eq (Γ : Env) (es : List Expr) : inferAll Γ es = es.mapM (infer Γ) := by
  induction es with
  | nil => simp [inferAll]
  | cons e es ih => simp [inferAll, ih]

/-- The conditions of a case are checked one by one. -/
theorem expectConditions_eq (Γ : Env) (S : Expectation) (bs : List (Branch Expr)) :
    expectConditions Γ S bs = forM bs fun b => b.condition.expect Γ S := by
  induction bs with
  | nil => rfl
  | cons b bs ih => simp [expectConditions, ih, expect]

/-- The results of a case are checked one by one. -/
theorem expectResults_eq (Γ : Env) (S : Expectation) (bs : List (Branch Expr)) :
    expectResults Γ S bs = forM bs fun b => b.result.expect Γ S := by
  induction bs with
  | nil => rfl
  | cons b bs ih => simp [expectResults, ih, expect]

end Expr

end QueryAnalysis
