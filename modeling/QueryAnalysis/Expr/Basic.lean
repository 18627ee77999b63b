import QueryAnalysis.Pos
import QueryAnalysis.Ty
import QueryAnalysis.Text.Fragment

/-!
Expressions of the query language.

A tree may be handed over with places left empty. The leaf `Expr.hole` stands at such a place: an
optional part of an expression (the subject of a case, its default) may be left that way, anywhere
else the tree is incomplete.

* `Expr`: the trees, with `Expr.induct` as their induction principle.
* `Expr.children`: the parts of a node in the order of the text, without the optional ones that are
  not given.
* `Expr.preorder`: all nodes of a tree, each before its parts; `preorder_eq` says so.
* `Expr.columnRefs`: the qualified column accesses of a tree.
-/

namespace QueryAnalysis

/-- What kind of value a literal denotes. -/
inductive LiteralKind where
  | integer
  | float
  | string
  | date
  | timestamp
  | boolean
deriving DecidableEq

/-- Operations with one operand. -/
inductive UnaryOp where
  | not
  | negate
deriving DecidableEq

/-- Operations with two operands. -/
inductive BinaryOp where
  | and
  | or
  | less
  | lessOrEqual
  | greater
  | greaterOrEqual
  | equal
  | notEqual
  | plus
  | minus
  | times
  | divide
  | power
deriving DecidableEq

/-- A branch of a case: the result that is taken if the condition is met. -/
structure Branch (α : Type) where
  condition : α
  result : α
deriving DecidableEq

/-- An expression. Literals carry their text as it was written. -/
inductive Expr where
  | hole
  | literal (pos : Pos) (kind : LiteralKind) (text : String)
  | ident (pos : Pos) (name : String)
  | rowId (pos : Pos)
  | wildcard (pos : Pos)
  | column (pos : Pos) (table column : String)
  | unary (pos : Pos) (op : UnaryOp) (operand : Expr)
  | binary (pos : Pos) (op : BinaryOp) (left right : Expr)
  | call (pos : Pos) (name : String) (args : List Expr)
  | index (pos : Pos) (array subscript : Expr)
  | case (pos : Pos) (subject : Expr) (branches : List (Branch Expr)) (default : Expr)
  | each (pos : Pos) (body : Expr)

/-- A qualified access `table.column` and where it stands. -/
structure ColumnRef where
  table : String
  column : String
  pos : Pos
deriving DecidableEq

/-- The access as it is written. -/
def ColumnRef.qualifiedName (r : ColumnRef) : String :=
  Text.qualified r.table r.column

namespace Expr

/-- Structural induction: a property holds of every expression if it passes from the parts of a node
to the node. -/
@[elab_as_elim, induction_eliminator]
theorem induct {motive : Expr → Prop}
    (hole : motive .hole)
    (literal : ∀ p k t, motive (.literal p k t))
    (ident : ∀ p n, motive (.ident p n))
    (rowId : ∀ p, motive (.rowId p))
    (wildcard : ∀ p, motive (.wildcard p))
    (column : ∀ p t c, motive (.column p t c))
    (unary : ∀ p op a, motive a → motive (.unary p op a))
    (binary : ∀ p op l r, motive l → motive r → motive (.binary p op l r))
    (call : ∀ p f args, (∀ a ∈ args, motive a) → motive (.call p f args))
    (index : ∀ p a i, motive a → motive i → motive (.index p a i))
    (case : ∀ p s bs d, motive s → (∀ b ∈ bs, motive b.condition ∧ motive b.result) →
      motive d → motive (.case p s bs d))
    (each : ∀ p a, motive a → motive (.each p a)) (e : Expr) : motive e :=
  @Expr.rec motive (fun as => ∀ a ∈ as, motive a)
    (fun bs => ∀ b ∈ bs, motive b.condition ∧ motive b.result)
    (fun b => motive b.condition ∧ motive b.result)
    hole literal ident rowId wildcard column unary binary call index case each
    (fun _ h => absurd h List.not_mem_nil)
    (fun _ _ ha has => List.forall_mem_cons.mpr ⟨ha, has⟩)
    (fun _ h => absurd h List.not_mem_nil)
    (fun _ _ hb hbs => List.forall_mem_cons.mpr ⟨hb, hbs⟩)
    (fun _ _ hc hr => ⟨hc, hr⟩) e

/-- Nothing was given at this place. -/
def isHole : Expr → Bool
  | hole => true
  | _ => false

/-- Where the expression stands in the query text. An empty place has no position. -/
def pos : Expr → Pos
  | hole => {}
  | literal p _ _ | ident p _ | rowId p | wildcard p | column p _ _ | unary p _ _ | binary p _ _ _
  | call p _ _ | index p _ _ | case p _ _ _ | each p _ => p

/-- An optional part, if it is given. -/
def given (e : Expr) : List Expr :=
  if e.isHole then [] else [e]

/-- The parts of an expression in the order of the text. Required parts are listed even if they are
missing, optional ones only if they are given. -/
def children : Expr → List Expr
  | hole | literal _ _ _ | ident _ _ | rowId _ | wildcard _ | column _ _ _ => []
  | unary _ _ a => [a]
  | binary _ _ l r => [l, r]
  | call _ _ args => args
  | index _ a i => [a, i]
  | case _ s bs d => given s ++ bs.flatMap (fun b => [b.condition, b.result]) ++ given d
  | each _ a => [a]

mutual

/-- All nodes of the expression in the order of the text, each one before its parts. A required part
that is missing shows as `hole`. -/
def preorder : Expr → List Expr
  | hole => [hole]
  | literal p k t => [literal p k t]
  | ident p n => [ident p n]
  | rowId p => [rowId p]
  | wildcard p => [wildcard p]
  | column p t c => [column p t c]
  | unary p op a => unary p op a :: preorder a
  | binary p op l r => binary p op l r :: (preorder l ++ preorder r)
  | call p f args => call p f args :: preorderAll args
  | index p a i => index p a i :: (preorder a ++ preorder i)
  | case p s bs d =>
    case p s bs d :: ((if s.isHole then [] else preorder s) ++ preorderBranches bs ++
      (if d.isHole then [] else preorder d))
  | each p a => each p a :: preorder a

/-- The nodes of a list of expressions. -/
def preorderAll : List Expr → List Expr
  | [] => []
  | e :: es => preorder e ++ preorderAll es

/-- The nodes of the branches of a case, each condition before its result. -/
def preorderBranches : List (Branch Expr) → List Expr
  | [] => []
  | ⟨c, r⟩ :: bs => preorder c ++ preorder r ++ preorderBranches bs

end

@[simp] theorem preorderAll_eq (es : List Expr) : preorderAll es = es.flatMap preorder := by
  induction es with
  | nil => rfl
  | cons e es ih => simp [preorderAll, ih]

@[simp] theorem preorderBranches_eq (bs : List (Branch Expr)) :
    preorderBranches bs = bs.flatMap fun b => preorder b.condition ++ preorder b.result := by
  induction bs with
  | nil => rfl
  | cons b bs ih => simp [preorderBranches, ih]

/-- A node comes first, then the nodes of its parts from left to right. -/
theorem preorder_eq (e : Expr) : e.preorder = e :: e.children.flatMap preorder := by
  cases e with
  | case p s bs d =>
    have hg (x : Expr) :
        (if x.isHole then [] else x.preorder) = x.given.flatMap preorder := by
      rw [given]
      split <;> simp
    simp [preorder, children, hg, List.flatMap_assoc]
  | _ => simp [preorder, children]

/-- The access that a node makes itself, if it is a qualified column access. -/
def columnRef? : Expr → Option ColumnRef
  | column p t c => some { table := t, column := c, pos := p }
  | _ => none

/-- The qualified column accesses anywhere in the expression, in the order of the text. -/
def columnRefs (e : Expr) : List ColumnRef :=
  e.preorder.filterMap columnRef?

end Expr

end QueryAnalysis
