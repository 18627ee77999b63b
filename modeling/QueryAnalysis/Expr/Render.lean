import QueryAnalysis.Expr.Basic

/-!
Expressions as query text, for use in messages.

* `Expr.text`: the written form of an expression.
* `Expr.operandText`: its written form as an operand. Operations and cases then stand in
  parentheses, all other expressions are delimited by their own form.

Nothing is written at an empty place.
-/

namespace QueryAnalysis

/-- The operation as it is written before its operand. -/
def UnaryOp.text : UnaryOp → String
  | not => "NOT "
  | negate => "-"

/-- The operation as it is written between its operands. -/
def BinaryOp.text : BinaryOp → String
  | and => "AND"
  | or => "OR"
  | less => "<"
  | lessOrEqual => "<="
  | greater => ">"
  | greaterOrEqual => ">="
  | equal => "="
  | notEqual => "!="
  | plus => "+"
  | minus => "-"
  | times => "*"
  | divide => "/"
  | power => "^"

/-- A literal as it is written: texts are quoted, the two truth values are capitalised, in whatever
letter case they were given, and everything else stands as it was given. -/
def LiteralKind.text (kind : LiteralKind) (raw : String) : String :=
  match kind with
  | string => Text.quote raw
  | boolean =>
    if Text.lowercase raw = "true".toList then "TRUE"
    else if Text.lowercase raw = "false".toList then "FALSE"
    else raw
  | integer | float | date | timestamp => raw

namespace Expr

/-- The expression needs parentheses as an operand. -/
def isCompound : Expr → Bool
  | unary _ _ _ | binary _ _ _ _ | case _ _ _ _ => true
  | _ => false

/-- The text of an expression as an operand, made from its text on its own. -/
def enclose (e : Expr) (text : String) : String :=
  if e.isCompound then "(" ++ text ++ ")" else text

mutual

/-- The expression as query text. -/
def text : Expr → String
  | hole => ""
  | literal _ k t => k.text t
  | ident _ n => n
  | rowId _ => "ROWID"
  | wildcard _ => "*"
  | column _ t c => Text.qualified t c
  | unary _ op a => op.text ++ a.enclose (text a)
  | binary _ op l r => l.enclose (text l) ++ " " ++ op.text ++ " " ++ r.enclose (text r)
  | call _ f args => f ++ "(" ++ ", ".intercalate (texts args) ++ ")"
  | index _ a i => a.enclose (text a) ++ "[" ++ text i ++ "]"
  | case _ s bs d =>
    "CASE" ++ (if s.isHole then "" else " " ++ s.enclose (text s)) ++ branchText bs ++
      (if d.isHole then "" else " ELSE " ++ text d) ++ " END"
  | each _ a => "EACH(" ++ text a ++ ")"

/-- The texts of a list of expressions. -/
def texts : List Expr → List String
  | [] => []
  | e :: es => text e :: texts es

/-- The text of the branches of a case. -/
def branchText : List (Branch Expr) → String
  | [] => ""
  | ⟨c, r⟩ :: bs => " WHEN " ++ text c ++ " THEN " ++ text r ++ branchText bs

end

/-- The expression as query text in the place of an operand. -/
def operandText (e : Expr) : String :=
  e.enclose e.text

/-- Each expression of a list is written on its own. -/
@[simp] theorem texts_eq (es : List Expr) : texts es = es.map text := by
  induction es with
  | nil => rfl
  | cons e es ih => simp [texts, ih]

end Expr

end QueryAnalysis
