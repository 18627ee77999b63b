import QueryAnalysis.Expr.Typing
import QueryAnalysis.Proofs.Diagnosis

/-!
The typing of an expression, node by node: `Expr.infer` on each kind of node as a sequence of checks
of its parts. Every argument about the typing goes through these equations.

* `infer_unary`, `infer_binary_of_some`, `infer_binary_of_none`, `infer_call_of_some`,
  `infer_call_of_none`, `infer_index`, `infer_case`, `infer_each`: the nodes with parts.
* `Expr.inferSubject`, `Expr.expectDefault`: the two optional parts of a case.
-/

namespace QueryAnalysis.Expr

/-- The type that the conditions of a case are held to: that of the subject, or the type of truth
values if there is none. -/
def inferSubject (Γ : Env) (s : Expr) : Diagnosis Ty :=
  if s.isHole then pure .boolean else s.infer Γ

/-- Holds the default of a case to an expectation, if there is one. -/
def expectDefault (Γ : Env) (S : Expectation) (d : Expr) : Diagnosis Unit :=
  if d.isHole then pure () else d.expect Γ S

variable (Γ : Env) (p : Pos)

/-- The operand is held to what the operation expects. -/
lemma infer_unary (op : UnaryOp) (a : Expr) :
    infer Γ (unary p op a) = a.expect Γ op.operand >>= fun _ => pure op.type := by
  rw [infer, expect]

/-- An operation that expects something of its operands. -/
lemma infer_binary_of_some {op : BinaryOp} {S : Expectation} (h : op.operand? = some S)
    (l r : Expr) :
    infer Γ (binary p op l r) =
      l.expect Γ S >>= fun _ => r.expect Γ S >>= fun _ => pure op.type := by
  rw [infer, h, expect, expect]

/-- A test for equality. -/
lemma infer_binary_of_none {op : BinaryOp} (h : op.operand? = none) (l r : Expr) :
    infer Γ (binary p op l r) =
      l.infer Γ >>= fun t => r.expect Γ (.exactly t) >>= fun _ => pure op.type := by
  rw [infer, h]
  rfl

/-- A call of a known function is judged by its signature. -/
lemma infer_call_of_some {f : String} {σ : Signature} (h : Γ.lookup f = some σ)
    (args : List Expr) :
    infer Γ (call p f args) = σ.applied f p (args.mapM (infer Γ)) := by
  rw [infer, h, inferAll_eq]

/-- Of an unknown function, only the arguments of a call are looked at. -/
lemma infer_call_of_none {f : String} (h : Γ.lookup f = none) (args : List Expr) :
    infer Γ (call p f args) = args.mapM (infer Γ) >>= fun _ => pure .unknown := by
  rw [infer, h, inferAll_eq]

/-- A subscript has to be there, but it is not looked into. -/
lemma infer_index (a i : Expr) :
    infer Γ (index p a i) =
      if i.isHole then .incomplete else a.infer Γ >>= fun _ => pure .unknown := by
  rw [infer]

/-- A case is typed in the order of subject, conditions, results and default. -/
lemma infer_case (s : Expr) (bs : List (Branch Expr)) (d : Expr) :
    infer Γ (case p s bs d) =
      s.inferSubject Γ >>= fun c =>
        forM bs (fun b => b.condition.expect Γ (.exactly c)) >>= fun _ =>
          inferResults Γ p bs >>= fun t =>
            d.expectDefault Γ (.exactly t) >>= fun _ => pure t := by
  simp only [infer, inferSubject, expectDefault, expectConditions_eq]
  by_cases hs : s.isHole <;> by_cases hd : d.isHole <;> simp [hs, hd, expect]

/-- What stands in `EACH` gives the type. -/
lemma infer_each (a : Expr) : infer Γ (each p a) = a.infer Γ := by
  rw [infer]

/-- A case without branches is reported, and of unknown type. -/
lemma inferResults_nil :
    inferResults Γ p [] = .report (.typeMismatch .boolean .unit p) >>= fun _ => pure .unknown := by
  rw [inferResults]

/-- The first result sets the type for the other ones. -/
lemma inferResults_cons (b : Branch Expr) (bs : List (Branch Expr)) :
    inferResults Γ p (b :: bs) =
      b.result.infer Γ >>= fun t =>
        forM bs (fun b => b.result.expect Γ (.exactly t)) >>= fun _ => pure t := by
  rw [inferResults]
  simp only [expectResults_eq]

end QueryAnalysis.Expr
