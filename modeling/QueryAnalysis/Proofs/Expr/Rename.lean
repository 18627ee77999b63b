import QueryAnalysis.Proofs.Agreement

/-!
Expressions with renamed tables. A renaming changes the table in each column access, also in
subscripts, and nothing else. All columns have the same type for the analysis, so the typing does
not see the difference.

* `Expr.renameTables`: the expression with all tables renamed.
* `Expr.preorder_renameTables`, `Expr.columnRefs_renameTables`: its nodes and its accesses.
* `Expr.infer_renameTables`: it has the same type, and the same is found in it.
-/

namespace QueryAnalysis

open Diagnosis

/-- The access to the table under its new name. -/
def ColumnRef.rename (s : String → String) (r : ColumnRef) : ColumnRef :=
  { r with table := s r.table }

namespace Expr

variable (s : String → String)

mutual

/-- The expression with the new names of the tables in its column accesses. -/
def renameTables (s : String → String) : Expr → Expr
  | hole => hole
  | literal p k t => literal p k t
  | ident p n => ident p n
  | rowId p => rowId p
  | wildcard p => wildcard p
  | column p t c => column p (s t) c
  | unary p op a => unary p op (renameTables s a)
  | binary p op l r => binary p op (renameTables s l) (renameTables s r)
  | call p f args => call p f (renameTablesAll s args)
  | index p a i => index p (renameTables s a) (renameTables s i)
  | case p e bs d => case p (renameTables s e) (renameTablesBranches s bs) (renameTables s d)
  | each p a => each p (renameTables s a)

/-- A list of expressions with the new names of the tables. -/
def renameTablesAll (s : String → String) : List Expr → List Expr
  | [] => []
  | e :: es => renameTables s e :: renameTablesAll s es

/-- The branches of a case with the new names of the tables. -/
def renameTablesBranches (s : String → String) : List (Branch Expr) → List (Branch Expr)
  | [] => []
  | ⟨c, r⟩ :: bs => ⟨renameTables s c, renameTables s r⟩ :: renameTablesBranches s bs

end

@[simp] lemma renameTablesAll_eq (es : List Expr) :
    renameTablesAll s es = es.map (renameTables s) := by
  induction es with
  | nil => rfl
  | cons e es ih => rw [renameTablesAll, ih, List.map_cons]

@[simp] lemma renameTablesBranches_eq (bs : List (Branch Expr)) :
    renameTablesBranches s bs =
      bs.map fun b => ⟨b.condition.renameTables s, b.result.renameTables s⟩ := by
  induction bs with
  | nil => rfl
  | cons b bs ih => rw [renameTablesBranches, ih, List.map_cons]

@[simp] lemma isHole_renameTables (e : Expr) : (e.renameTables s).isHole = e.isHole := by
  cases e <;> rfl

/-- Nodes stay where they are. -/
@[simp] lemma pos_renameTables (e : Expr) : (e.renameTables s).pos = e.pos := by
  cases e <;> rfl

@[simp] lemma isSortable_renameTables (e : Expr) :
    (e.renameTables s).isSortable = e.isSortable := by
  cases e <;> rfl

/-- A column of a renamed table is still that of a row. -/
@[simp] lemma needsRow_renameTables (e : Expr) : (e.renameTables s).needsRow = e.needsRow := by
  cases e <;> rfl

/-! ### Nodes and accesses -/

lemma given_renameTables (e : Expr) :
    (e.renameTables s).given = e.given.map (renameTables s) := by
  rw [given, given, isHole_renameTables]
  split <;> rfl

/-- The parts of a node are renamed one by one. -/
lemma children_renameTables (e : Expr) :
    (e.renameTables s).children = e.children.map (renameTables s) := by
  cases e with
  | case p e bs d =>
      simp [renameTables, children, given_renameTables, List.flatMap_map, List.map_flatMap]
  | _ => simp [renameTables, children]

/-- The nodes of a renamed expression are the renamed nodes, in the same order. -/
lemma preorder_renameTables (e : Expr) :
    (e.renameTables s).preorder = e.preorder.map (renameTables s) := by
  induction e using induct_children with
  | _ e ih =>
    rw [preorder_eq, preorder_eq e, children_renameTables, List.map_cons, List.flatMap_map,
      List.map_flatMap]
    exact congrArg _ (List.flatMap_congr ih)

/-- The column accesses are those of the renamed tables. -/
lemma columnRef?_renameTables (e : Expr) :
    (e.renameTables s).columnRef? = e.columnRef?.map (ColumnRef.rename s) := by
  cases e <;> rfl

/-- The accesses of a renamed expression are the renamed accesses. -/
lemma columnRefs_renameTables (e : Expr) :
    (e.renameTables s).columnRefs = e.columnRefs.map (ColumnRef.rename s) := by
  rw [columnRefs, columnRefs, preorder_renameTables, List.filterMap_map, List.map_filterMap]
  exact List.filterMap_congr fun n _ => columnRef?_renameTables s n

/-! ### The typing -/

variable {s} {Γ : Env} {e : Expr}

/-- Expectations are met or not whatever the tables are called. -/
lemma expect_renameTables {S : Expectation} (h : (e.renameTables s).infer Γ = e.infer Γ) :
    (e.renameTables s).expect Γ S = e.expect Γ S := by
  rw [expect, expect, h, pos_renameTables]

lemma inferSubject_renameTables (h : (e.renameTables s).infer Γ = e.infer Γ) :
    (e.renameTables s).inferSubject Γ = e.inferSubject Γ := by
  rw [inferSubject, inferSubject, h, isHole_renameTables]

lemma expectDefault_renameTables {S : Expectation} (h : (e.renameTables s).infer Γ = e.infer Γ) :
    (e.renameTables s).expectDefault Γ S = e.expectDefault Γ S := by
  rw [expectDefault, expectDefault, expect_renameTables h, isHole_renameTables]

/-- The results of a case have the same types whatever the tables are called. -/
lemma inferResults_renameTables {p : Pos} {bs : List (Branch Expr)}
    (h : ∀ b ∈ bs, (b.result.renameTables s).infer Γ = b.result.infer Γ) :
    inferResults Γ p (renameTablesBranches s bs) = inferResults Γ p bs := by
  rw [renameTablesBranches_eq]
  cases bs with
  | nil => rfl
  | cons b bs =>
      obtain ⟨hb, hbs⟩ := List.forall_mem_cons.mp h
      rw [List.map_cons, inferResults_cons, inferResults_cons, hb]
      refine congrArg _ (funext fun t => ?_)
      rw [List.forM_map, forM_congr fun b hb => expect_renameTables (hbs b hb)]

/-- **The typing does not see the names of tables.** -/
lemma infer_renameTables (s : String → String) (Γ : Env) (e : Expr) :
    (e.renameTables s).infer Γ = e.infer Γ := by
  induction e with
  | unary p op a ha => rw [renameTables, infer_unary, infer_unary, expect_renameTables ha]
  | binary p op l r hl hr =>
      rw [renameTables]
      cases hop : op.operand? with
      | some S =>
          rw [infer_binary_of_some Γ p hop, infer_binary_of_some Γ p hop, expect_renameTables hl,
            expect_renameTables hr]
      | none =>
          rw [infer_binary_of_none Γ p hop, infer_binary_of_none Γ p hop, hl]
          refine congrArg _ (funext fun t => ?_)
          rw [expect_renameTables hr]
  | call p f args hargs =>
      have htypes : (renameTablesAll s args).mapM (infer Γ) = args.mapM (infer Γ) := by
        rw [renameTablesAll_eq, List.mapM_map]
        exact mapM_congr hargs
      rw [renameTables]
      cases hf : Γ.lookup f with
      | some σ => rw [infer_call_of_some Γ p hf, infer_call_of_some Γ p hf, htypes]
      | none => rw [infer_call_of_none Γ p hf, infer_call_of_none Γ p hf, htypes]
  | index p a i ha hi =>
      rw [renameTables, infer_index, infer_index, ha, isHole_renameTables]
  | case p e bs d he hbs hd =>
      have hconditions (S : Expectation) :
          forM (renameTablesBranches s bs) (fun b : Branch Expr => b.condition.expect Γ S) =
            forM bs fun b => b.condition.expect Γ S := by
        rw [renameTablesBranches_eq, List.forM_map]
        exact forM_congr fun b hb => expect_renameTables (hbs b hb).1
      rw [renameTables, infer_case, infer_case, inferSubject_renameTables he,
        inferResults_renameTables fun b hb => (hbs b hb).2]
      simp only [hconditions, expectDefault_renameTables hd]
  | each p a ha => rw [renameTables, infer_each, infer_each, ha]
  | column p t c => rw [renameTables, infer, infer]
  | _ => rw [renameTables]

end Expr

end QueryAnalysis
