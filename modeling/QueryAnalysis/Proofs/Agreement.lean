import QueryAnalysis.Proofs.Declaration
import QueryAnalysis.Session

/-!
A check depends on the functions in scope only through the calls in the tree. Two environments that
give the same signatures to the functions called there are alike for the check: it yields the same,
finds the same in the same order, and stops at the same missing part.

* `Env.AgreeOn`: two environments know the same about every function that one of some nodes calls.
* `Expr.infer_agree`, `Plan.check_agree`, `Query.check_agree`, `Statement.check_agree`,
  `Program.check_agree`: it is enough that they agree on the nodes that the typing looks at.
* `Plan.nodes`, `Statement.nodes`, `Program.nodes`, `Check.nodes`: all nodes of the expressions in a
  tree, also those that the typing does not look at.
* `Check.run_agree`: the outcome of a check is the same in environments that agree on all nodes.
-/

namespace QueryAnalysis

open Diagnosis

/-- The function that a node calls, if it is a call. -/
def Expr.callee? : Expr → Option String
  | call _ f _ => some f
  | _ => none

/-- The environments know the same about every function that one of the nodes calls. -/
def Env.AgreeOn (Γ Γ' : Env) (ns : List Expr) : Prop :=
  ∀ n ∈ ns, ∀ f ∈ n.callee?, Γ.lookup f = Γ'.lookup f

instance (Γ Γ' : Env) (ns : List Expr) : Decidable (Γ.AgreeOn Γ' ns) :=
  inferInstanceAs (Decidable (∀ n ∈ ns, ∀ f ∈ n.callee?, Γ.lookup f = Γ'.lookup f))

/-- What there are as many of in two lists is in both of them. -/
lemma subset_of_countP {α : Type} {as bs : List α} (h : ∀ q, as.countP q = bs.countP q) :
    as ⊆ bs := by
  classical
  intro a ha
  have hcount : 0 < as.countP (fun b => b = a) :=
    List.countP_pos_iff.mpr ⟨a, ha, decide_eq_true rfl⟩
  rw [h, List.countP_pos_iff] at hcount
  obtain ⟨b, hb, hba⟩ := hcount
  exact of_decide_eq_true hba ▸ hb

variable {Γ Γ' : Env}

namespace Env.AgreeOn

variable {ns ms : List Expr}

/-- Agreement on some nodes is agreement on any part of them. -/
lemma mono (h : Γ.AgreeOn Γ' ns) (hms : ms ⊆ ns) : Γ.AgreeOn Γ' ms :=
  fun n hn => h n (hms hn)

/-- Environments that resolve all names alike agree everywhere. -/
lemma of_lookup_eq (h : Γ.lookup = Γ'.lookup) (ns : List Expr) : Γ.AgreeOn Γ' ns :=
  fun _ _ f _ => congrFun h f

/-- Agreement only depends on which nodes there are, which their numbers tell. -/
lemma of_countP (h : Γ.AgreeOn Γ' ns) (hcount : ∀ q, ms.countP q = ns.countP q) :
    Γ.AgreeOn Γ' ms :=
  h.mono (subset_of_countP hcount)

end Env.AgreeOn

/-! ### Loops -/

namespace Diagnosis

variable {α β : Type}

lemma forM_congr {f g : α → Diagnosis Unit} {as : List α} (h : ∀ a ∈ as, f a = g a) :
    forM as f = forM as g := by
  induction as with
  | nil => rfl
  | cons a as ih =>
      obtain ⟨ha, has⟩ := List.forall_mem_cons.mp h
      rw [List.forM_cons, List.forM_cons, ha, ih has]

lemma mapM_congr {f g : α → Diagnosis β} {as : List α} (h : ∀ a ∈ as, f a = g a) :
    as.mapM f = as.mapM g := by
  induction as with
  | nil => rfl
  | cons a as ih =>
      obtain ⟨ha, has⟩ := List.forall_mem_cons.mp h
      rw [List.mapM_cons, List.mapM_cons, ha, ih has]

end Diagnosis

/-! ### Expressions -/

namespace Expr

variable {e : Expr}

/-- An expectation on top of the typing adds nothing that depends on the environment. -/
lemma expect_agree {S : Expectation} (h : e.infer Γ = e.infer Γ') :
    e.expect Γ S = e.expect Γ' S := by
  rw [expect, expect, h]

/-- A subject that is not there has no typing that could differ. -/
lemma inferSubject_agree (h : e.isHole = false → e.infer Γ = e.infer Γ') :
    e.inferSubject Γ = e.inferSubject Γ' := by
  cases he : e.isHole <;> simp [inferSubject, he, h]

lemma expectDefault_agree {S : Expectation} (h : e.isHole = false → e.infer Γ = e.infer Γ') :
    e.expectDefault Γ S = e.expectDefault Γ' S := by
  cases he : e.isHole <;> simp [expectDefault, he, expect, h]

/-- The results of a case are typed alike if each of them is, since the later ones are held to the
type of the first. -/
lemma inferResults_agree {p : Pos} {bs : List (Branch Expr)}
    (h : ∀ b ∈ bs, b.result.infer Γ = b.result.infer Γ') :
    inferResults Γ p bs = inferResults Γ' p bs := by
  cases bs with
  | nil => rw [inferResults_nil, inferResults_nil]
  | cons b bs =>
      obtain ⟨hb, hbs⟩ := List.forall_mem_cons.mp h
      rw [inferResults_cons, inferResults_cons, hb]
      refine congrArg _ (funext fun t => ?_)
      rw [forM_congr fun b hb => expect_agree (hbs b hb)]

/-- The typing of a node depends on the environment only through the function that it calls, and
through the typing of the parts that are looked into. -/
lemma infer_agree_step (hcallee : ∀ f ∈ e.callee?, Γ.lookup f = Γ'.lookup f)
    (hparts : ∀ c ∈ e.examinedParts, c.infer Γ = c.infer Γ') : e.infer Γ = e.infer Γ' := by
  cases e with
  | unary p op a =>
      have ha : a.infer Γ = a.infer Γ' := hparts a List.mem_cons_self
      rw [infer_unary, infer_unary, expect_agree ha]
  | binary p op l r =>
      have hl : l.infer Γ = l.infer Γ' := hparts l List.mem_cons_self
      have hr : r.infer Γ = r.infer Γ' := hparts r (List.mem_cons_of_mem _ List.mem_cons_self)
      cases hop : op.operand? with
      | some S =>
          rw [infer_binary_of_some Γ p hop, infer_binary_of_some Γ' p hop, expect_agree hl,
            expect_agree hr]
      | none =>
          rw [infer_binary_of_none Γ p hop, infer_binary_of_none Γ' p hop, hl]
          refine congrArg _ (funext fun t => ?_)
          rw [expect_agree hr]
  | call p f args =>
      have hf : Γ.lookup f = Γ'.lookup f := hcallee f rfl
      have hargs : args.mapM (infer Γ) = args.mapM (infer Γ') := mapM_congr hparts
      cases hσ : Γ'.lookup f with
      | some σ =>
          rw [infer_call_of_some Γ p (hf.trans hσ), infer_call_of_some Γ' p hσ, hargs]
      | none => rw [infer_call_of_none Γ p (hf.trans hσ), infer_call_of_none Γ' p hσ, hargs]
  | index p a i =>
      have ha : a.infer Γ = a.infer Γ' := hparts a List.mem_cons_self
      rw [infer_index, infer_index, ha]
  | case p s bs d =>
      obtain ⟨hs, hconditions, hresults, hd⟩ := forall_mem_examinedParts_case_iff.mp hparts
      rw [infer_case, infer_case, inferSubject_agree hs, inferResults_agree hresults]
      refine congrArg _ (funext fun c => ?_)
      rw [forM_congr fun b hb => expect_agree (hconditions b hb)]
      refine congrArg _ (funext fun _ => congrArg _ (funext fun t => ?_))
      rw [expectDefault_agree hd]
  | each p a =>
      have ha : a.infer Γ = a.infer Γ' := hparts a List.mem_cons_self
      rw [infer_each, infer_each, ha]
  | _ => simp only [infer]

/-- **The typing does not see more of the environment than the calls it looks at.** -/
lemma infer_agree (h : Γ.AgreeOn Γ' e.examined) : e.infer Γ = e.infer Γ' := by
  induction e using induct_children with
  | _ e ih =>
    refine infer_agree_step (h e (mem_nodes_self examined_eq e)) fun c hc => ?_
    have hsub : c.examined ⊆ e.examined := nodes_subset_of_mem_parts examined_eq hc
    exact ih c (mem_children_iff.mpr (Or.inl hc)) (h.mono hsub)

/-- The typing looks at nodes of the expression. -/
lemma examined_subset_preorder (e : Expr) : e.examined ⊆ e.preorder := by
  induction e using induct_children with
  | _ e ih =>
    intro n hn
    rw [examined_eq, List.mem_cons, List.mem_flatMap] at hn
    rw [preorder_eq, List.mem_cons, List.mem_flatMap]
    rcases hn with rfl | ⟨c, hc, hnc⟩
    · exact Or.inl rfl
    · have hchild : c ∈ e.children := mem_children_iff.mpr (Or.inl hc)
      exact Or.inr ⟨c, hchild, ih c hchild hnc⟩

end Expr

/-! ### Tasks -/

namespace Task

/-- A task that is not about types does not depend on the environment at all. -/
lemma run_agree {t : Task} (h : Γ.AgreeOn Γ' t.examined) : t.run Γ = t.run Γ' := by
  cases t with
  | value e => rw [run, run, Expr.examine, Expr.examine, Expr.infer_agree h]
  | condition e => exact Expr.expect_agree (Expr.infer_agree h)
  | _ => rfl

/-- A sequence of tasks depends on the environment through the calls in any of them. -/
lemma forM_run_agree {ts : List Task} (h : Γ.AgreeOn Γ' (ts.flatMap examined)) :
    forM ts (run Γ) = forM ts (run Γ') :=
  forM_congr fun t ht => run_agree (h.mono fun _ hn => List.mem_flatMap.mpr ⟨t, ht, hn⟩)

end Task

/-! ### Larger trees -/

/-- The check of a plan depends on the environment through the calls that the typing looks at. -/
lemma Plan.check_agree {p : Plan} (h : Γ.AgreeOn Γ' p.examined) : p.check Γ = p.check Γ' := by
  simp only [check_eq_forM]
  exact Task.forM_run_agree (h.of_countP p.countP_tasks)

lemma Query.check_agree {q : Query} (h : Γ.AgreeOn Γ' (q.plans.flatMap Plan.examined)) :
    q.check Γ = q.check Γ' := by
  simp only [check_eq_forM]
  exact Task.forM_run_agree (h.of_countP q.countP_tasks)

/-- The same for a statement, with the clauses outside of its query. -/
lemma Statement.check_agree {s : Statement} (h : Γ.AgreeOn Γ' s.examined) :
    s.check Γ = s.check Γ' := by
  simp only [check_eq_forM]
  exact Task.forM_run_agree (h.of_countP s.countP_tasks)

lemma Program.check_agree {P : Program} (h : Γ.AgreeOn Γ' P.examined) :
    P.check Γ = P.check Γ' := by
  rw [check_eq_forM, check_eq_forM]
  exact Task.forM_run_agree (h.of_countP P.countP_tasks)

/-! ### All nodes of a tree -/

/-- The nodes of the expressions in a plan. -/
def Plan.nodes (p : Plan) : List Expr :=
  p.operators.flatMap fun o => o.exprs.flatMap Expr.preorder

/-- The nodes of the expressions in a statement, in its query and outside of it. -/
def Statement.nodes (s : Statement) : List Expr :=
  s.plans.flatMap Plan.nodes ++ s.clauses.exprs.flatMap Expr.preorder

/-- The nodes of the expressions in a program. -/
def Program.nodes (P : Program) : List Expr :=
  P.statements.flatMap Statement.nodes

/-- Values and conditions are looked into, and sort keys are not. -/
lemma Clauses.examined_subset (c : Clauses) : c.examined ⊆ c.exprs.flatMap Expr.preorder := by
  intro n hn
  obtain ⟨e, he, hne⟩ := List.mem_flatMap.mp hn
  have hexprs : e ∈ c.exprs := List.mem_append_left _ he
  exact List.mem_flatMap.mpr ⟨e, hexprs, e.examined_subset_preorder hne⟩

lemma Plan.having_subset (o : Plan) : o.having ⊆ o.exprs := by
  cases o <;> simp [having, exprs]

/-- What the typing looks at in a plan are nodes of its expressions, also on the second look at
`having`. -/
lemma Plan.examined_subset_nodes (p : Plan) : p.examined ⊆ p.nodes := by
  intro n hn
  obtain ⟨o, ho, hno⟩ := List.mem_flatMap.mp hn
  refine List.mem_flatMap.mpr ⟨o, ho, ?_⟩
  rcases List.mem_append.mp hno with hclause | hhaving
  · rw [exprs_eq]
    exact o.clauses.examined_subset hclause
  · obtain ⟨e, he, hne⟩ := List.mem_flatMap.mp hhaving
    exact List.mem_flatMap.mpr ⟨e, o.having_subset he, e.examined_subset_preorder hne⟩

lemma Plan.flatMap_examined_subset (ps : List Plan) :
    ps.flatMap Plan.examined ⊆ ps.flatMap Plan.nodes := by
  intro n hn
  obtain ⟨p, hp, hnp⟩ := List.mem_flatMap.mp hn
  exact List.mem_flatMap.mpr ⟨p, hp, p.examined_subset_nodes hnp⟩

/-- What the typing looks at in a statement are nodes of its expressions. -/
lemma Statement.examined_subset_nodes (s : Statement) : s.examined ⊆ s.nodes := by
  intro n hn
  rcases List.mem_append.mp hn with hplans | hclauses
  · exact List.mem_append_left _ (Plan.flatMap_examined_subset s.plans hplans)
  · exact List.mem_append_right _ (s.clauses.examined_subset hclauses)

lemma Program.examined_subset_nodes (P : Program) : P.examined ⊆ P.nodes := by
  intro n hn
  obtain ⟨s, hs, hns⟩ := List.mem_flatMap.mp hn
  exact List.mem_flatMap.mpr ⟨s, hs, s.examined_subset_nodes hns⟩

namespace Check

/-- The nodes of the expressions in the tree that is checked. -/
def nodes : Check → List Expr
  | infer e | expect _ e | standalone e => e.preorder
  | plan p => p.nodes
  | query q => q.plans.flatMap Plan.nodes
  | statement s => s.nodes

/-- **A check is blind to functions that the tree does not call.** Its outcome is the same in any
two environments that agree on the calls in the tree. -/
lemma run_agree {c : Check} (h : Γ.AgreeOn Γ' c.nodes) : c.run Γ = c.run Γ' := by
  cases c with
  | infer e => rw [run, run, Expr.infer_agree (h.mono e.examined_subset_preorder)]
  | expect S e =>
      have he : e.infer Γ = e.infer Γ' := Expr.infer_agree (h.mono e.examined_subset_preorder)
      rw [run, run, Expr.expect_agree he]
  | standalone e => rfl
  | plan p => rw [run, run, Plan.check_agree (h.mono p.examined_subset_nodes)]
  | query q => rw [run, run, Query.check_agree (h.mono (Plan.flatMap_examined_subset q.plans))]
  | statement s => rw [run, run, Statement.check_agree (h.mono s.examined_subset_nodes)]

end Check

end QueryAnalysis
