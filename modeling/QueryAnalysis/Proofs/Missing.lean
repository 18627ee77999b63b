import QueryAnalysis.Proofs.Collecting
import QueryAnalysis.Proofs.Traversal

/-!
What makes the check of a statement fail, and what it means that it does not.

* `Statement.Lacks`: a part is missing that the check of the statement needs, place by place.
* `Statement.not_lacks_iff_checkable`: the check needs nothing else.
* `Statement.Traversable`: the traversals that take every part for granted meet no missing one.
* `Statement.collect_fails_iff_lacks`: the check of a statement fails exactly if it lacks a part,
  whatever functions are in scope and whatever was found before; and if it does not fail, then all
  traversals go through.
-/

namespace QueryAnalysis

/-! ### Nodes and their parts -/

namespace Expr

variable {e : Expr}

/-- A tree is complete if its root is there and no node has an empty part. -/
lemma complete_iff_parts :
    e.Complete ↔ e.isHole = false ∧ ∀ n ∈ e.preorder, ∀ c ∈ n.children, c.isHole = false :=
  forall_mem_nodes_iff_parts preorder_eq

/-- The typing needs the root and all parts of the nodes that it looks at, also subscripts. -/
lemma examinable_iff_parts :
    e.Examinable ↔ e.isHole = false ∧ ∀ n ∈ e.examined, ∀ c ∈ n.children, c.isHole = false := by
  have hnodes : (∀ n ∈ e.examined, n.isHole = false) ↔
      e.isHole = false ∧ ∀ n ∈ e.examined, ∀ c ∈ n.examinedParts, c.isHole = false :=
    forall_mem_nodes_iff_parts examined_eq
  simp only [Examinable, forall_and, hnodes, mem_children_iff, or_imp, Option.mem_def, and_assoc]

/-- A node that refers to a row has no parts that could be missing. -/
lemma complete_of_needsRow (h : e.needsRow = true) : e.Complete := by
  cases e <;> simp_all [needsRow, Complete, preorder, isHole]

end Expr

/-- No operator is missing if the first one is there and no operator has an empty input. -/
lemma Plan.forall_mem_operators_iff {p : Plan} :
    (∀ o ∈ p.operators, o.isHole = false) ↔
      p.isHole = false ∧ ∀ o ∈ p.operators, ∀ i ∈ o.inputs, i.isHole = false :=
  forall_mem_nodes_iff_parts operators_eq

/-! ### Missing parts -/

namespace Clauses

/-- The expressions that have a type: all but the sort keys. -/
def typed (c : Clauses) : List Expr :=
  c.values ++ c.conditions

/-- The check of clauses needs all of their expressions, and of those with a type also the parts. -/
lemma checkable_iff {c : Clauses} :
    c.Checkable ↔ (∀ e ∈ c.exprs, e.isHole = false) ∧
      ∀ e ∈ c.typed, ∀ n ∈ e.examined, ∀ d ∈ n.children, d.isHole = false := by
  rw [forall_mem_exprs_iff, typed, List.forall_mem_append]
  constructor
  · rintro ⟨hv, hc, ho⟩
    simp only [Expr.examinable_iff_parts] at hv hc
    exact ⟨⟨fun e he => (hv e he).1, fun e he => (hc e he).1, ho⟩,
      fun e he => (hv e he).2, fun e he => (hc e he).2⟩
  · rintro ⟨⟨hv, hc, ho⟩, hv', hc'⟩
    exact ⟨fun e he => Expr.examinable_iff_parts.mpr ⟨hv e he, hv' e he⟩,
      fun e he => Expr.examinable_iff_parts.mpr ⟨hc e he, hc' e he⟩, ho⟩

end Clauses

namespace Statement

/-- All clauses of a statement: those of the operators of its query, and its own. -/
def allClauses (s : Statement) : List Clauses :=
  s.plans.flatMap (fun p => p.operators.map Plan.clauses) ++ [s.clauses]

/-- A part is missing that the check of the statement needs. -/
inductive Lacks (s : Statement) : Prop
  /-- the query that it is built on -/
  | query (h : s.query? = some none)
  /-- a plan of the query -/
  | plan {p : Plan} (hp : p ∈ s.plans) (h : p.isHole = true)
  /-- an input of an operator -/
  | input {p o i : Plan} (hp : p ∈ s.plans) (ho : o ∈ p.operators) (hi : i ∈ o.inputs)
      (h : i.isHole = true)
  /-- an expression of a clause, be it a sort key or not -/
  | expr {c : Clauses} {e : Expr} (hc : c ∈ s.allClauses) (he : e ∈ c.exprs) (h : e.isHole = true)
  /-- a part of an expression that is not a sort key, which may be a subscript, but not a part of
  one -/
  | part {c : Clauses} {e n d : Expr} (hc : c ∈ s.allClauses) (he : e ∈ c.typed)
      (hn : n ∈ e.examined) (hd : d ∈ n.children) (h : d.isHole = true)
  /-- any part of an expression that no table is in scope for -/
  | standalonePart {e n d : Expr} (he : e ∈ s.standaloneExprs) (hn : n ∈ e.preorder)
      (hd : d ∈ n.children) (h : d.isHole = true)

variable {s : Statement}

lemma queryGiven_iff : s.QueryGiven ↔ s.query? ≠ some none := by
  rw [QueryGiven]
  rcases s.query? with _ | _ | q <;> simp

lemma forall_mem_allClauses_iff {P : Clauses → Prop} :
    (∀ c ∈ s.allClauses, P c) ↔ (∀ p ∈ s.plans, ∀ o ∈ p.operators, P o.clauses) ∧ P s.clauses := by
  simp only [allClauses, List.forall_mem_append, List.forall_mem_flatMap, List.forall_mem_map,
    List.forall_mem_singleton]

/-- The expressions that no table is in scope for are among those of the clauses. -/
lemma standaloneExprs_subset_exprs (s : Statement) : s.standaloneExprs ⊆ s.clauses.exprs := by
  cases s <;> simp [standaloneExprs, clauses, Clauses.exprs]

/-- The check of a statement needs its query, the operators of its plans, what the clauses need and
all of the expressions that no table is in scope for. -/
lemma checkable_iff_allClauses :
    s.Checkable ↔ s.QueryGiven ∧ (∀ p ∈ s.plans, ∀ o ∈ p.operators, o.isHole = false) ∧
      (∀ c ∈ s.allClauses, c.Checkable) ∧ ∀ e ∈ s.standaloneExprs, e.Complete := by
  rw [forall_mem_allClauses_iff]
  constructor
  · rintro ⟨hq, hp, hc, ha⟩
    exact ⟨hq, fun p h o ho => (hp p h o ho).1, ⟨fun p h o ho => (hp p h o ho).2, hc⟩, ha⟩
  · rintro ⟨hq, hp, ⟨hpc, hc⟩, ha⟩
    exact ⟨hq, fun p h o ho => ⟨hp p h o ho, hpc p h o ho⟩, hc, ha⟩

/-- **What a check needs, place by place.** -/
lemma not_lacks_iff_checkable : ¬s.Lacks ↔ s.Checkable := by
  simp only [checkable_iff_allClauses, queryGiven_iff, Plan.forall_mem_operators_iff,
    Clauses.checkable_iff, Expr.complete_iff_parts]
  constructor
  · intro h
    have hgiven : ∀ c ∈ s.allClauses, ∀ e ∈ c.exprs, e.isHole = false :=
      fun c hc e he => Bool.eq_false_iff.mpr fun hhole => h (.expr hc he hhole)
    have hown : s.clauses ∈ s.allClauses :=
      List.mem_append_right _ List.mem_cons_self
    refine ⟨fun hq => h (.query hq), fun p hp => ⟨?_, fun o ho i hi => ?_⟩,
      fun c hc => ⟨hgiven c hc, fun e he n hn d hd => ?_⟩,
      fun e he => ⟨hgiven _ hown e (standaloneExprs_subset_exprs s he), fun n hn d hd => ?_⟩⟩
    · exact Bool.eq_false_iff.mpr fun hhole => h (.plan hp hhole)
    · exact Bool.eq_false_iff.mpr fun hhole => h (.input hp ho hi hhole)
    · exact Bool.eq_false_iff.mpr fun hhole => h (.part hc he hn hd hhole)
    · exact Bool.eq_false_iff.mpr fun hhole => h (.standalonePart he hn hd hhole)
  · rintro ⟨hquery, hplans, hclauses, halone⟩ hlacks
    cases hlacks with
    | query h => exact hquery h
    | plan hp h => exact Bool.eq_false_iff.mp (hplans _ hp).1 h
    | input hp ho hi h => exact Bool.eq_false_iff.mp ((hplans _ hp).2 _ ho _ hi) h
    | expr hc he h => exact Bool.eq_false_iff.mp ((hclauses _ hc).1 _ he) h
    | part hc he hn hd h => exact Bool.eq_false_iff.mp ((hclauses _ hc).2 _ he _ hn _ hd) h
    | standalonePart he hn hd h => exact Bool.eq_false_iff.mp ((halone _ he).2 _ hn _ hd) h

/-! ### Traversals of a statement -/

/-- The expressions that have their columns looked up in the table of the statement. -/
def scopedExprs : Statement → List Expr
  | update u => u.exprs
  | delete d => d.exprs
  | _ => []

/-- No traversal of the statement meets a missing part: the tables, the expressions and the column
accesses of its plans can be gathered, and so can the column accesses of its own expressions; and
whatever a finding may quote can be written out. -/
structure Traversable (s : Statement) : Prop where
  tables : ∀ p ∈ s.plans, p.tables? = some p.tables
  carried : ∀ p ∈ s.plans, p.carried? = some (p.operators.flatMap Plan.exprs)
  columnRefs : ∀ p ∈ s.plans, p.columnRefs? = some p.columnRefs
  own : Expr.columnRefsAll? s.scopedExprs = some (s.scopedExprs.flatMap Expr.columnRefs)
  keys : ∀ c ∈ s.allClauses, ∀ k ∈ c.order, k.value.text? = some k.value.text
  rows : ∀ e ∈ s.standaloneExprs, ∀ n ∈ e.preorder, n.needsRow = true → n.text? = some n.text

lemma mem_clauses_exprs_of_mem_scopedExprs {e : Expr} (he : e ∈ s.scopedExprs) :
    e ∈ s.clauses.exprs := by
  cases s with
  | update u => exact mem_exprs_update.mp he
  | delete d => exact mem_exprs_delete.mp he
  | _ => cases he

/-- In a complete statement, no traversal meets a missing part. -/
lemma Complete.traversable (h : s.Complete) : s.Traversable where
  tables p hp := Plan.tables?_eq_some_iff.mpr ⟨fun o ho => (h.plans p hp o ho).1, rfl⟩
  carried p hp := Plan.carried?_eq_some_iff.mpr ⟨fun o ho => (h.plans p hp o ho).1, rfl⟩
  columnRefs p hp := Plan.columnRefs?_eq_some_iff.mpr ⟨h.plans p hp, rfl⟩
  own := Expr.columnRefsAll?_eq_some_iff.mpr
    ⟨fun e he => h.clauses e (mem_clauses_exprs_of_mem_scopedExprs he), rfl⟩
  keys := by
    have hall : ∀ c ∈ s.allClauses, c.Complete :=
      forall_mem_allClauses_iff.mpr ⟨fun p hp o ho => (h.plans p hp o ho).2, h.clauses⟩
    intro c hc k hk
    obtain ⟨-, -, horder⟩ := Clauses.forall_mem_exprs_iff.mp (hall c hc)
    exact Expr.text?_eq_some_iff.mpr ⟨horder k hk, rfl⟩
  rows _ _ _ _ hrow := Expr.text?_eq_some_iff.mpr ⟨Expr.complete_of_needsRow hrow, rfl⟩

/-! ### When a check fails -/

lemma result_runFrom_collect (Γ : Env) (L : List Diagnostic) (s : Statement) :
    ((s.collect Γ).runFrom L).1 = (s.check Γ).result := by
  rw [collect_eq, Diagnosis.runFrom_replay]

/-- The check of a statement fails if it lacks a part, and only then. -/
lemma result_check_eq_none_iff {Γ : Env} : (s.check Γ).result = none ↔ s.Lacks := by
  rw [← Option.not_isSome_iff_eq_none, isSome_check_iff, ← not_lacks_iff_checkable, not_not]

/-- **When a check fails.** On any list of findings and with any functions in scope, the check of a
statement fails exactly if a part is missing that it needs. If it does not fail, and the subscripts
and sort keys that are given are complete, then no traversal meets a missing part. So the functions
in scope and the findings so far have no influence on whether the check fails. -/
theorem collect_fails_iff_lacks (s : Statement) :
    (∀ Γ L, ((s.collect Γ).runFrom L).1 = none ↔ s.Lacks) ∧
      (s.SubscriptsComplete → s.KeysComplete →
        ∀ Γ L, ((s.collect Γ).runFrom L).1 = some () → s.Traversable) ∧
      ∀ Γ Γ' L L', ((s.collect Γ).runFrom L).1 = ((s.collect Γ').runFrom L').1 := by
  simp only [result_runFrom_collect]
  refine ⟨fun Γ _ => result_check_eq_none_iff, fun hs hk Γ _ h => ?_, fun Γ Γ' _ _ => ?_⟩
  · have hcheckable : s.Checkable := isSome_check_iff.mp (Option.isSome_of_mem h)
    exact ((complete_iff_checkable hs hk).mpr hcheckable).traversable
  · have hnone : (s.check Γ).result = none ↔ (s.check Γ').result = none :=
      result_check_eq_none_iff.trans result_check_eq_none_iff.symm
    -- both results are `none` or the only other value that there is
    rcases h : (s.check Γ).result with _ | ⟨⟩ <;> rcases h' : (s.check Γ').result with _ | ⟨⟩ <;>
      simp_all

/-- An insertion of rows from a query. A subscript has a column access in it, and neither sort key
is a plain name. -/
def dailyPrices : Statement :=
  .insert ⟨"daily", [⟨.unary ⟨6, 1⟩ .negate (.ident ⟨6, 2⟩ "day"), false⟩], ["day", "price"],
    .query (some ⟨[], .sort
      (.project
        (.join .inner (.scan ⟨"trades", some "t", ⟨1, 1⟩⟩) (.scan ⟨"quotes", none, ⟨1, 2⟩⟩)
          [.binary ⟨2, 1⟩ .equal (.column ⟨2, 2⟩ "t" "id") (.column ⟨2, 3⟩ "quotes" "id")])
        [.index ⟨3, 1⟩ (.column ⟨3, 2⟩ "t" "prices")
          (.call ⟨3, 3⟩ "first" [.column ⟨3, 4⟩ "quotes" "day"])])
      [⟨.call ⟨4, 1⟩ "abs" [.column ⟨4, 2⟩ "t" "price"], true⟩]⟩)⟩

/-- The check of the insertion goes through, although both sort keys are illegal. So its tables, its
expressions and its column accesses can be gathered, those in the subscript among them, and the sort
keys can be written out. -/
theorem dailyPrices_traversable :
    dailyPrices.SubscriptsComplete ∧ dailyPrices.KeysComplete ∧
      ((dailyPrices.collect .builtins).runFrom []).1 = some () ∧ dailyPrices.Traversable := by
  have hs : dailyPrices.SubscriptsComplete := by decide
  have hk : dailyPrices.KeysComplete := by decide
  have hrun : ((dailyPrices.collect .builtins).runFrom []).1 = some () := by decide
  exact ⟨hs, hk, hrun, (collect_fails_iff_lacks dailyPrices).2.1 hs hk .builtins [] hrun⟩

end Statement

end QueryAnalysis
