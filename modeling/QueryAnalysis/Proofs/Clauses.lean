import QueryAnalysis.Proofs.Tasks

/-!
Operators and statements have their expressions in clauses, and three things can be asked of a
clause: that its expressions are sound values, that they are conditions, or that they are sort keys.

* `Clauses`: the expressions of an operator or statement, sorted by what is asked of them.
* `Plan.clauses`, `Statement.clauses`: those of a single operator, and those of a statement outside
  of its query.
* `Statement.plans`, `Statement.columnFindings`, `Statement.standaloneExprs`: what else is checked
  in a statement.
* `Plan.check_iff`, `Statement.check_iff`: a property that goes through step by step holds of the
  check of a plan or statement exactly if it holds of the checks of all of its parts.
-/

namespace QueryAnalysis

open Diagnosis

/-- Expressions by what is asked of them. -/
structure Clauses where
  values : List Expr
  conditions : List Expr
  order : List SortKey

namespace Clauses

/-- All expressions of the clauses. -/
def exprs (c : Clauses) : List Expr :=
  c.values ++ c.conditions ++ c.order.map SortKey.value

/-- What holds of all expressions holds of the values, the conditions and the sort keys. -/
lemma forall_mem_exprs_iff {c : Clauses} {P : Expr → Prop} :
    (∀ e ∈ c.exprs, P e) ↔
      (∀ e ∈ c.values, P e) ∧ (∀ e ∈ c.conditions, P e) ∧ ∀ k ∈ c.order, P k.value := by
  rw [exprs, List.forall_mem_append, List.forall_mem_append, List.forall_mem_map, and_assoc]

/-- The checks of all expressions of the clauses have the property `Q`. -/
structure Pass (Q : Diagnosis Unit → Prop) (Γ : Env) (c : Clauses) : Prop where
  values : ∀ e ∈ c.values, Q (e.examine Γ)
  conditions : ∀ e ∈ c.conditions, Q (e.expect Γ .boolean)
  order : ∀ k ∈ c.order, Q k.check

end Clauses

variable {Q : Diagnosis Unit → Prop} {Γ : Env}

namespace Clauses

lemma pass_values {es : List Expr} (h : ∀ e ∈ es, Q (e.examine Γ)) : Pass Q Γ ⟨es, [], []⟩ :=
  ⟨h, List.forall_mem_nil _, List.forall_mem_nil _⟩

lemma pass_conditions {cs : List Expr} (h : ∀ e ∈ cs, Q (e.expect Γ .boolean)) :
    Pass Q Γ ⟨[], cs, []⟩ :=
  ⟨List.forall_mem_nil _, h, List.forall_mem_nil _⟩

lemma pass_order {ks : List SortKey} (h : ∀ k ∈ ks, Q k.check) : Pass Q Γ ⟨[], [], ks⟩ :=
  ⟨List.forall_mem_nil _, List.forall_mem_nil _, h⟩

lemma pass_nil : Pass Q Γ ⟨[], [], []⟩ :=
  pass_values (List.forall_mem_nil _)

end Clauses

/-! ### Plans -/

namespace Plan

/-- Nothing was given at this place. -/
def isHole : Plan → Bool
  | hole => true
  | _ => false

/-- The clauses of an operator. -/
def clauses : Plan → Clauses
  | hole | scan _ => ⟨[], [], []⟩
  | project _ es => ⟨es, [], []⟩
  | filter _ cs => ⟨[], cs, []⟩
  | groupBy _ gs hs => ⟨gs, hs, []⟩
  | join _ _ _ cs => ⟨[], cs, []⟩
  | sort _ ks => ⟨[], [], ks⟩

/-- The clauses hold all expressions of the operator, and no others. -/
lemma exprs_eq (o : Plan) : o.exprs = o.clauses.exprs := by
  cases o <;> simp [exprs, clauses, Clauses.exprs]

/-- The check of an operator goes through if it is there and the checks of its clauses do. The order
of the clauses does not matter for this, nor that what follows `having` is checked twice. -/
lemma checkOperator_iff (hQ : Stepwise Q) {o : Plan} :
    Q (o.checkOperator Γ) ↔ o.isHole = false ∧ o.clauses.Pass Q Γ := by
  cases o with
  | hole => exact ⟨fun h => absurd h hQ.incomplete, fun h => Bool.noConfusion h.1⟩
  | scan t => exact ⟨fun _ => ⟨rfl, Clauses.pass_nil⟩, fun _ => hQ.pure⟩
  | project p es =>
      rw [checkOperator, hQ.forM]
      exact ⟨fun h => ⟨rfl, Clauses.pass_values h⟩, fun h => h.2.values⟩
  | filter p cs =>
      rw [checkOperator, hQ.forM]
      exact ⟨fun h => ⟨rfl, Clauses.pass_conditions h⟩, fun h => h.2.conditions⟩
  | groupBy p gs hs =>
      rw [checkOperator, hQ.seq, hQ.forM, hQ.forM, List.forall_mem_append]
      constructor
      · rintro ⟨hh, hg, -⟩
        exact ⟨rfl, hg, hh, List.forall_mem_nil _⟩
      · rintro ⟨-, h⟩
        -- the second look at what follows `having` asks for less than the first
        exact ⟨h.conditions, h.values, fun e he => hQ.expecting _ _ _ (h.conditions e he)⟩
  | join k l r cs =>
      rw [checkOperator, hQ.forM]
      exact ⟨fun h => ⟨rfl, Clauses.pass_conditions h⟩, fun h => h.2.conditions⟩
  | sort p ks =>
      rw [checkOperator, hQ.forM]
      exact ⟨fun h => ⟨rfl, Clauses.pass_order h⟩, fun h => h.2.order⟩

/-- The check of a plan goes through if all of its operators are there and the checks of their
clauses go through, and so does the report on the names. -/
lemma check_iff (hQ : Stepwise Q) {p : Plan} :
    Q (p.check Γ) ↔
      (∀ o ∈ p.operators, o.isHole = false ∧ o.clauses.Pass Q Γ) ∧ Q (.reportAll p.checkNames) := by
  rw [check, hQ.seq, hQ.forM]
  simp only [checkOperator_iff hQ]

end Plan

/-! ### Queries and statements -/

/-- The check of a required query goes through if it is there and those of its plans do. -/
lemma Query.checkRequired_iff (hQ : Stepwise Q) {q : Option Query} :
    Q (checkRequired Γ q) ↔ q.isSome = true ∧ ∀ p ∈ q.elim [] plans, Q (p.check Γ) := by
  cases q with
  | none => exact ⟨fun h => absurd h hQ.incomplete, fun h => Bool.noConfusion h.1⟩
  | some q =>
      rw [checkRequired, check_eq_forM_plans, hQ.forM]
      exact ⟨fun h => ⟨rfl, h⟩, fun h => h.2⟩

namespace Statement

/-- The query that a statement is built on, which may itself be missing. -/
def query? : Statement → Option (Option Query)
  | query q => some (some q)
  | create c => c.content.query?
  | insert i => i.source.query?
  | _ => none

/-- If the statement is built on a query, then that query is there. -/
def QueryGiven (s : Statement) : Prop :=
  s.query?.all Option.isSome = true

/-- The plans of the query of a statement. -/
def plans (s : Statement) : List Plan :=
  s.query?.join.elim [] Query.plans

/-- The clauses of a statement outside of its query. -/
def clauses : Statement → Clauses
  | update u => ⟨u.assignments.map Assignment.value ++ u.groupBy, u.conditions ++ u.having, u.order⟩
  | delete d => ⟨d.groupBy, d.conditions ++ d.having, d.order⟩
  | insert i => ⟨i.source.values?.getD [], [], i.order⟩
  | function f => ⟨f.body.map Step.value, [], []⟩
  | query _ | create _ | verbatim _ => ⟨[], [], []⟩

/-- The clauses of an update hold the same expressions as its list, in another order. -/
lemma mem_exprs_update {u : Update} {e : Expr} :
    e ∈ u.exprs ↔ e ∈ (update u).clauses.exprs := by
  simp only [Update.exprs, clauses, Clauses.exprs, List.mem_append]
  tauto

/-- The clauses of a removal hold the same expressions as its list, in another order. -/
lemma mem_exprs_delete {d : Delete} {e : Expr} :
    e ∈ d.exprs ↔ e ∈ (delete d).clauses.exprs := by
  simp only [Delete.exprs, clauses, Clauses.exprs, List.mem_append]
  tauto

/-- The table in scope for the clauses of a statement, if there is one. -/
def target? : Statement → Option String
  | update u => some u.table
  | delete d => some d.table
  | _ => none

/-- The findings about the column accesses in the clauses of a statement. -/
def columnFindings : Statement → List Diagnostic
  | update u => ColumnRef.unresolved [u.table] (u.exprs.flatMap Expr.columnRefs)
  | delete d => ColumnRef.unresolved [d.table] (d.exprs.flatMap Expr.columnRefs)
  | _ => []

/-- The expressions that no table is in scope for. -/
def standaloneExprs : Statement → List Expr
  | insert i => i.source.values?.getD []
  | function f => f.body.map Step.value
  | _ => []

/-- Where no table is in scope, there are only values and sort keys. -/
lemma clauses_of_target?_eq_none {s : Statement} (h : s.target? = none) :
    s.clauses.values = s.standaloneExprs ∧ s.clauses.conditions = [] := by
  cases s <;> simp_all [target?, clauses, standaloneExprs]

/-- The checks of all parts of a statement have the property `Q`. -/
structure Pass (Q : Diagnosis Unit → Prop) (Γ : Env) (s : Statement) : Prop where
  query : s.QueryGiven
  plans : ∀ p ∈ s.plans, Q (p.check Γ)
  clauses : s.clauses.Pass Q Γ
  columns : Q (.reportAll s.columnFindings)
  standalone : ∀ e ∈ s.standaloneExprs, Q e.checkStandalone

/-- The check of a statement goes through if the checks of its parts do. -/
lemma check_iff (hQ : Stepwise Q) {s : Statement} : Q (s.check Γ) ↔ s.Pass Q Γ := by
  cases s with
  | query q =>
      rw [check, Query.check_eq_forM_plans, hQ.forM]
      constructor
      · intro h
        exact ⟨rfl, h, Clauses.pass_nil, hQ.pure, List.forall_mem_nil _⟩
      · intro h
        exact h.plans
  | update u =>
      simp only [check, Update.check, hQ.seq, hQ.forM]
      constructor
      · rintro ⟨hset, horder, hwhere, hgroup, hhaving, hcolumns⟩
        refine ⟨rfl, List.forall_mem_nil _, ⟨?_, ?_, horder⟩, hcolumns, List.forall_mem_nil _⟩
        · exact List.forall_mem_append.mpr ⟨List.forall_mem_map.mpr hset, hgroup⟩
        · exact List.forall_mem_append.mpr ⟨hwhere, hhaving⟩
      · rintro ⟨-, -, ⟨hvalues, hconditions, horder⟩, hcolumns, -⟩
        obtain ⟨hset, hgroup⟩ := List.forall_mem_append.mp hvalues
        obtain ⟨hwhere, hhaving⟩ := List.forall_mem_append.mp hconditions
        exact ⟨fun a ha => hset _ (List.mem_map_of_mem ha), horder, hwhere, hgroup, hhaving,
          hcolumns⟩
  | delete d =>
      simp only [check, Delete.check, hQ.seq, hQ.forM]
      constructor
      · rintro ⟨hwhere, horder, hgroup, hhaving, hcolumns⟩
        refine ⟨rfl, List.forall_mem_nil _, ⟨hgroup, ?_, horder⟩, hcolumns, List.forall_mem_nil _⟩
        exact List.forall_mem_append.mpr ⟨hwhere, hhaving⟩
      · rintro ⟨-, -, ⟨hgroup, hconditions, horder⟩, hcolumns, -⟩
        obtain ⟨hwhere, hhaving⟩ := List.forall_mem_append.mp hconditions
        exact ⟨hwhere, horder, hgroup, hhaving, hcolumns⟩
  | create c =>
      obtain ⟨name, _ | q⟩ := c
      · refine ⟨fun _ => ⟨rfl, List.forall_mem_nil _, Clauses.pass_nil, hQ.pure, ?_⟩,
          fun _ => hQ.pure⟩
        exact List.forall_mem_nil _
      · rw [check, Create.check, Query.checkRequired_iff hQ]
        constructor
        · rintro ⟨hq, hplans⟩
          exact ⟨hq, hplans, Clauses.pass_nil, hQ.pure, List.forall_mem_nil _⟩
        · intro h
          exact ⟨h.query, h.plans⟩
  | insert i =>
      obtain ⟨table, order, columns, vs | q⟩ := i
      · simp only [check, Insert.check, hQ.seq, hQ.forM]
        constructor
        · rintro ⟨hvalues, horder, halone⟩
          exact ⟨rfl, List.forall_mem_nil _, ⟨hvalues, List.forall_mem_nil _, horder⟩, hQ.pure,
            halone⟩
        · intro h
          exact ⟨h.clauses.values, h.clauses.order, h.standalone⟩
      · simp only [check, Insert.check, hQ.seq, hQ.forM, Query.checkRequired_iff hQ]
        constructor
        · rintro ⟨⟨hq, hplans⟩, horder⟩
          exact ⟨hq, hplans, Clauses.pass_order horder, hQ.pure, List.forall_mem_nil _⟩
        · intro h
          exact ⟨⟨h.query, h.plans⟩, h.clauses.order⟩
  | function f =>
      simp only [check, FunctionDef.check, hQ.seq, hQ.forM]
      constructor
      · intro h
        refine ⟨rfl, List.forall_mem_nil _, Clauses.pass_values ?_, hQ.pure, ?_⟩
        · exact List.forall_mem_map.mpr fun s hs => (h s hs).1
        · exact List.forall_mem_map.mpr fun s hs => (h s hs).2
      · intro h s hs
        have hmem := List.mem_map_of_mem (f := Step.value) hs
        exact ⟨h.clauses.values _ hmem, h.standalone _ hmem⟩
  | verbatim code =>
      refine ⟨fun _ => ⟨rfl, List.forall_mem_nil _, Clauses.pass_nil, hQ.pure, ?_⟩,
        fun _ => hQ.pure⟩
      exact List.forall_mem_nil _

end Statement

/-- The statements of a program that are there. -/
def Program.statements (P : Program) : List Statement :=
  P.filterMap id

end QueryAnalysis
