import QueryAnalysis.Proofs.Complete
import QueryAnalysis.Proofs.Env
import QueryAnalysis.Proofs.Expr.Declared

/-!
To declare a function is a conservative extension of a program: with an empty body, the declaration
itself gives no rise to findings, and the calls of the function can only be found to have the wrong
number of arguments.

* `Task.run_without`, `Task.badCalls_run`: what the declaration changes in an elementary check.
* `Plan.examined`, `Statement.examined`, `Program.examined`: the nodes of expressions that the
  typing looks at, each one as often as it does.
* `Program.analyze_declare`: the findings with and without the declaration.
-/

namespace QueryAnalysis

open Diagnosis

variable {f : String} {n : Nat} {Γ Γ' : Env}

/-! ### Elementary checks -/

/-- Duplicate tables are no bad calls. -/
lemma TableRef.countP_duplicates (ts : List TableRef) :
    (duplicates ts).countP (Diagnostic.isBadCallOf f) = 0 := by
  rw [duplicates, List.countP_map, List.countP_eq_zero]
  exact fun c _ => Bool.false_ne_true

/-- Unresolved columns are no bad calls. -/
lemma ColumnRef.countP_unresolved (names : List String) (rs : List ColumnRef) :
    (unresolved names rs).countP (Diagnostic.isBadCallOf f) = 0 := by
  rw [unresolved, List.countP_eq_zero]
  intro d hd
  obtain ⟨r, -, hr⟩ := List.mem_filterMap.mp hd
  rw [resolve] at hr
  split at hr
  all_goals simp at hr
  all_goals subst hr; simp [Diagnostic.isBadCallOf]

/-- What is wrong with a sort key is no bad call. -/
lemma SortKey.badCalls_check (k : SortKey) : k.check.badCalls f = 0 := by
  rw [check]
  split
  · rfl
  · split <;> rfl

/-- Without a row there are illegal expressions, and no bad calls. -/
lemma Expr.badCalls_checkStandalone {e : Expr} (he : e.Complete) :
    e.checkStandalone.badCalls f = 0 := by
  have hnode (n : Expr) : n.checkStandaloneNode.badCalls f = 0 := by
    rw [checkStandaloneNode]
    split
    · rfl
    · split <;> rfl
  rw [checkStandalone, badCalls_forM (isSome_forM.mp ((isSome_checkStandalone e).mpr he))]
  simp [hnode]

namespace Task

variable {t : Task}

/-- The nodes that the typing looks at. -/
def examined : Task → List Expr
  | value e | condition e => e.examined
  | _ => []

/-- Only the typing can find bad calls. -/
lemma badCalls_run (hΓ : Γ.lookup f = some (.userDefined n)) (h : (t.run Γ).result.isSome) :
    (t.run Γ).badCalls f = t.examined.countP (Expr.isMisfit f n) := by
  cases t with
  | missing => rfl
  | value e =>
      rw [run, Expr.examine, badCalls_bind_pure]
      exact Expr.badCalls_infer hΓ ((Expr.isSome_examine Γ e).mp h)
  | condition e =>
      rw [run, Expr.badCalls_expect]
      exact Expr.badCalls_infer hΓ ((Expr.isSome_expect_iff Γ _ e).mp h)
  | key k => exact k.badCalls_check
  | standalone e => exact e.badCalls_checkStandalone ((Expr.isSome_checkStandalone e).mp h)
  | tables ts => exact TableRef.countP_duplicates ts
  | columns names rs => exact ColumnRef.countP_unresolved names rs

/-- Apart from the bad calls of a function, nothing changes in what a task finds when the function
is declared. -/
lemma run_without (hΓ : Γ.Declares f n Γ') (h : (t.run Γ).result.isSome) :
    (t.run Γ').without f = t.run Γ := by
  cases t with
  | missing => rfl
  | value e =>
      have he := (Expr.isSome_examine Γ e).mp h
      rw [run, run, Expr.examine, Expr.examine, without_bind, Expr.infer_without hΓ he,
        without_pure]
  | condition e =>
      have he := (Expr.isSome_expect_iff Γ _ e).mp h
      exact Expr.expect_without (Expr.infer_without hΓ he)
  | key k => exact without_eq_self k.badCalls_check
  | standalone e =>
      exact without_eq_self (e.badCalls_checkStandalone ((Expr.isSome_checkStandalone e).mp h))
  | tables ts => exact without_eq_self (TableRef.countP_duplicates ts)
  | columns names rs => exact without_eq_self (ColumnRef.countP_unresolved names rs)

@[simp] lemma flatMap_examined_value (es : List Expr) :
    (es.map value).flatMap examined = es.flatMap Expr.examined :=
  List.flatMap_map ..

@[simp] lemma flatMap_examined_condition (es : List Expr) :
    (es.map condition).flatMap examined = es.flatMap Expr.examined :=
  List.flatMap_map ..

@[simp] lemma flatMap_examined_key (ks : List SortKey) : (ks.map key).flatMap examined = [] := by
  simp [List.flatMap_map, examined]

@[simp] lemma flatMap_examined_standalone (es : List Expr) :
    (es.map standalone).flatMap examined = [] := by
  simp [List.flatMap_map, examined]

end Task

/-! ### What the typing looks at -/

/-- The nodes that the typing looks at in clauses. It does not look at sort keys. -/
def Clauses.examined (c : Clauses) : List Expr :=
  (c.values ++ c.conditions).flatMap Expr.examined

/-- What follows `having` in an operator. -/
def Plan.having : Plan → List Expr
  | groupBy _ _ hs => hs
  | _ => []

/-- The nodes that the typing looks at in a plan. It looks twice at what follows `having`. -/
def Plan.examined (p : Plan) : List Expr :=
  p.operators.flatMap fun o => o.clauses.examined ++ o.having.flatMap Expr.examined

/-- The nodes that the typing looks at in a statement. -/
def Statement.examined (s : Statement) : List Expr :=
  s.plans.flatMap Plan.examined ++ s.clauses.examined

/-- The nodes that the typing looks at in a program. -/
def Program.examined (P : Program) : List Expr :=
  P.statements.flatMap Statement.examined

variable (q : Expr → Bool)

/-- The tasks of an operator look at the nodes of its clauses, and once more at what follows
`having`. -/
lemma Plan.countP_operatorTasks (o : Plan) :
    (o.operatorTasks.flatMap Task.examined).countP q =
      (o.clauses.examined ++ o.having.flatMap Expr.examined).countP q := by
  cases o with
  | hole => rfl
  | scan => rfl
  | groupBy p gs hs =>
      simp only [operatorTasks, clauses, having, Clauses.examined, List.flatMap_append,
        Task.flatMap_examined_value, Task.flatMap_examined_condition, List.countP_append]
      omega
  | _ => simp [operatorTasks, clauses, having, Clauses.examined]

lemma countP_flatMap_congr {α : Type} {as : List α} {g h : α → List Expr}
    (hgh : ∀ a ∈ as, (g a).countP q = (h a).countP q) :
    (as.flatMap g).countP q = (as.flatMap h).countP q := by
  rw [List.countP_flatMap, List.countP_flatMap]
  exact congrArg List.sum (List.map_congr_left hgh)

/-- The tasks of a plan look at its operators one by one. The check of the names adds no node. -/
lemma Plan.countP_tasks (p : Plan) :
    (p.tasks.flatMap Task.examined).countP q = p.examined.countP q := by
  rw [tasks, List.flatMap_append, List.flatMap_assoc]
  exact (congrArg _ (List.append_nil _)).trans
    (countP_flatMap_congr q fun o _ => countP_operatorTasks q o)

/-- The tasks of a query look at the nodes of its plans. -/
lemma Query.countP_tasks (Q : Query) :
    (Q.tasks.flatMap Task.examined).countP q = (Q.plans.flatMap Plan.examined).countP q := by
  rw [tasks, List.flatMap_assoc]
  exact countP_flatMap_congr q fun p _ => p.countP_tasks q

lemma Query.countP_requiredTasks (Q : Option Query) :
    ((requiredTasks Q).flatMap Task.examined).countP q =
      ((Q.elim [] plans).flatMap Plan.examined).countP q := by
  cases Q with
  | none => rfl
  | some Q => exact Q.countP_tasks q

/-- The tasks of a statement look at each node as often as its plans and clauses have it. -/
lemma Statement.countP_tasks (s : Statement) :
    (s.tasks.flatMap Task.examined).countP q = s.examined.countP q := by
  cases s with
  | query Q =>
      rw [tasks, Query.countP_tasks, examined, List.countP_append]
      rfl
  | update u =>
      simp only [tasks, examined, clauses, Clauses.examined, List.flatMap_append,
        List.countP_append, Task.flatMap_examined_value, Task.flatMap_examined_condition,
        Task.flatMap_examined_key]
      simp [plans, query?, Task.examined]
      omega
  | delete d =>
      simp only [tasks, examined, clauses, Clauses.examined, List.flatMap_append,
        List.countP_append, Task.flatMap_examined_value, Task.flatMap_examined_condition,
        Task.flatMap_examined_key]
      simp [plans, query?, Task.examined]
      omega
  | create c =>
      obtain ⟨name, _ | Q⟩ := c
      · rfl
      · rw [examined, List.countP_append]
        exact Query.countP_requiredTasks q Q
  | insert i =>
      obtain ⟨table, order, columns, vs | Q⟩ := i
      · simp [tasks, examined, plans, query?, RowSource.query?, clauses, RowSource.values?,
          Clauses.examined]
      · rw [tasks, List.flatMap_append, Task.flatMap_examined_key, List.append_nil,
          Query.countP_requiredTasks, examined, List.countP_append]
        rfl
  | function f =>
      simp [tasks, examined, plans, query?, clauses, Clauses.examined, List.flatMap_assoc,
        List.flatMap_map, Task.examined]
  | verbatim code => rfl

/-- The tasks of a program look at the nodes of its statements. -/
lemma Program.countP_tasks (P : Program) :
    (P.tasks.flatMap Task.examined).countP q = P.examined.countP q := by
  induction P with
  | nil => rfl
  | cons s P ih =>
      rw [tasks, List.flatMap_cons, List.flatMap_append, List.countP_append, ← tasks, ih]
      cases s with
      | none => exact Nat.zero_add _
      | some s => exact (congrArg (· + _) (s.countP_tasks q)).trans List.countP_append.symm

/-! ### Programs -/

namespace Program

variable {A B : Program} {params : List String}

lemma functions_append (A B : Program) : (A ++ B).functions = A.functions ++ B.functions :=
  List.filterMap_append

/-- A program with one declaration more resolves the name of the declared function, and all other
names as before. -/
lemma resolve_declare {d : FunctionDef} (hd : ∀ d' ∈ (A ++ B).functions, d'.name ≠ d.name)
    (g : String) :
    (A ++ some (.function d) :: B).resolve g =
      if g = d.name then some (.userDefined d.params.length) else (A ++ B).resolve g := by
  have hfunctions : functions (some (.function d) :: B) = d :: B.functions := rfl
  rw [functions_append, List.forall_mem_append] at hd
  rw [resolve, resolve, functions_append, functions_append, hfunctions, List.reverse_append,
    List.reverse_append, List.reverse_cons, List.find?_append, List.find?_append, List.find?_append]
  by_cases hg : g = d.name
  · subst hg
    simp [find?_functions_eq_none hd.2]
  · simp [hg, Ne.symm hg]

/-- A name that is neither defined nor built in stands for nothing. -/
lemma resolve_eq_none (hbuiltin : Env.builtins.lookup f = none) {P : Program}
    (hf : ∀ d ∈ P.functions, d.name ≠ f) : P.resolve f = none := by
  rw [resolve, find?_functions_eq_none hf, hbuiltin]
  rfl

/-- The declaration makes a difference in the environment for the declared name only. -/
lemma declares (hbuiltin : Env.builtins.lookup f = none)
    (hf : ∀ d ∈ (A ++ B).functions, d.name ≠ f) :
    ((A ++ B).env (some .builtins)).Declares f params.length
      ((A ++ some (.function ⟨f, params, []⟩) :: B).env (some .builtins)) := by
  refine ⟨?_, ?_, fun g hg => ?_⟩
  · rw [lookup_env, resolve_eq_none hbuiltin hf]
  · rw [lookup_env, resolve_declare hf, if_pos rfl]
  · rw [lookup_env, lookup_env, resolve_declare hf, if_neg hg]

/-- There is nothing to do for a function with an empty body. -/
lemma tasks_declare : (A ++ some (.function ⟨f, params, []⟩) :: B).tasks = (A ++ B).tasks := by
  rw [tasks, tasks, List.flatMap_append, List.flatMap_append, List.flatMap_cons]
  rfl

/-- What a declaration changes in the tasks of a program. -/
lemma forM_tasks_declare (hΓ : Γ.Declares f n Γ') {P : Program}
    (hP : (forM P.tasks (Task.run Γ)).result.isSome) :
    (forM P.tasks (Task.run Γ')).without f = forM P.tasks (Task.run Γ) ∧
      (forM P.tasks (Task.run Γ')).badCalls f = P.examined.countP (Expr.isMisfit f n) := by
  have hrun : ∀ t ∈ P.tasks, (t.run Γ').without f = t.run Γ := fun t ht =>
    Task.run_without hΓ (isSome_forM.mp hP t ht)
  have hcomplete : ∀ t ∈ P.tasks, (t.run Γ').result.isSome := by
    intro t ht
    have h := isSome_forM.mp hP t ht
    rwa [← hrun t ht] at h
  refine ⟨without_forM hrun, ?_⟩
  rw [badCalls_forM hcomplete, ← countP_tasks, List.countP_flatMap]
  exact congrArg List.sum
    (List.map_congr_left fun t ht => Task.badCalls_run hΓ.declared (hcomplete t ht))

/-- **To declare a function is a conservative extension.** Let nothing be known about a function in
a program that the analysis has an answer for, and let it be declared anywhere in the program, with
an empty body. Then the analysis has an answer again, which only differs in bad calls of the
function, of which there were none before. There is one for each time that the typing looks at a
call of the function with another number of arguments. -/
theorem analyze_declare (params : List String) (hbuiltin : Env.builtins.lookup f = none)
    (hf : ∀ d ∈ (A ++ B).functions, d.name ≠ f) {ds : List Diagnostic}
    (h : (A ++ B).analyze = some ds) :
    ∃ ds', (A ++ some (.function ⟨f, params, []⟩) :: B).analyze = some ds' ∧
      (ds'.filter fun d => !d.isBadCallOf f) = ds ∧
      (∀ d ∈ ds, d.isBadCallOf f = false) ∧
      ds'.countP (Diagnostic.isBadCallOf f) =
        (A ++ B).examined.countP (Expr.isMisfit f params.length) := by
  rw [analyze, complete?_eq_some_iff, diagnose, check_eq_forM] at h
  obtain ⟨hcomplete, rfl⟩ := h
  obtain ⟨hwithout, hcount⟩ := forM_tasks_declare (declares hbuiltin hf) hcomplete
  refine ⟨_, ?_, congrArg diagnostics hwithout, ?_, hcount⟩
  · rw [analyze, complete?_eq_some_iff, diagnose, check_eq_forM, tasks_declare]
    rw [← hwithout] at hcomplete
    exact ⟨hcomplete, rfl⟩
  · rw [← hwithout]
    exact fun d hd => by simpa using (List.mem_filter.mp hd).2

/-- A query with calls of the function `age` in a subscript, after `having` and as a sort key. -/
def quoteRanking : Program :=
  [some (.query ⟨[], .sort
    (.groupBy (.scan ⟨"quotes", none, ⟨1, 1⟩⟩)
      [.index ⟨2, 1⟩ (.column ⟨2, 2⟩ "quotes" "bids") (.call ⟨2, 3⟩ "age" [])]
      [.call ⟨3, 1⟩ "age" [.rowId ⟨3, 2⟩]])
    [⟨.call ⟨4, 1⟩ "age" [], false⟩]⟩)]

/-- A removal with a call of the function `age`. -/
def quotePurge : Program :=
  [some (.delete ⟨"quotes", .rows [.call ⟨5, 1⟩ "age" []], [], [], []⟩)]

/-- The function `age` is declared between the two programs. Its calls in the subscript and as a
sort key are not looked at by the typing, the one after `having` is looked at twice, and the one in
the removal once, which makes three bad calls. The illegal sort key is found as before. -/
theorem quoteRanking_declare :
    Env.builtins.lookup "age" = none ∧ (quoteRanking ++ quotePurge).functions = [] ∧
      (quoteRanking ++ quotePurge).analyze = some [.illegalExpression "age()" ⟨4, 1⟩] ∧
      ∃ ds', (quoteRanking ++ some (.function ⟨"age", ["x", "y"], []⟩) :: quotePurge).analyze =
          some ds' ∧
        (ds'.filter fun d => !d.isBadCallOf "age") = [.illegalExpression "age()" ⟨4, 1⟩] ∧
        ds'.countP (Diagnostic.isBadCallOf "age") = 3 := by
  have hbuiltin : Env.builtins.lookup "age" = none := by decide
  have hfunctions : (quoteRanking ++ quotePurge).functions = [] := rfl
  have ha : (quoteRanking ++ quotePurge).analyze = some [.illegalExpression "age()" ⟨4, 1⟩] := by
    decide
  refine ⟨hbuiltin, hfunctions, ha, ?_⟩
  obtain ⟨ds', ha', hfilter, -, hcount⟩ := analyze_declare ["x", "y"] hbuiltin
    (by rw [hfunctions]; exact List.forall_mem_nil _) ha
  exact ⟨ds', ha', hfilter, hcount.trans (by decide)⟩

end Program

end QueryAnalysis
