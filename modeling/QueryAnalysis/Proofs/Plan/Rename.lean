import Mathlib.Data.List.Count
import Mathlib.Logic.Equiv.Basic
import QueryAnalysis.Proofs.Expr.Rename
import QueryAnalysis.Proofs.Plan.Duplicates

/-!
Plans with renamed tables. The spelling of a name does not matter for the analysis: if tables,
aliases and the tables in column accesses are renamed by an injective function, then the findings
are the same ones, with the new names in their texts.

* `Cause`: a finding with the parts of the query that it is about in place of their texts, and
  `Cause.report` the finding.
* `Task.causes`, with `Task.diagnostics_run_eq`: the causes of the findings of a task.
* `TableRef.conflicts_rename`, `ColumnRef.distinctBy_rename`: the grouping of tables and accesses
  does not depend on the names.
* `Task.causes_renameTables`: a renamed task has the renamed causes.
* `Plan.check_renameTables`: so it is for the check of a plan.
-/

namespace QueryAnalysis

open Diagnosis

/-! ### Causes -/

/-- A finding by the parts of the query that it is about. -/
inductive Cause where
  | typeMismatch (expected found : Ty) (pos : Pos)
  | badCall (function : String) (pos : Pos)
  | illegalExpression (e : Expr)
  | ambiguousColumn (r : ColumnRef)
  | unknownCorrelation (r : ColumnRef)
  | duplicateTable (first second : TableRef)

namespace Cause

/-- The finding with the texts and positions of these parts. -/
def report : Cause → Diagnostic
  | typeMismatch expected found p => .typeMismatch expected found p
  | badCall f p => .badCall f p
  | illegalExpression e => .illegalExpression e.text e.pos
  | ambiguousColumn r => .ambiguousColumn r.qualifiedName r.pos
  | unknownCorrelation r => .unknownCorrelation r.qualifiedName r.pos
  | duplicateTable t u => .duplicateTable t.fullName u.fullName t.pos u.pos

/-- The cause of a finding of the typing. It needs no part of the query, for there is no text of one
in the finding. -/
def ofTypes? : Diagnostic → Option Cause
  | .typeMismatch expected found p => some (typeMismatch expected found p)
  | .badCall f p => some (badCall f p)
  | _ => none

/-- What is wrong with an access, given the correlation names in scope. -/
def ofAccess? (names : List String) (r : ColumnRef) : Option Cause :=
  match names.count r.table with
  | 0 => some (unknownCorrelation r)
  | 1 => none
  | _ => some (ambiguousColumn r)

/-- The parts that the finding is about are parts of the plan. -/
def IsPartOf (p : Plan) : Cause → Prop
  | typeMismatch _ _ _ | badCall _ _ => True
  | illegalExpression e => ∃ o ∈ p.operators, ∃ k ∈ o.clauses.order, k.value = e
  | ambiguousColumn r | unknownCorrelation r => r ∈ p.columnRefs
  | duplicateTable t u => t ∈ p.tables ∧ u ∈ p.tables

lemma map_report_ofTypes? {ds : List Diagnostic} (h : ∀ d ∈ ds, d.aboutTypes = true) :
    (ds.filterMap ofTypes?).map report = ds := by
  rw [List.map_filterMap]
  refine (List.filterMap_congr fun d hd => ?_).trans List.filterMap_some
  cases d with
  | typeMismatch | badCall => rfl
  | illegalExpression | ambiguousColumn | unknownCorrelation | duplicateTable => cases h _ hd

lemma isPartOf_of_mem_ofTypes? {p : Plan} {ds : List Diagnostic} {c : Cause}
    (hc : c ∈ ds.filterMap ofTypes?) : c.IsPartOf p := by
  obtain ⟨d, -, hd⟩ := List.mem_filterMap.mp hc
  cases d <;> cases hd <;> trivial

lemma map_report_ofAccess? (names : List String) (r : ColumnRef) :
    (ofAccess? names r).map report = r.resolve names := by
  rw [ofAccess?, ColumnRef.resolve]
  rcases names.count r.table with _ | _ | _ <;> rfl

end Cause

/-- The causes of what a task finds. -/
def Task.causes (Γ : Env) : Task → List Cause
  | missing => []
  | value e => (e.infer Γ).diagnostics.filterMap Cause.ofTypes?
  | condition e => (e.expect Γ .boolean).diagnostics.filterMap Cause.ofTypes?
  | key k => if k.value.isSortable then [] else [.illegalExpression k.value]
  | standalone e => (e.preorder.filter Expr.needsRow).map .illegalExpression
  | tables ts => (TableRef.conflicts ts).map fun c => .duplicateTable c.1.1 c.2.1
  | columns names rs =>
    (distinctBy (fun r => (r.table, r.column)) rs).filterMap (Cause.ofAccess? names)

/-- **The findings of a task are the reports of its causes.** -/
lemma Task.diagnostics_run_eq {Γ : Env} {t : Task} (h : (t.run Γ).result.isSome) :
    (t.run Γ).diagnostics = (t.causes Γ).map Cause.report := by
  cases t with
  | missing => rfl
  | value e =>
      have he : e.Examinable := (Expr.isSome_examine Γ e).mp h
      rw [run, Expr.examine, diagnostics_bind_pure, causes]
      exact (Cause.map_report_ofTypes? fun d => Expr.aboutTypes_of_mem_infer he).symm
  | condition e =>
      have he : e.Examinable := (Expr.isSome_expect_iff Γ _ e).mp h
      exact (Cause.map_report_ofTypes? fun d => Expr.aboutTypes_of_mem_expect he).symm
  | key k =>
      have hk : k.value.isHole = false := (SortKey.isSome_check k).mp h
      rw [run, SortKey.check, causes, hk, if_neg Bool.false_ne_true]
      split <;> rfl
  | standalone e =>
      have he : e.Complete := (Expr.isSome_checkStandalone e).mp h
      rw [run, Expr.diagnostics_checkStandalone he, causes, List.map_map]
      rfl
  | tables ts =>
      rw [run, diagnostics_reportAll, TableRef.duplicates, causes, List.map_map]
      rfl
  | columns names rs =>
      rw [run, diagnostics_reportAll, ColumnRef.unresolved, causes, List.map_filterMap]
      simp only [Cause.map_report_ofAccess?]

/-! ### Groups under a renaming -/

section Grouping

variable {α κ : Type} [DecidableEq κ] {key : α → κ} {g : α → α}

/-- What is kept of a list does not change with the keys, as long as the same members have the same
key. -/
lemma distinctBy_map_of_iff (h : ∀ a b, key (g a) = key (g b) ↔ key a = key b) (as : List α) :
    distinctBy key (as.map g) = (distinctBy key as).map g := by
  induction as with
  | nil => rfl
  | cons a as ih =>
      rw [List.map_cons, distinctBy, distinctBy, ih, List.filter_map, List.map_cons]
      refine congrArg _ (congrArg _ (List.filter_congr fun b _ => ?_))
      simp [h]

/-- Nor do the first two members of each group. -/
lemma firstPairs_map_of_iff (h : ∀ a b, key (g a) = key (g b) ↔ key a = key b) (as : List α) :
    firstPairs key (as.map g) = (firstPairs key as).map (Prod.map g g) := by
  rw [firstPairs, firstPairs, distinctBy_map_of_iff h, List.filterMap_map, List.map_filterMap]
  refine List.filterMap_congr fun a _ => ?_
  have hgroup : ((as.map g).filter fun b => key b = key (g a)) =
      (as.filter fun b => key b = key a).map g := by
    rw [List.filter_map]
    exact congrArg _ (List.filter_congr fun b _ => by simp [h])
  rw [Function.comp_apply, hgroup]
  rcases as.filter fun b => key b = key a with _ | ⟨_, _ | ⟨_, _⟩⟩ <;> rfl

end Grouping

/-! ### Tables and accesses -/

variable {s : String → String}

namespace TableRef

/-- The table with a new name, and with a new alias if it has one. -/
def rename (s : String → String) (t : TableRef) : TableRef :=
  { t with name := s t.name, aliasName := t.aliasName.map s }

lemma correlationName_rename (s : String → String) (t : TableRef) :
    (t.rename s).correlationName = s t.correlationName := by
  rw [correlationName, correlationName, rename]
  cases t.aliasName <;> rfl

lemma aliasName_rename_eq_iff (hs : Function.Injective s) (t u : TableRef) :
    (t.rename s).aliasName = (u.rename s).aliasName ↔ t.aliasName = u.aliasName :=
  (Option.map_injective hs).eq_iff

lemma binding_rename_eq_iff (hs : Function.Injective s) (t u : TableRef) :
    ((t.rename s).name, (t.rename s).aliasName) = ((u.rename s).name, (u.rename s).aliasName) ↔
      (t.name, t.aliasName) = (u.name, u.aliasName) := by
  rw [Prod.mk.injEq, Prod.mk.injEq, aliasName_rename_eq_iff hs]
  exact and_congr_left' hs.eq_iff

lemma rename_injective (hs : Function.Injective s) : Function.Injective (rename s) := by
  rintro ⟨name, aliasName, pos⟩ ⟨name', aliasName', pos'⟩ h
  simp only [rename, TableRef.mk.injEq] at h
  obtain ⟨hname, halias, rfl⟩ := h
  rw [hs hname, Option.map_injective hs halias]

/-- **Conflicts do not depend on the names**: tables are in conflict at the same places. -/
lemma conflicts_rename (hs : Function.Injective s) (ts : List TableRef) :
    conflicts (ts.map (rename s)) =
      (conflicts ts).map (Prod.map (Prod.map (rename s) id) (Prod.map (rename s) id)) := by
  have hplaces : (ts.map (rename s)).zipIdx = ts.zipIdx.map (Prod.map (rename s) id) :=
    List.zipIdx_map
  have haliases : sharedAliases (ts.map (rename s)) =
      (sharedAliases ts).map (Prod.map (Prod.map (rename s) id) (Prod.map (rename s) id)) := by
    rw [sharedAliases, sharedAliases, hplaces, List.filter_map,
      firstPairs_map_of_iff fun t u => aliasName_rename_eq_iff hs t.1 u.1]
    refine congrArg _ (congrArg _ (List.filter_congr fun t _ => ?_))
    simp [rename]
  have hbindings : sharedBindings (ts.map (rename s)) =
      (sharedBindings ts).map (Prod.map (Prod.map (rename s) id) (Prod.map (rename s) id)) := by
    rw [sharedBindings, sharedBindings, hplaces,
      firstPairs_map_of_iff fun t u => binding_rename_eq_iff hs t.1 u.1]
  have hinj : Function.Injective (Prod.map (rename s) (id : Nat → Nat)) :=
    (rename_injective hs).prodMap Function.injective_id
  rw [conflicts, conflicts, haliases, hbindings, List.map_append, List.filter_map]
  refine congrArg _ (congrArg _ (List.filter_congr fun c _ => ?_))
  exact decide_eq_decide.mpr (List.mem_map_of_injective (hinj.prodMap hinj)).not

/-- The tables in conflict are tables of the list. -/
lemma mem_of_mem_conflicts {ts : List TableRef} {c : (TableRef × Nat) × (TableRef × Nat)}
    (hc : c ∈ conflicts ts) : c.1.1 ∈ ts ∧ c.2.1 ∈ ts := by
  rw [conflicts_eq_places] at hc
  obtain ⟨q, -, rfl⟩ := List.mem_map.mp hc
  exact ⟨List.getElem_mem _, List.getElem_mem _⟩

end TableRef

namespace ColumnRef

lemma distinctBy_rename (hs : Function.Injective s) (rs : List ColumnRef) :
    distinctBy (fun r => (r.table, r.column)) (rs.map (rename s)) =
      (distinctBy (fun r => (r.table, r.column)) rs).map (rename s) := by
  refine distinctBy_map_of_iff (fun r r' => ?_) rs
  rw [Prod.mk.injEq, Prod.mk.injEq]
  exact and_congr_left' hs.eq_iff

end ColumnRef

/-! ### Causes and tasks under a renaming -/

/-- The cause in the renamed query. -/
def Cause.renameTables (s : String → String) : Cause → Cause
  | typeMismatch expected found p => typeMismatch expected found p
  | badCall f p => badCall f p
  | illegalExpression e => illegalExpression (e.renameTables s)
  | ambiguousColumn r => ambiguousColumn (r.rename s)
  | unknownCorrelation r => unknownCorrelation (r.rename s)
  | duplicateTable t u => duplicateTable (t.rename s) (u.rename s)

/-- All positions that a finding points to. -/
def Diagnostic.positions : Diagnostic → List Pos
  | typeMismatch _ _ p | badCall _ p | illegalExpression _ p | ambiguousColumn _ p
  | unknownCorrelation _ p => [p]
  | duplicateTable _ _ p p' => [p, p']

namespace Cause

/-- The finding is of the same kind after a renaming, and it points to the same positions. -/
lemma kind_and_positions_renameTables (s : String → String) (c : Cause) :
    (c.renameTables s).report.kind = c.report.kind ∧
      (c.renameTables s).report.positions = c.report.positions := by
  cases c with
  | illegalExpression e =>
      refine ⟨rfl, ?_⟩
      simp only [renameTables, report, Diagnostic.positions, Expr.pos_renameTables]
  | _ => exact ⟨rfl, rfl⟩

lemma map_renameTables_ofTypes? (s : String → String) (ds : List Diagnostic) :
    (ds.filterMap ofTypes?).map (renameTables s) = ds.filterMap ofTypes? := by
  rw [List.map_filterMap]
  refine List.filterMap_congr fun d _ => ?_
  cases d <;> rfl

/-- The number of tables that go by a name does not change with the name. -/
lemma ofAccess?_rename (hs : Function.Injective s) (names : List String) (r : ColumnRef) :
    ofAccess? (names.map s) (r.rename s) = (ofAccess? names r).map (renameTables s) := by
  have hcount : (names.map s).count (r.rename s).table = names.count r.table :=
    List.count_map_of_injective names s hs r.table
  rw [ofAccess?, ofAccess?, hcount]
  rcases names.count r.table with _ | _ | _ <;> rfl

end Cause

/-- The sort key with the new names of the tables. -/
def SortKey.renameTables (s : String → String) (k : SortKey) : SortKey :=
  { k with value := k.value.renameTables s }

namespace Task

/-- The task in the renamed query. -/
def renameTables (s : String → String) : Task → Task
  | missing => missing
  | value e => value (e.renameTables s)
  | condition e => condition (e.renameTables s)
  | key k => key (k.renameTables s)
  | standalone e => standalone (e.renameTables s)
  | tables ts => tables (ts.map (TableRef.rename s))
  | columns names rs => columns (names.map s) (rs.map (ColumnRef.rename s))

/-- A renaming does not change what is missing. -/
lemma isSome_run_renameTables (s : String → String) (Γ : Env) (t : Task) :
    ((t.renameTables s).run Γ).result.isSome ↔ (t.run Γ).result.isSome := by
  cases t with
  | value e =>
      rw [renameTables, run, run, Expr.examine, Expr.examine, Expr.infer_renameTables]
  | condition e =>
      rw [renameTables, run, run, Expr.expect_renameTables (Expr.infer_renameTables s Γ e)]
  | key k =>
      rw [renameTables, run, run, SortKey.isSome_check, SortKey.isSome_check,
        SortKey.renameTables, Expr.isHole_renameTables]
  | standalone e =>
      rw [renameTables, run, run, Expr.isSome_checkStandalone, Expr.isSome_checkStandalone,
        Expr.Complete, Expr.Complete, Expr.preorder_renameTables, List.forall_mem_map]
      simp only [Expr.isHole_renameTables]
  | _ => exact Iff.rfl

/-- **A renamed task has the renamed causes.** -/
lemma causes_renameTables (hs : Function.Injective s) (Γ : Env) (t : Task) :
    (t.renameTables s).causes Γ = (t.causes Γ).map (Cause.renameTables s) := by
  cases t with
  | missing => rfl
  | value e =>
      rw [renameTables, causes, causes, Expr.infer_renameTables, Cause.map_renameTables_ofTypes?]
  | condition e =>
      rw [renameTables, causes, causes, Expr.expect_renameTables (Expr.infer_renameTables s Γ e),
        Cause.map_renameTables_ofTypes?]
  | key k =>
      rw [renameTables, causes, causes, SortKey.renameTables, Expr.isSortable_renameTables]
      split <;> rfl
  | standalone e =>
      rw [renameTables, causes, causes, Expr.preorder_renameTables, List.filter_map, List.map_map,
        List.map_map]
      simp only [Function.comp_def, Expr.needsRow_renameTables]
      rfl
  | tables ts =>
      rw [renameTables, causes, causes, TableRef.conflicts_rename hs, List.map_map, List.map_map]
      rfl
  | columns names rs =>
      rw [renameTables, causes, causes, ColumnRef.distinctBy_rename hs, List.filterMap_map,
        List.map_filterMap]
      exact List.filterMap_congr fun r _ => Cause.ofAccess?_rename hs names r

end Task

/-! ### Plans -/

namespace Plan

/-- The plan with new names for its tables and aliases, and with the new names of the tables in its
column accesses. -/
def renameTables (s : String → String) : Plan → Plan
  | hole => hole
  | scan t => scan (t.rename s)
  | project p es => project (renameTables s p) (es.map (Expr.renameTables s))
  | filter p cs => filter (renameTables s p) (cs.map (Expr.renameTables s))
  | groupBy p gs hs =>
    groupBy (renameTables s p) (gs.map (Expr.renameTables s)) (hs.map (Expr.renameTables s))
  | join k l r cs =>
    join k (renameTables s l) (renameTables s r) (cs.map (Expr.renameTables s))
  | sort p ks => sort (renameTables s p) (ks.map (SortKey.renameTables s))

variable (s) in
lemma operators_renameTables (p : Plan) :
    (p.renameTables s).operators = p.operators.map (renameTables s) := by
  induction p with
  | hole | scan t => rfl
  | join k l r cs hl hr => simp [renameTables, operators, hl, hr]
  | project p es ih | filter p cs ih | groupBy p gs hs ih | sort p ks ih =>
      simp [renameTables, operators, ih]

variable (s) in
lemma tables_renameTables (p : Plan) :
    (p.renameTables s).tables = p.tables.map (TableRef.rename s) := by
  rw [tables, tables, operators_renameTables, List.filterMap_map, List.map_filterMap]
  refine List.filterMap_congr fun o _ => ?_
  cases o <;> rfl

variable (s) in
lemma columnRefs_renameTables (p : Plan) :
    (p.renameTables s).columnRefs = p.columnRefs.map (ColumnRef.rename s) := by
  have hexprs (o : Plan) : (o.renameTables s).exprs = o.exprs.map (Expr.renameTables s) := by
    cases o <;> simp [renameTables, exprs, SortKey.renameTables, Function.comp_def]
  simp only [columnRefs, operators_renameTables, List.flatMap_map, hexprs,
    Expr.columnRefs_renameTables, List.map_flatMap]

variable (s) in
/-- The tasks of a plan are renamed one by one. -/
lemma tasks_renameTables (p : Plan) :
    (p.renameTables s).tasks = p.tasks.map (Task.renameTables s) := by
  have hoperator (o : Plan) :
      (o.renameTables s).operatorTasks = o.operatorTasks.map (Task.renameTables s) := by
    cases o <;> simp [renameTables, operatorTasks, Task.renameTables, Function.comp_def]
  rw [tasks, tasks, operators_renameTables, tables_renameTables, columnRefs_renameTables,
    List.map_append, List.flatMap_map, List.map_flatMap]
  simp only [hoperator, List.map_map, List.map_cons, List.map_nil, Task.renameTables,
    Function.comp_def, TableRef.correlationName_rename]

/-- The causes of the findings about a plan are parts of the plan. -/
lemma isPartOf_of_mem_causes {Γ : Env} {p : Plan} {t : Task} {c : Cause} (ht : t ∈ p.tasks)
    (hc : c ∈ t.causes Γ) : c.IsPartOf p := by
  rw [tasks, List.mem_append, List.mem_flatMap, List.mem_pair] at ht
  rcases ht with ⟨o, ho, hto⟩ | rfl | rfl
  · cases o with
    | hole =>
        obtain rfl := List.mem_singleton.mp hto
        cases hc
    | scan => cases hto
    | groupBy q gs hs =>
        rcases List.mem_append.mp hto with hto | hto
        · obtain ⟨e, -, rfl⟩ := List.mem_map.mp hto
          exact Cause.isPartOf_of_mem_ofTypes? hc
        · obtain ⟨e, -, rfl⟩ := List.mem_map.mp hto
          exact Cause.isPartOf_of_mem_ofTypes? hc
    | sort q ks =>
        obtain ⟨k, hk, rfl⟩ := List.mem_map.mp hto
        rw [Task.causes] at hc
        split at hc
        · cases hc
        · rw [List.mem_singleton.mp hc]
          exact ⟨sort q ks, ho, k, hk, rfl⟩
    | _ =>
        obtain ⟨e, -, rfl⟩ := List.mem_map.mp hto
        exact Cause.isPartOf_of_mem_ofTypes? hc
  · obtain ⟨d, hd, rfl⟩ := List.mem_map.mp hc
    exact TableRef.mem_of_mem_conflicts hd
  · obtain ⟨r, hr, hrc⟩ := List.mem_filterMap.mp hc
    have hmem : r ∈ p.columnRefs := (distinctBy_sublist _ _).subset hr
    rw [Cause.ofAccess?] at hrc
    split at hrc
    · cases hrc
      exact hmem
    · cases hrc
    · cases hrc
      exact hmem

lemma diagnostics_check_eq_causes {Γ : Env} {p : Plan} (h : (p.check Γ).result.isSome) :
    (p.check Γ).diagnostics = (p.tasks.flatMap (Task.causes Γ)).map Cause.report := by
  rw [check_eq_forM] at h ⊢
  have htasks : ∀ t ∈ p.tasks, (t.run Γ).result.isSome := isSome_forM.mp h
  rw [diagnostics_forM fun t ht => Option.eq_some_of_isSome (htasks t ht), List.map_flatMap]
  exact List.flatMap_congr fun t ht => Task.diagnostics_run_eq (htasks t ht)

variable (s) in
/-- A renaming does not change whether the check of a plan runs to its end. -/
lemma isSome_check_renameTables {Γ : Env} {p : Plan} :
    ((p.renameTables s).check Γ).result.isSome ↔ (p.check Γ).result.isSome := by
  simp only [check_eq_forM, isSome_forM, tasks_renameTables, List.forall_mem_map,
    Task.isSome_run_renameTables]

/-- **The check of a plan commutes with renamings.** If the check of a plan runs to its end, then
its findings have causes in the plan such that, for every injective renaming, the check of the
renamed plan runs to its end as well, and its findings are the reports of the renamed causes, in the
same order. In particular they are of the same kinds and point to the same positions. -/
theorem check_renameTables (Γ : Env) (p : Plan) (h : (p.check Γ).result.isSome) :
    ∃ cs : List Cause, (∀ c ∈ cs, c.IsPartOf p) ∧
      (p.check Γ).diagnostics = cs.map Cause.report ∧
      ∀ s : String → String, Function.Injective s →
        ((p.renameTables s).check Γ).result.isSome ∧
          ((p.renameTables s).check Γ).diagnostics = cs.map (fun c => (c.renameTables s).report) ∧
          List.Forall₂ (fun d d' => d'.kind = d.kind ∧ d'.positions = d.positions)
            (p.check Γ).diagnostics ((p.renameTables s).check Γ).diagnostics := by
  refine ⟨p.tasks.flatMap (Task.causes Γ), fun c hc => ?_, diagnostics_check_eq_causes h,
    fun s hs => ?_⟩
  · obtain ⟨t, ht, hct⟩ := List.mem_flatMap.mp hc
    exact isPartOf_of_mem_causes ht hct
  have hsome : ((p.renameTables s).check Γ).result.isSome := (isSome_check_renameTables s).mpr h
  have hreports : ((p.renameTables s).check Γ).diagnostics =
      (p.tasks.flatMap (Task.causes Γ)).map fun c => (c.renameTables s).report := by
    rw [diagnostics_check_eq_causes hsome, tasks_renameTables, List.flatMap_map]
    simp only [Task.causes_renameTables hs, List.map_flatMap, List.map_map]
    rfl
  refine ⟨hsome, hreports, ?_⟩
  rw [hreports, diagnostics_check_eq_causes h, List.forall₂_map_left_iff,
    List.forall₂_map_right_iff]
  exact List.forall₂_same.mpr fun c _ => c.kind_and_positions_renameTables s

/-- A plan in which two tables have the same alias, an access uses the name that the alias hides, an
operand and a call are wrong, and the sort key is not allowed. -/
def volumePlan : Plan :=
  .sort
    (.filter
      (.join .cross (.scan ⟨"trades", some "t", ⟨1, 1⟩⟩) (.scan ⟨"quotes", some "t", ⟨1, 2⟩⟩) [])
      [.binary ⟨2, 1⟩ .and (.column ⟨2, 2⟩ "trades" "open") (.column ⟨2, 3⟩ "t" "open"),
        .call ⟨2, 4⟩ "sum" [.literal ⟨2, 5⟩ .string "t"], .literal ⟨2, 6⟩ .integer "1"])
    [⟨.unary ⟨3, 1⟩ .negate (.column ⟨3, 2⟩ "t" "volume"), true⟩]

/-- The hidden name and the alias of the plan change places. -/
theorem volumePlan_renamed :
    (volumePlan.check .builtins).result.isSome ∧
      (volumePlan.check .builtins).diagnostics =
        [.illegalExpression "-t.volume" ⟨3, 1⟩, .badCall "sum" ⟨2, 4⟩,
          .typeMismatch .boolean .numeric ⟨2, 6⟩,
          .duplicateTable "trades as t" "quotes as t" ⟨1, 1⟩ ⟨1, 2⟩,
          .ambiguousColumn "t.volume" ⟨3, 2⟩, .unknownCorrelation "trades.open" ⟨2, 2⟩,
          .ambiguousColumn "t.open" ⟨2, 3⟩] ∧
      ((volumePlan.renameTables (Equiv.swap "trades" "t")).check .builtins).diagnostics =
        [.illegalExpression "-trades.volume" ⟨3, 1⟩, .badCall "sum" ⟨2, 4⟩,
          .typeMismatch .boolean .numeric ⟨2, 6⟩,
          .duplicateTable "t as trades" "quotes as trades" ⟨1, 1⟩ ⟨1, 2⟩,
          .ambiguousColumn "trades.volume" ⟨3, 2⟩, .unknownCorrelation "t.open" ⟨2, 2⟩,
          .ambiguousColumn "trades.open" ⟨2, 3⟩] ∧
      List.Forall₂ (fun d d' => d'.kind = d.kind ∧ d'.positions = d.positions)
        (volumePlan.check .builtins).diagnostics
        ((volumePlan.renameTables (Equiv.swap "trades" "t")).check .builtins).diagnostics := by
  have h : (volumePlan.check .builtins).result.isSome := by decide
  obtain ⟨cs, -, -, hrenamed⟩ := check_renameTables .builtins volumePlan h
  refine ⟨h, by decide, by decide, ?_⟩
  exact (hrenamed (Equiv.swap "trades" "t") (Equiv.injective _)).2.2

end Plan

end QueryAnalysis
