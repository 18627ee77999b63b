import Mathlib.Data.List.Dedup
import QueryAnalysis.Proofs.Plan.Findings

/-!
Tasks in another order. A check is a list of tasks, and its findings about single expressions are
the same in any order of the tasks. The findings about column accesses are one for each column and
come at its first access, so the order decides which access is cited, but not which columns.

* `Task.isSome_forM_iff`, `Task.filter_aboutNames_forM`: only the tasks about expressions can meet a
  missing part, and a finding is about names if it comes from a task about names.
* `Task.isSome_forM_of_perm`, `Task.findings_perm`: the order of the tasks about expressions.
* `Statement.filter_aboutNames_check`: the findings about names in a statement without a query.
* `map_key_distinctBy_perm`: one member is kept for each key.
* `Diagnostic.access?`: the kind and the column of a finding about an access.
* `ColumnRef.filterMap_access?_unresolved_perm`: the order of tables and accesses.
-/

namespace QueryAnalysis

open Diagnosis

/-! ### Tasks -/

namespace Task

variable {Γ : Env} {ts us : List Task}

lemma isSome_run_of_isAboutNames {t : Task} (h : t.isAboutNames = true) :
    (t.run Γ).result.isSome := by
  cases t with
  | tables | columns => rfl
  | missing | value | condition | key | standalone => cases h

/-- Nothing can be missing for the tasks about names. -/
lemma isSome_forM_iff :
    (forM ts (run Γ)).result.isSome ↔
      ∀ t ∈ ts.filter fun t => t.isAboutNames = false, (t.run Γ).result.isSome := by
  simp only [isSome_forM, List.mem_filter, decide_eq_true_eq, and_imp]
  refine forall₂_congr fun t _ => ⟨fun h _ => h, fun h => ?_⟩
  cases ht : t.isAboutNames with
  | false => exact h ht
  | true => exact isSome_run_of_isAboutNames ht

/-- The findings about names are those of the tasks about names, and likewise for the others. -/
lemma filter_aboutNames_forM (h : (forM ts (run Γ)).result.isSome) (b : Bool) :
    ((forM ts (run Γ)).diagnostics.filter fun d => d.aboutNames = b) =
      (ts.filter fun t => t.isAboutNames = b).flatMap fun t => (t.run Γ).diagnostics := by
  have hsome : ∀ t ∈ ts, (t.run Γ).result.isSome := isSome_forM.mp h
  rw [diagnostics_forM fun t ht => Option.eq_some_of_isSome (hsome t ht)]
  clear h
  -- a task is kept or left out as a whole, for its findings are all of one sort
  induction ts with
  | nil => rfl
  | cons t ts ih =>
      obtain ⟨ht, hts⟩ := List.forall_mem_cons.mp hsome
      have hfindings : ∀ d ∈ (t.run Γ).diagnostics, d.aboutNames = t.isAboutNames :=
        fun d => aboutNames_of_mem_run ht
      rw [List.flatMap_cons, List.filter_append, ih hts]
      by_cases hb : t.isAboutNames = b
      · rw [List.filter_cons_of_pos (by simpa using hb), List.flatMap_cons,
          List.filter_eq_self.mpr fun d hd => by simpa [hfindings d hd] using hb]
      · rw [List.filter_cons_of_neg (by simpa using hb),
          List.filter_eq_nil_iff.mpr fun d hd => by simpa [hfindings d hd] using hb,
          List.nil_append]

/-- The order of the tasks about expressions does not matter for running to the end. -/
lemma isSome_forM_of_perm (h : (ts.filter fun t => t.isAboutNames = false).Perm
      (us.filter fun t => t.isAboutNames = false)) :
    (forM ts (run Γ)).result.isSome ↔ (forM us (run Γ)).result.isSome := by
  rw [isSome_forM_iff, isSome_forM_iff]
  exact forall_congr' fun t => by rw [h.mem_iff]

/-- **The tasks about expressions have the same findings in any order.** -/
lemma findings_perm (h : (ts.filter fun t => t.isAboutNames = false).Perm
      (us.filter fun t => t.isAboutNames = false)) (hts : (forM ts (run Γ)).result.isSome) :
    ((forM ts (run Γ)).diagnostics.filter fun d => d.aboutNames = false).Perm
      ((forM us (run Γ)).diagnostics.filter fun d => d.aboutNames = false) := by
  rw [filter_aboutNames_forM hts, filter_aboutNames_forM ((isSome_forM_of_perm h).mp hts)]
  exact h.flatMap_right _

end Task

/-- Outside of queries, the findings about names are those about column accesses. -/
lemma Statement.filter_aboutNames_check {Γ : Env} {s : Statement} (hs : s.query? = none)
    (h : (s.check Γ).result.isSome) :
    ((s.check Γ).diagnostics.filter fun d => d.aboutNames = true) = s.columnFindings := by
  rw [check_eq_forM] at h ⊢
  rw [Task.filter_aboutNames_forM h]
  cases s with
  | query q => cases hs
  | update u =>
      simp [tasks, columnFindings, List.filter_map, Function.comp_def, Task.isAboutNames, Task.run]
  | delete d =>
      simp [tasks, columnFindings, List.filter_map, Function.comp_def, Task.isAboutNames, Task.run]
  | create c =>
      obtain ⟨name, columns | q⟩ := c
      · rfl
      · cases hs
  | insert i =>
      obtain ⟨table, order, columns, vs | q⟩ := i
      · simp [tasks, columnFindings, List.filter_map, Function.comp_def, Task.isAboutNames]
      · cases hs
  | function f =>
      simp [tasks, columnFindings, List.filter_flatMap, Task.isAboutNames]
  | verbatim code => rfl

/-! ### Columns -/

section Grouping

variable {α κ : Type} [DecidableEq κ]

/-- One member is kept for each key. -/
lemma map_key_distinctBy_perm (key : α → κ) (as : List α) :
    ((distinctBy key as).map key).Perm (as.map key).dedup := by
  have hnodup : ((distinctBy key as).map key).Nodup :=
    List.pairwise_map.mpr (pairwise_distinctBy key as)
  refine (List.perm_ext_iff_of_nodup hnodup (List.nodup_dedup _)).mpr fun k => ?_
  rw [List.mem_dedup, List.mem_map, List.mem_map]
  constructor
  · rintro ⟨a, ha, rfl⟩
    exact ⟨a, (distinctBy_sublist key as).subset ha, rfl⟩
  · rintro ⟨a, ha, rfl⟩
    exact exists_mem_distinctBy key ha

end Grouping

namespace Diagnostic

/-- The kind of a finding about a column access, and the column as it is written there. -/
def access? : Diagnostic → Option (Kind × String)
  | ambiguousColumn n _ => some (.ambiguousColumn, n)
  | unknownCorrelation n _ => some (.unknownCorrelation, n)
  | typeMismatch _ _ _ | badCall _ _ | illegalExpression _ _ | duplicateTable _ _ _ _ => none

/-- A finding about a column access is one about names. -/
lemma filterMap_access?_filter (ds : List Diagnostic) :
    (ds.filter fun d => d.aboutNames = true).filterMap access? = ds.filterMap access? := by
  rw [List.filterMap_filter]
  refine List.filterMap_congr fun d _ => ?_
  cases d <;> rfl

end Diagnostic

namespace ColumnRef

variable {names names' : List String} {rs rs' : List ColumnRef}

/-- What is wrong with the accesses to a column, given by the names of its table and its own. -/
def columnFinding? (names : List String) (c : String × String) :
    Option (Diagnostic.Kind × String) :=
  match names.count c.1 with
  | 0 => some (.unknownCorrelation, Text.qualified c.1 c.2)
  | 1 => none
  | _ => some (.ambiguousColumn, Text.qualified c.1 c.2)

lemma bind_access?_resolve (r : ColumnRef) :
    (r.resolve names).bind Diagnostic.access? = columnFinding? names (r.table, r.column) := by
  rw [resolve, columnFinding?]
  rcases names.count r.table with _ | _ | _ <;> rfl

/-- There is at most one finding for a column, however often it is accessed. -/
lemma filterMap_access?_unresolved :
    ((unresolved names rs).filterMap Diagnostic.access?).Perm
      ((rs.map fun r => (r.table, r.column)).dedup.filterMap (columnFinding? names)) := by
  have hcolumns : (unresolved names rs).filterMap Diagnostic.access? =
      ((distinctBy (fun r => (r.table, r.column)) rs).map fun r => (r.table, r.column)).filterMap
        (columnFinding? names) := by
    rw [unresolved, List.filterMap_filterMap, List.filterMap_map]
    exact List.filterMap_congr fun r _ => bind_access?_resolve r
  rw [hcolumns]
  exact (map_key_distinctBy_perm _ rs).filterMap _

/-- **The order of tables and accesses does not matter** for the columns that are reported. -/
lemma filterMap_access?_unresolved_perm (hnames : names.Perm names') (hrs : rs.Perm rs') :
    ((unresolved names rs).filterMap Diagnostic.access?).Perm
      ((unresolved names' rs').filterMap Diagnostic.access?) := by
  have hfinding : columnFinding? names = columnFinding? names' := by
    funext c
    rw [columnFinding?, columnFinding?, hnames.count_eq]
  refine filterMap_access?_unresolved.trans (.trans ?_ filterMap_access?_unresolved.symm)
  rw [hfinding]
  exact (hrs.map _).dedup.filterMap _

end ColumnRef

end QueryAnalysis
