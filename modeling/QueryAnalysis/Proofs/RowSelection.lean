import QueryAnalysis.Proofs.Reordering

/-!
Updates and removals of the same rows. A removal checks its conditions before its sort keys, and an
update does so after them; otherwise the two are checked alike.

* `RowSelection`: the clauses that pick rows of a table, with the removal and the update of these
  rows.
* `ColumnRef.CitesForeign`: which accesses are found at fault if only one table is in scope.
* `RowSelection.check_delete_update`: the removal and the update are at fault in the same way.
-/

namespace QueryAnalysis

open Diagnosis

/-! ### Accesses with one table in scope -/

namespace ColumnRef

variable {n : String} {rs rs' : List ColumnRef} {ds : List Diagnostic}

/-- One finding about an unknown table for each column of another table than `n` that the given
accesses name. It cites one of these accesses. -/
def CitesForeign (n : String) (rs : List ColumnRef) (ds : List Diagnostic) : Prop :=
  ∃ cited : List ColumnRef, (∀ r ∈ cited, r ∈ rs) ∧
    (cited.map fun r => (r.table, r.column)).Perm
      ((rs.map fun r => (r.table, r.column)).dedup.filter fun c => c.1 ≠ n) ∧
    (ds.filter fun d => d.kind = .unknownCorrelation) =
      cited.map fun r => .unknownCorrelation r.qualifiedName r.pos

/-- With one table in scope, an access can only be to an unknown table. -/
lemma unresolved_singleton (n : String) (rs : List ColumnRef) :
    unresolved [n] rs =
      ((distinctBy (fun r => (r.table, r.column)) rs).filter fun r => r.table ≠ n).map
        fun r => .unknownCorrelation r.qualifiedName r.pos := by
  rw [unresolved, ← List.filterMap_eq_map, List.filterMap_filter]
  refine List.filterMap_congr fun r _ => ?_
  by_cases hr : r.table = n
  · simp [resolve, hr]
  · have hcount : [n].count r.table = 0 := List.count_eq_zero.mpr (by simpa using hr)
    simp [resolve, hcount, hr]

/-- No access is ambiguous, and there are no tables that could be in conflict. -/
lemma kind_of_filter_eq (h : (ds.filter fun d => d.aboutNames = true) = unresolved [n] rs) :
    ∀ d ∈ ds, d.kind ≠ .ambiguousColumn ∧ d.kind ≠ .duplicateTable := by
  intro d hd
  cases hnames : d.aboutNames with
  | false =>
      obtain ⟨hdup, -, hamb⟩ := Diagnostic.kind_of_aboutNames_eq_false hnames
      exact ⟨hamb, hdup⟩
  | true =>
      have hmem : d ∈ unresolved [n] rs := h ▸ List.mem_filter.mpr ⟨hd, by simpa using hnames⟩
      rw [unresolved_singleton] at hmem
      obtain ⟨r, -, rfl⟩ := List.mem_map.mp hmem
      exact ⟨nofun, nofun⟩

/-- The order of the accesses matters only for the choice of the one that is cited. -/
lemma citesForeign_of_filter_eq (hrs : rs.Perm rs')
    (h : (ds.filter fun d => d.aboutNames = true) = unresolved [n] rs) :
    CitesForeign n rs' ds := by
  refine ⟨(distinctBy (fun r => (r.table, r.column)) rs).filter fun r => r.table ≠ n, ?_, ?_, ?_⟩
  · intro r hr
    exact hrs.subset ((distinctBy_sublist _ _).subset (List.mem_filter.mp hr).1)
  · have hcolumns := (map_key_distinctBy_perm (fun r : ColumnRef => (r.table, r.column)) rs).trans
      (hrs.map _).dedup
    have hforeign := hcolumns.filter fun c => c.1 ≠ n
    rwa [List.filter_map] at hforeign
  · rw [← unresolved_singleton, ← h]
    -- with the other two kinds out of the way, a finding about names is one about an unknown table
    refine List.filter_congr fun d hd => ?_
    have hkind := kind_of_filter_eq h d hd
    cases d <;> simp_all [Diagnostic.kind, Diagnostic.aboutNames]

end ColumnRef

/-! ### Updates and removals -/

/-- The clauses that pick rows of a table. -/
structure RowSelection where
  table : String
  order : List SortKey
  conditions : List Expr
  groupBy : List Expr
  having : List Expr

namespace RowSelection

variable {Γ : Env} {c : RowSelection}

/-- The removal of the rows. -/
def delete (c : RowSelection) : Statement :=
  .delete ⟨c.table, .rows c.conditions, c.order, c.groupBy, c.having⟩

/-- The update of the rows that assigns nothing. -/
def update (c : RowSelection) : Statement :=
  .update ⟨c.table, [], c.order, c.conditions, c.groupBy, c.having⟩

/-- The column accesses anywhere in the clauses. -/
def columnRefs (c : RowSelection) : List ColumnRef :=
  (c.order.map SortKey.value ++ c.conditions ++ c.groupBy ++ c.having).flatMap Expr.columnRefs

/-- The clauses are checked in another order, but no others are. -/
lemma tasks_perm (c : RowSelection) :
    (c.delete.tasks.filter fun t => t.isAboutNames = false).Perm
      (c.update.tasks.filter fun t => t.isAboutNames = false) := by
  simp only [delete, update, Statement.tasks, List.map_nil, List.nil_append, List.filter_append]
  exact ((List.perm_append_comm.append_right _).append_right _).append_right _

/-- The accesses in a removal are those in the clauses. -/
lemma columnRefs_delete_perm (c : RowSelection) :
    ((c.conditions ++ c.order.map SortKey.value ++ c.groupBy ++ c.having).flatMap
      Expr.columnRefs).Perm c.columnRefs :=
  ((List.perm_append_comm.append_right _).append_right _).flatMap_right _

lemma filter_aboutNames_delete (h : (c.delete.check Γ).result.isSome) :
    ((c.delete.check Γ).diagnostics.filter fun d => d.aboutNames = true) =
      ColumnRef.unresolved [c.table]
        ((c.conditions ++ c.order.map SortKey.value ++ c.groupBy ++ c.having).flatMap
          Expr.columnRefs) :=
  Statement.filter_aboutNames_check rfl h

lemma filter_aboutNames_update (h : (c.update.check Γ).result.isSome) :
    ((c.update.check Γ).diagnostics.filter fun d => d.aboutNames = true) =
      ColumnRef.unresolved [c.table] c.columnRefs :=
  Statement.filter_aboutNames_check rfl h

/-- **The removal and the update of the same rows are at fault in the same way**, if the update
assigns nothing. The check runs to its end for both or for neither. If it does, then the findings
about expressions are the same in some order, no access is ambiguous, and there is one finding about
an unknown table for each column of another table that is accessed anywhere in the clauses. -/
theorem check_delete_update (Γ : Env) (c : RowSelection) :
    ((c.delete.check Γ).result.isSome ↔ (c.update.check Γ).result.isSome) ∧
      ((c.delete.check Γ).result.isSome →
        ((c.delete.check Γ).diagnostics.filter fun d => d.aboutNames = false).Perm
            ((c.update.check Γ).diagnostics.filter fun d => d.aboutNames = false) ∧
          (∀ s ∈ [c.delete, c.update],
            (∀ d ∈ (s.check Γ).diagnostics,
              d.kind ≠ .ambiguousColumn ∧ d.kind ≠ .duplicateTable) ∧
            ColumnRef.CitesForeign c.table c.columnRefs (s.check Γ).diagnostics) ∧
          ((c.delete.check Γ).diagnostics.filterMap Diagnostic.access?).Perm
            ((c.update.check Γ).diagnostics.filterMap Diagnostic.access?)) := by
  have hend : (c.delete.check Γ).result.isSome ↔ (c.update.check Γ).result.isSome := by
    rw [Statement.check_eq_forM]
    exact Task.isSome_forM_of_perm c.tasks_perm
  refine ⟨hend, fun h => ⟨?_, ?_, ?_⟩⟩
  · rw [Statement.check_eq_forM] at h ⊢
    exact Task.findings_perm c.tasks_perm h
  · have hdelete := filter_aboutNames_delete h
    have hupdate := filter_aboutNames_update (hend.mp h)
    rw [List.forall_mem_cons, List.forall_mem_singleton]
    exact ⟨⟨ColumnRef.kind_of_filter_eq hdelete,
        ColumnRef.citesForeign_of_filter_eq c.columnRefs_delete_perm hdelete⟩,
      ColumnRef.kind_of_filter_eq hupdate,
      ColumnRef.citesForeign_of_filter_eq (.refl _) hupdate⟩
  · rw [← Diagnostic.filterMap_access?_filter, filter_aboutNames_delete h,
      ← Diagnostic.filterMap_access?_filter (c.update.check Γ).diagnostics,
      filter_aboutNames_update (hend.mp h)]
    exact ColumnRef.filterMap_access?_unresolved_perm (.refl _) c.columnRefs_delete_perm

/-- Rows of one table, sorted by a column of another one and picked by a condition on it. -/
def staleTrades : RowSelection where
  table := "trades"
  order := [⟨.unary ⟨1, 1⟩ .negate (.column ⟨1, 2⟩ "quotes" "size"), true⟩]
  conditions := [.literal ⟨2, 1⟩ .integer "1", .column ⟨2, 2⟩ "quotes" "size"]
  groupBy := [.column ⟨3, 1⟩ "trades" "day", .column ⟨3, 2⟩ "a.b" "c"]
  having := [.call ⟨4, 1⟩ "sum" [.literal ⟨4, 2⟩ .string "t"], .column ⟨4, 3⟩ "a" "b.c"]

/-- The first two findings change places, one column is cited at another access, and two columns are
reported that are written alike. -/
theorem staleTrades_delete_update :
    (staleTrades.delete.check .builtins).result.isSome ∧
      (staleTrades.delete.check .builtins).diagnostics =
        [.typeMismatch .boolean .numeric ⟨2, 1⟩, .illegalExpression "-quotes.size" ⟨1, 1⟩,
          .badCall "sum" ⟨4, 1⟩, .unknownCorrelation "quotes.size" ⟨2, 2⟩,
          .unknownCorrelation "a.b.c" ⟨3, 2⟩, .unknownCorrelation "a.b.c" ⟨4, 3⟩] ∧
      (staleTrades.update.check .builtins).diagnostics =
        [.illegalExpression "-quotes.size" ⟨1, 1⟩, .typeMismatch .boolean .numeric ⟨2, 1⟩,
          .badCall "sum" ⟨4, 1⟩, .unknownCorrelation "quotes.size" ⟨1, 2⟩,
          .unknownCorrelation "a.b.c" ⟨3, 2⟩, .unknownCorrelation "a.b.c" ⟨4, 3⟩] ∧
      ColumnRef.CitesForeign "trades" staleTrades.columnRefs
        (staleTrades.update.check .builtins).diagnostics := by
  have h : (staleTrades.delete.check .builtins).result.isSome := by decide
  have hboth := ((check_delete_update .builtins staleTrades).2 h).2.1
  refine ⟨h, by decide, by decide, (hboth staleTrades.update ?_).2⟩
  exact List.mem_cons_of_mem _ List.mem_cons_self

end RowSelection

end QueryAnalysis
