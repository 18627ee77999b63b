import QueryAnalysis.Proofs.Complete
import QueryAnalysis.Proofs.Expr.Violations

/-!
The findings of a check by their kinds. The typing finds mismatches and bad calls, sort keys and
expressions outside of a query may be illegal, and whatever else is found is about names. In a plan
the findings come in blocks: first those about single expressions, then the tables in conflict, then
the column accesses.

* `Diagnostic.aboutTypes`, `Diagnostic.aboutNames`: the findings of the typing, and those about
  tables and column accesses.
* `Expr.aboutTypes_of_mem_infer`, `SortKey.kind_of_mem_check`,
  `Expr.kind_of_mem_checkStandalone`, `TableRef.kind_of_mem_duplicates`,
  `ColumnRef.kind_of_mem_unresolved`: the kinds of findings of each elementary check.
* `Task.aboutTypes_of_mem_run`, `Task.aboutNames_of_mem_run`: which tasks have findings about types,
  and which about names.
* `Plan.exists_diagnostics_check`: the blocks.
-/

namespace QueryAnalysis

open Diagnosis

namespace Diagnostic

/-- The finding is about the type of an operand or a call. -/
def aboutTypes : Diagnostic → Bool
  | typeMismatch _ _ _ | badCall _ _ => true
  | illegalExpression _ _ | ambiguousColumn _ _ | unknownCorrelation _ _
  | duplicateTable _ _ _ _ => false

/-- The finding is about the names of tables or about what they refer to. -/
def aboutNames : Diagnostic → Bool
  | typeMismatch _ _ _ | badCall _ _ | illegalExpression _ _ => false
  | ambiguousColumn _ _ | unknownCorrelation _ _ | duplicateTable _ _ _ _ => true

variable {d : Diagnostic}

/-- What is about types is not about names. -/
lemma aboutNames_of_aboutTypes (hd : d.aboutTypes = true) : d.aboutNames = false := by
  cases d <;> simp_all [aboutTypes, aboutNames]

lemma aboutNames_of_kind_illegalExpression (hd : d.kind = .illegalExpression) :
    d.aboutNames = false := by
  cases d <;> simp_all [kind, aboutNames]

lemma aboutTypes_of_kind_illegalExpression (hd : d.kind = .illegalExpression) :
    d.aboutTypes = false := by
  cases d <;> simp_all [kind, aboutTypes]

lemma kind_of_aboutNames_eq_false (hd : d.aboutNames = false) :
    d.kind ≠ .duplicateTable ∧ d.kind ≠ .unknownCorrelation ∧ d.kind ≠ .ambiguousColumn := by
  cases d <;> simp_all [aboutNames, kind]

end Diagnostic

/-! ### Names -/

/-- The tables in conflict are findings of one kind. -/
lemma TableRef.kind_of_mem_duplicates {ts : List TableRef} {d : Diagnostic}
    (hd : d ∈ duplicates ts) : d.kind = .duplicateTable := by
  obtain ⟨c, -, rfl⟩ := List.mem_map.mp hd
  rfl

/-- An access is unknown or ambiguous, if anything is wrong with it. -/
lemma ColumnRef.kind_of_mem_unresolved {names : List String} {rs : List ColumnRef}
    {d : Diagnostic} (hd : d ∈ unresolved names rs) :
    d.kind = .unknownCorrelation ∨ d.kind = .ambiguousColumn := by
  obtain ⟨r, -, hr⟩ := List.mem_filterMap.mp hd
  rw [resolve] at hr
  split at hr
  · cases hr
    exact Or.inl rfl
  · cases hr
  · cases hr
    exact Or.inr rfl

/-! ### Expressions and sort keys -/

namespace Expr

variable {R : String → Option Signature} {ty : Expr → Ty} {Γ : Env} {e c : Expr} {S : Expectation}
  {d : Diagnostic}

/-- A part that does not meet its expectation is a matter of types. -/
lemma aboutTypes_of_mem_fault (hd : d ∈ fault ty c S) : d.aboutTypes = true := by
  rw [fault] at hd
  split at hd
  · cases hd
  · rw [List.mem_singleton.mp hd]
    rfl

/-- A bad call and a case without branches are matters of types. -/
lemma aboutTypes_of_mem_ownFindings (hd : d ∈ e.ownFindings R ty) : d.aboutTypes = true := by
  cases e with
  | call p f args =>
      rw [ownFindings, refused] at hd
      split at hd
      · split at hd
        · rw [List.mem_singleton.mp hd]
          rfl
        · cases hd
      · cases hd
  | case p s bs d' =>
      cases bs with
      | nil =>
          rw [List.mem_singleton.mp hd]
          rfl
      | cons b bs => cases hd
  | _ => cases hd

/-- What is wrong inside of an expression is a matter of types. -/
lemma aboutTypes_of_mem_infer (he : e.Examinable) (hd : d ∈ (e.infer Γ).diagnostics) :
    d.aboutTypes = true := by
  obtain ⟨n, -, hdn⟩ := List.mem_flatMap.mp ((diagnostics_infer_perm he).mem_iff.mp hd)
  rw [violations_eq, List.mem_append, List.mem_flatMap] at hdn
  rcases hdn with hown | ⟨q, -, hfault⟩
  · exact aboutTypes_of_mem_ownFindings hown
  · exact aboutTypes_of_mem_fault hfault

lemma aboutTypes_of_mem_expect (he : e.Examinable) (hd : d ∈ (e.expect Γ S).diagnostics) :
    d.aboutTypes = true := by
  rw [diagnostics_expect he, List.mem_append] at hd
  exact hd.elim (aboutTypes_of_mem_infer he) aboutTypes_of_mem_fault

/-- Outside of a query, the nodes that refer to a row are found. -/
lemma diagnostics_checkStandalone (he : e.Complete) :
    e.checkStandalone.diagnostics =
      (e.preorder.filter needsRow).map fun n => .illegalExpression n.text n.pos := by
  have hnodes : ∀ n ∈ e.preorder, n.checkStandaloneNode.result = some () := fun n hn =>
    Option.eq_some_of_isSome (isSome_forM.mp ((isSome_checkStandalone e).mpr he) n hn)
  rw [checkStandalone, diagnostics_forM hnodes, ← List.filterMap_eq_map, List.filterMap_filter,
    List.filterMap_eq_flatMap_toList]
  refine List.flatMap_congr fun n hn => ?_
  cases hr : n.needsRow <;> simp [checkStandaloneNode, he n hn, hr]

lemma kind_of_mem_checkStandalone (he : e.Complete) (hd : d ∈ e.checkStandalone.diagnostics) :
    d.kind = .illegalExpression := by
  rw [diagnostics_checkStandalone he] at hd
  obtain ⟨n, -, rfl⟩ := List.mem_map.mp hd
  rfl

end Expr

/-- A sort key is only found to be of an illegal form. -/
lemma SortKey.kind_of_mem_check {k : SortKey} {d : Diagnostic} (hd : d ∈ k.check.diagnostics) :
    d.kind = .illegalExpression := by
  rw [check] at hd
  split at hd
  · cases hd
  · split at hd
    · cases hd
    · rw [List.mem_singleton.mp hd]
      rfl

/-! ### Tasks -/

namespace Task

/-- The task is about the types in an expression. -/
def isAboutTypes : Task → Bool
  | value _ | condition _ => true
  | missing | key _ | standalone _ | tables _ | columns _ _ => false

/-- The task is about the names of tables or about what they refer to. -/
def isAboutNames : Task → Bool
  | tables _ | columns _ _ => true
  | missing | value _ | condition _ | key _ | standalone _ => false

variable {Γ : Env} {t : Task} {d : Diagnostic}

/-- **The findings of a task are about types** if the task is, and otherwise none of them is. -/
lemma aboutTypes_of_mem_run (hsome : (t.run Γ).result.isSome) (hd : d ∈ (t.run Γ).diagnostics) :
    d.aboutTypes = t.isAboutTypes := by
  cases t with
  | missing => cases hd
  | value e =>
      rw [run, Expr.examine, diagnostics_bind_pure] at hd
      exact Expr.aboutTypes_of_mem_infer ((Expr.isSome_examine Γ e).mp hsome) hd
  | condition e =>
      exact Expr.aboutTypes_of_mem_expect ((Expr.isSome_expect_iff Γ _ e).mp hsome) hd
  | key k => exact Diagnostic.aboutTypes_of_kind_illegalExpression (SortKey.kind_of_mem_check hd)
  | standalone e =>
      have he : e.Complete := (Expr.isSome_checkStandalone e).mp hsome
      exact Diagnostic.aboutTypes_of_kind_illegalExpression (Expr.kind_of_mem_checkStandalone he hd)
  | tables ts =>
      have hkind := TableRef.kind_of_mem_duplicates hd
      cases d <;> simp_all [Diagnostic.kind, Diagnostic.aboutTypes, isAboutTypes]
  | columns names rs =>
      have hkind := ColumnRef.kind_of_mem_unresolved hd
      cases d <;> simp_all [Diagnostic.kind, Diagnostic.aboutTypes, isAboutTypes]

/-- **The findings of a task are about names** if the task is, and otherwise none of them is. -/
lemma aboutNames_of_mem_run (hsome : (t.run Γ).result.isSome) (hd : d ∈ (t.run Γ).diagnostics) :
    d.aboutNames = t.isAboutNames := by
  cases t with
  | missing => cases hd
  | value | condition => exact Diagnostic.aboutNames_of_aboutTypes (aboutTypes_of_mem_run hsome hd)
  | key k => exact Diagnostic.aboutNames_of_kind_illegalExpression (SortKey.kind_of_mem_check hd)
  | standalone e =>
      have he : e.Complete := (Expr.isSome_checkStandalone e).mp hsome
      exact Diagnostic.aboutNames_of_kind_illegalExpression (Expr.kind_of_mem_checkStandalone he hd)
  | tables ts =>
      have hkind := TableRef.kind_of_mem_duplicates hd
      cases d <;> simp_all [Diagnostic.kind, Diagnostic.aboutNames, isAboutNames]
  | columns names rs =>
      have hkind := ColumnRef.kind_of_mem_unresolved hd
      cases d <;> simp_all [Diagnostic.kind, Diagnostic.aboutNames, isAboutNames]

end Task

/-! ### Plans -/

namespace Plan

variable {Γ : Env} {p o : Plan}

/-- What a task of a single operator can be. -/
lemma operatorTasks_cases {t : Task} (ht : t ∈ o.operatorTasks) :
    t = .missing ∨ (∃ e, t = .value e) ∨ (∃ e, t = .condition e) ∨ ∃ k, t = .key k := by
  cases o <;> simp only [operatorTasks, List.mem_append, List.mem_map, List.mem_singleton,
    List.not_mem_nil] at ht <;> grind

/-- The tasks of a single operator are not about names. -/
lemma isAboutNames_of_mem_operatorTasks {t : Task} (ht : t ∈ o.operatorTasks) :
    t.isAboutNames = false := by
  obtain rfl | ⟨e, rfl⟩ | ⟨e, rfl⟩ | ⟨k, rfl⟩ := operatorTasks_cases ht
  all_goals rfl

lemma isAboutNames_of_mem_operators {t : Task} (ht : t ∈ p.operators.flatMap operatorTasks) :
    t.isAboutNames = false := by
  obtain ⟨o, -, hto⟩ := List.mem_flatMap.mp ht
  exact isAboutNames_of_mem_operatorTasks hto

/-- **The blocks of findings about a plan**: those about expressions, tables in conflict, and column
accesses. -/
lemma exists_diagnostics_check (h : (p.check Γ).result.isSome) :
    ∃ ds, (∀ d ∈ ds, d.aboutNames = false) ∧
      (p.check Γ).diagnostics = ds ++ (TableRef.duplicates p.tables ++
        ColumnRef.unresolved (p.tables.map TableRef.correlationName) p.columnRefs) := by
  rw [check_eq_forM] at h ⊢
  have htasks : ∀ t ∈ p.tasks, (t.run Γ).result = some () := fun t ht =>
    Option.eq_some_of_isSome (isSome_forM.mp h t ht)
  refine ⟨(p.operators.flatMap operatorTasks).flatMap fun t => (t.run Γ).diagnostics, ?_, ?_⟩
  · intro d hd
    obtain ⟨t, ht, hdt⟩ := List.mem_flatMap.mp hd
    have hsome : (t.run Γ).result = some () := htasks t (List.mem_append_left _ ht)
    rw [Task.aboutNames_of_mem_run (Option.isSome_of_mem hsome) hdt]
    exact isAboutNames_of_mem_operators ht
  · rw [diagnostics_forM htasks, tasks, List.flatMap_append]
    simp [Task.run]

end Plan

end QueryAnalysis
