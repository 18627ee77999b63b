import QueryAnalysis.Proofs.Plan.Duplicates
import QueryAnalysis.Proofs.Reordering

/-!
Plans with exchanged inputs. The order of the inputs of a join matters for the rows of the result,
and for the order in which its parts are checked, but not for what is wrong with it.

* `Plan.Swapped`: one plan comes from another by exchanging the inputs of any of its joins.
* `Plan.bare`, with `Plan.Swapped.operators_perm`: the operators without their inputs are the same
  ones in another order, and so are tables, accesses and tasks.
* `Plan.check_swapped`: what can be said of the findings.
-/

namespace QueryAnalysis

/-- Whether tables are in conflict does not depend on their order. -/
lemma TableRef.duplicates_eq_nil_of_perm {ts us : List TableRef} (h : ts.Perm us) :
    duplicates ts = [] ↔ duplicates us = [] := by
  rw [duplicates_eq_nil_iff, duplicates_eq_nil_iff]
  exact and_congr (h.filterMap _).nodup_iff ((h.filter _).map _).nodup_iff

namespace Plan

/-- The second plan comes from the first one by exchanging the inputs of some of its joins. -/
inductive Swapped : Plan → Plan → Prop
  | hole : Swapped hole hole
  | scan (t : TableRef) : Swapped (scan t) (scan t)
  | project {p p' : Plan} (es : List Expr) (hp : Swapped p p') :
      Swapped (project p es) (project p' es)
  | filter {p p' : Plan} (cs : List Expr) (hp : Swapped p p') :
      Swapped (filter p cs) (filter p' cs)
  | groupBy {p p' : Plan} (gs hs : List Expr) (hp : Swapped p p') :
      Swapped (groupBy p gs hs) (groupBy p' gs hs)
  | keep {l l' r r' : Plan} (k : JoinKind) (cs : List Expr) (hl : Swapped l l')
      (hr : Swapped r r') : Swapped (join k l r cs) (join k l' r' cs)
  | swap {l l' r r' : Plan} (k : JoinKind) (cs : List Expr) (hl : Swapped l l')
      (hr : Swapped r r') : Swapped (join k l r cs) (join k r' l' cs)
  | sort {p p' : Plan} (ks : List SortKey) (hp : Swapped p p') :
      Swapped (sort p ks) (sort p' ks)

/-- An operator without its inputs. -/
def bare : Plan → Plan
  | hole => hole
  | scan t => scan t
  | project _ es => project hole es
  | filter _ cs => filter hole cs
  | groupBy _ gs hs => groupBy hole gs hs
  | join k _ _ cs => join k hole hole cs
  | sort _ ks => sort hole ks

lemma table?_bare (o : Plan) : o.bare.table? = o.table? := by
  cases o <;> rfl

lemma exprs_bare (o : Plan) : o.bare.exprs = o.exprs := by
  cases o <;> rfl

lemma operatorTasks_bare (o : Plan) : o.bare.operatorTasks = o.operatorTasks := by
  cases o <;> rfl

namespace Swapped

variable {p p' : Plan}

/-- **The operators stay the same** apart from their order and their inputs. -/
lemma operators_perm (h : p.Swapped p') :
    (p.operators.map bare).Perm (p'.operators.map bare) := by
  -- an operator above an exchanged join is itself another plan, hence the comparison without inputs
  induction h with
  | hole | scan t => exact .refl _
  | project es _ ih | filter cs _ ih | groupBy gs hs _ ih | sort ks _ ih => exact ih.cons _
  | keep k cs _ _ hl hr =>
      simp only [operators, List.map_cons, List.map_append]
      exact (hl.append hr).cons _
  | swap k cs _ _ hl hr =>
      simp only [operators, List.map_cons, List.map_append]
      exact ((hl.append hr).trans List.perm_append_comm).cons _

/-- What is gathered from the operators one by one, without regard to their inputs, stays the same
apart from the order. -/
lemma flatMap_operators_perm {α : Type} {f : Plan → List α} (hf : ∀ o, f (bare o) = f o)
    (h : p.Swapped p') : (p.operators.flatMap f).Perm (p'.operators.flatMap f) := by
  have hbare (q : Plan) : q.operators.flatMap f = (q.operators.map bare).flatMap f := by
    rw [List.flatMap_map]
    simp only [hf]
  rw [hbare, hbare]
  exact h.operators_perm.flatMap_right f

lemma tables_perm (h : p.Swapped p') : p.tables.Perm p'.tables := by
  rw [tables, tables, List.filterMap_eq_flatMap_toList, List.filterMap_eq_flatMap_toList]
  exact h.flatMap_operators_perm fun o => by rw [table?_bare]

lemma columnRefs_perm (h : p.Swapped p') : p.columnRefs.Perm p'.columnRefs :=
  h.flatMap_operators_perm fun o => by rw [exprs_bare]

end Swapped

/-- The tasks of a plan about names are its last two. -/
lemma filter_isAboutNames_tasks (p : Plan) :
    (p.tasks.filter fun t => t.isAboutNames = true) =
        [.tables p.tables, .columns (p.tables.map TableRef.correlationName) p.columnRefs] ∧
      (p.tasks.filter fun t => t.isAboutNames = false) = p.operators.flatMap operatorTasks := by
  have hoperators : ∀ t ∈ p.operators.flatMap operatorTasks, t.isAboutNames = false :=
    fun _ => isAboutNames_of_mem_operators
  rw [tasks, List.filter_append, List.filter_append]
  constructor
  · rw [List.filter_eq_nil_iff.mpr fun t ht => by simp [hoperators t ht]]
    rfl
  · rw [List.filter_eq_self.mpr fun t ht => by simp [hoperators t ht]]
    exact List.append_nil _

variable {Γ : Env} {p p' : Plan}

lemma exists_duplicateTable_iff (h : (p.check Γ).result.isSome) :
    (∃ d ∈ (p.check Γ).diagnostics, d.kind = .duplicateTable) ↔
      TableRef.duplicates p.tables ≠ [] := by
  rw [← filter_duplicateTable_check h, Ne, List.filter_eq_nil_iff]
  simp

/-- The findings about column accesses are those of the last task. -/
lemma filterMap_access?_check (h : (p.check Γ).result.isSome) :
    (p.check Γ).diagnostics.filterMap Diagnostic.access? =
      (ColumnRef.unresolved (p.tables.map TableRef.correlationName) p.columnRefs).filterMap
        Diagnostic.access? := by
  have hduplicates : (TableRef.duplicates p.tables).filterMap Diagnostic.access? = [] := by
    rw [TableRef.duplicates, List.filterMap_map]
    exact List.filterMap_eq_nil_iff.mpr fun c _ => rfl
  rw [check_eq_forM] at h ⊢
  rw [← Diagnostic.filterMap_access?_filter, Task.filter_aboutNames_forM h,
    (filter_isAboutNames_tasks p).1, List.flatMap_cons, List.flatMap_singleton,
    List.filterMap_append]
  exact (congrArg (· ++ _) hduplicates).trans (List.nil_append _)

lemma Swapped.tasks_perm (h : p.Swapped p') :
    (p.tasks.filter fun t => t.isAboutNames = false).Perm
      (p'.tasks.filter fun t => t.isAboutNames = false) := by
  rw [(filter_isAboutNames_tasks p).2, (filter_isAboutNames_tasks p').2]
  exact h.flatMap_operators_perm operatorTasks_bare

/-- **Exchanging the inputs of joins does not change what is wrong with a plan.** The check runs to
its end for both plans or for neither. If it does, then the findings about expressions are the same
in some order, there are tables in conflict in both plans or in neither, and the same columns are
reported as unknown or as ambiguous. -/
theorem check_swapped (Γ : Env) (p p' : Plan) (h : p.Swapped p') :
    ((p.check Γ).result.isSome ↔ (p'.check Γ).result.isSome) ∧
      ((p.check Γ).result.isSome →
        ((p.check Γ).diagnostics.filter fun d => d.aboutNames = false).Perm
            ((p'.check Γ).diagnostics.filter fun d => d.aboutNames = false) ∧
          ((∃ d ∈ (p.check Γ).diagnostics, d.kind = .duplicateTable) ↔
            ∃ d ∈ (p'.check Γ).diagnostics, d.kind = .duplicateTable) ∧
          ((p.check Γ).diagnostics.filterMap Diagnostic.access?).Perm
            ((p'.check Γ).diagnostics.filterMap Diagnostic.access?)) := by
  have hend : (p.check Γ).result.isSome ↔ (p'.check Γ).result.isSome := by
    rw [check_eq_forM]
    exact Task.isSome_forM_of_perm h.tasks_perm
  refine ⟨hend, fun hp => ⟨?_, ?_, ?_⟩⟩
  · rw [check_eq_forM] at hp ⊢
    exact Task.findings_perm h.tasks_perm hp
  · rw [exists_duplicateTable_iff hp, exists_duplicateTable_iff (hend.mp hp)]
    exact (TableRef.duplicates_eq_nil_of_perm h.tables_perm).not
  · rw [filterMap_access?_check hp, filterMap_access?_check (hend.mp hp)]
    exact ColumnRef.filterMap_access?_unresolved_perm (h.tables_perm.map _) h.columnRefs_perm

/-- A join of trades with two inputs, where all tables have the same alias. -/
def bookJoin (l r : Plan) : Plan :=
  .join .inner
    (.filter (.scan ⟨"trades", some "x", ⟨1, 1⟩⟩) [.column ⟨2, 1⟩ "y" "open"])
    (.join .cross l r []) []

/-- An input with a condition that is none. -/
def quoteInput : Plan :=
  .filter (.scan ⟨"quotes", some "x", ⟨1, 2⟩⟩)
    [.column ⟨3, 1⟩ "x" "price", .literal ⟨3, 2⟩ .integer "1"]

/-- An input with a bad call. -/
def tradeInput : Plan :=
  .filter (.scan ⟨"trades", some "x", ⟨1, 3⟩⟩)
    [.call ⟨4, 1⟩ "sum" [.literal ⟨4, 2⟩ .string "t"], .column ⟨4, 3⟩ "x" "price"]

/-- The findings change places, the ambiguous column is cited at another access, and there are fewer
findings about tables in conflict. -/
theorem bookJoin_swapped :
    (bookJoin quoteInput tradeInput).Swapped (bookJoin tradeInput quoteInput) ∧
      ((bookJoin quoteInput tradeInput).check .builtins).result.isSome ∧
      ((bookJoin quoteInput tradeInput).check .builtins).diagnostics =
        [.typeMismatch .boolean .numeric ⟨3, 2⟩, .badCall "sum" ⟨4, 1⟩,
          .duplicateTable "trades as x" "quotes as x" ⟨1, 1⟩ ⟨1, 2⟩,
          .duplicateTable "trades as x" "trades as x" ⟨1, 1⟩ ⟨1, 3⟩,
          .unknownCorrelation "y.open" ⟨2, 1⟩, .ambiguousColumn "x.price" ⟨3, 1⟩] ∧
      ((bookJoin tradeInput quoteInput).check .builtins).diagnostics =
        [.badCall "sum" ⟨4, 1⟩, .typeMismatch .boolean .numeric ⟨3, 2⟩,
          .duplicateTable "trades as x" "trades as x" ⟨1, 1⟩ ⟨1, 3⟩,
          .unknownCorrelation "y.open" ⟨2, 1⟩, .ambiguousColumn "x.price" ⟨4, 3⟩] ∧
      (((bookJoin quoteInput tradeInput).check .builtins).diagnostics.filterMap
        Diagnostic.access?).Perm
          (((bookJoin tradeInput quoteInput).check .builtins).diagnostics.filterMap
            Diagnostic.access?) := by
  have h : (bookJoin quoteInput tradeInput).Swapped (bookJoin tradeInput quoteInput) :=
    .keep _ _ (.filter _ (.scan _)) (.swap _ _ (.filter _ (.scan _)) (.filter _ (.scan _)))
  have hend : ((bookJoin quoteInput tradeInput).check .builtins).result.isSome := by decide
  exact ⟨h, hend, by decide, by decide, ((check_swapped .builtins _ _ h).2 hend).2.2⟩

end Plan

end QueryAnalysis
