import QueryAnalysis.Proofs.RowSelection

/-!
Phases of a check, and the kinds of findings that can come up in each of them. A plan is checked in
three phases: its expressions, its tables, its column accesses. In a statement without a query there
are no tables to be in conflict, and at most one that an access could refer to.

* `Plan.sortKeys`, `SortKey.isComputed`: the sort keys of a plan, and those that are neither a plain
  name nor a column of a table.
* `Task.filter_illegal_run`, `Plan.filter_illegal_check`: in a plan, only sort keys are found to be
  illegal, and these are.
* `Statement.aboutNames_of_mem_check`: where no table is in scope, nothing is found about names.
* `findings_by_context`: all of this together.
-/

namespace QueryAnalysis

open Diagnosis

variable {Γ : Env} {d : Diagnostic}

/-! ### Sort keys -/

/-- The key is neither a plain name nor a column of a table. -/
def SortKey.isComputed (k : SortKey) : Bool :=
  match k.value with
  | .ident _ _ | .column _ _ _ => false
  | _ => true

/-- The finding about a sort key that cannot serve as one. -/
def SortKey.illegal (k : SortKey) : Diagnostic :=
  .illegalExpression k.value.text k.value.pos

lemma SortKey.diagnostics_check {k : SortKey} (h : k.check.result.isSome) :
    k.check.diagnostics = ([k].filter isComputed).map illegal := by
  obtain ⟨e, descending⟩ := k
  cases e with
  | hole => cases h
  | _ => rfl

namespace Plan

/-- The sort keys of a plan, those of an operator before those of its inputs. -/
def sortKeys : Plan → List SortKey
  | hole | scan _ => []
  | project p _ | filter p _ | groupBy p _ _ => sortKeys p
  | join _ l r _ => sortKeys l ++ sortKeys r
  | sort p ks => ks ++ sortKeys p

end Plan

namespace Task

/-- The sort keys that a task is about. -/
def keys : Task → List SortKey
  | key k => [k]
  | _ => []

/-- The task is about an expression outside of a query. -/
def isStandalone : Task → Bool
  | standalone _ => true
  | _ => false

/-- In a query, illegal expressions are sort keys. -/
lemma filter_illegal_run {t : Task} (ht : t.isStandalone = false) (h : (t.run Γ).result.isSome) :
    ((t.run Γ).diagnostics.filter fun d => d.kind = .illegalExpression) =
      (t.keys.filter SortKey.isComputed).map SortKey.illegal := by
  have hnone (hkind : ∀ d ∈ (t.run Γ).diagnostics, d.kind ≠ .illegalExpression) :
      ((t.run Γ).diagnostics.filter fun d => d.kind = .illegalExpression) = [] :=
    List.filter_eq_nil_iff.mpr fun d hd => by simpa using hkind d hd
  cases t with
  | missing => rfl
  | value | condition =>
      refine hnone fun d hd hkind => ?_
      have htypes := aboutTypes_of_mem_run h hd
      rw [Diagnostic.aboutTypes_of_kind_illegalExpression hkind] at htypes
      cases htypes
  | key k =>
      rw [run, List.filter_eq_self.mpr fun d hd => by simpa using SortKey.kind_of_mem_check hd]
      exact SortKey.diagnostics_check h
  | standalone e => cases ht
  | tables | columns =>
      refine hnone fun d hd hkind => ?_
      have hnames := aboutNames_of_mem_run h hd
      rw [Diagnostic.aboutNames_of_kind_illegalExpression hkind] at hnames
      cases hnames

end Task

namespace Plan

variable {p : Plan}

lemma flatMap_keys_operatorTasks (o : Plan) :
    o.operatorTasks.flatMap Task.keys = o.clauses.order := by
  cases o <;> simp [operatorTasks, clauses, List.flatMap_map, Task.keys]

lemma flatMap_order_operators (p : Plan) :
    (p.operators.flatMap fun o => o.clauses.order) = p.sortKeys := by
  induction p with
  | hole | scan t => rfl
  | project p es ih | filter p cs ih | groupBy p gs hs ih => exact ih
  | join k l r cs hl hr =>
      rw [operators, List.flatMap_cons, List.flatMap_append, hl, hr]
      rfl
  | sort p ks ih =>
      rw [operators, List.flatMap_cons, ih]
      rfl

/-- The tasks of a plan come to its sort keys one by one. -/
lemma flatMap_keys_tasks (p : Plan) : p.tasks.flatMap Task.keys = p.sortKeys := by
  rw [tasks, List.flatMap_append, List.flatMap_assoc]
  simp only [flatMap_keys_operatorTasks, flatMap_order_operators]
  exact List.append_nil _

lemma isStandalone_of_mem_tasks {t : Task} (ht : t ∈ p.tasks) : t.isStandalone = false := by
  rw [tasks, List.mem_append, List.mem_flatMap] at ht
  rcases ht with ⟨o, -, ho⟩ | hnames
  · obtain rfl | ⟨e, rfl⟩ | ⟨e, rfl⟩ | ⟨k, rfl⟩ := operatorTasks_cases ho
    all_goals rfl
  · simp only [List.mem_cons, List.not_mem_nil, or_false] at hnames
    obtain rfl | rfl := hnames
    all_goals rfl

/-- **In a plan, the illegal expressions are the computed sort keys**, in the order in which they
come up. -/
lemma filter_illegal_check (h : (p.check Γ).result.isSome) :
    ((p.check Γ).diagnostics.filter fun d => d.kind = .illegalExpression) =
      (p.sortKeys.filter SortKey.isComputed).map SortKey.illegal := by
  rw [check_eq_forM] at h ⊢
  have hsome : ∀ t ∈ p.tasks, (t.run Γ).result.isSome := isSome_forM.mp h
  rw [diagnostics_forM fun t ht => Option.eq_some_of_isSome (hsome t ht), List.filter_flatMap,
    ← flatMap_keys_tasks, List.filter_flatMap, List.map_flatMap]
  exact List.flatMap_congr fun t ht =>
    Task.filter_illegal_run (isStandalone_of_mem_tasks ht) (hsome t ht)

end Plan

/-! ### Statements -/

/-- Where no table is in scope, nothing is found about names. -/
lemma Statement.aboutNames_of_mem_check {s : Statement} (hq : s.query? = none)
    (ht : s.target? = none) (h : (s.check Γ).result.isSome) (hd : d ∈ (s.check Γ).diagnostics) :
    d.aboutNames = false := by
  have hfilter := filter_aboutNames_check hq h
  have hcolumns : s.columnFindings = [] := by
    cases s with
    | update u | delete d => cases ht
    | _ => rfl
  rw [hcolumns] at hfilter
  simpa using List.filter_eq_nil_iff.mp hfilter d hd

/-- **The findings of a check by their context.** The findings about a plan come in three blocks:
those about its expressions, those about tables in conflict, and those about column accesses. The
illegal expressions among them are, one by one, the sort keys that are neither a name nor a column.
Inserted values and functions have no findings about names, and updates and removals none about
tables in conflict and ambiguous columns. Nothing is found in foreign code and in schemas. -/
theorem findings_by_context (Γ : Env) :
    (∀ p : Plan, (p.check Γ).result.isSome →
      (∃ exprs tables columns, (p.check Γ).diagnostics = exprs ++ tables ++ columns ∧
        (∀ d ∈ exprs, d.kind ∈ [Diagnostic.Kind.typeMismatch, .badCall, .illegalExpression]) ∧
        (∀ d ∈ tables, d.kind = .duplicateTable) ∧
        ∀ d ∈ columns, d.kind ∈ [Diagnostic.Kind.unknownCorrelation, .ambiguousColumn]) ∧
      ((p.check Γ).diagnostics.filter fun d => d.kind = .illegalExpression) =
        (p.sortKeys.filter SortKey.isComputed).map SortKey.illegal) ∧
    (∀ s : Statement,
      (∃ table order columns vs, s = .insert ⟨table, order, columns, .values vs⟩) ∨
        (∃ f, s = .function f) →
      (s.check Γ).result.isSome → ∀ d ∈ (s.check Γ).diagnostics,
        d.kind ∉ [Diagnostic.Kind.duplicateTable, .unknownCorrelation, .ambiguousColumn]) ∧
    (∀ s : Statement, (∃ u, s = .update u) ∨ (∃ r, s = .delete r) →
      (s.check Γ).result.isSome → ∀ d ∈ (s.check Γ).diagnostics,
        d.kind ∉ [Diagnostic.Kind.duplicateTable, .ambiguousColumn]) ∧
    ∀ s : Statement, (∃ code, s = .verbatim code) ∨
        (∃ name columns, s = .create ⟨name, .schema columns⟩) →
      s.check Γ = pure () := by
  refine ⟨fun p hp => ⟨?_, Plan.filter_illegal_check hp⟩, fun s hs h d hd => ?_,
    fun s hs h d hd => ?_, fun s hs => ?_⟩
  · obtain ⟨exprs, hexprs, hblocks⟩ := Plan.exists_diagnostics_check hp
    refine ⟨exprs, _, _, by rw [hblocks, List.append_assoc], fun d hd => ?_,
      fun d => TableRef.kind_of_mem_duplicates, fun d hd => ?_⟩
    · have hnames := hexprs d hd
      cases d <;> simp_all [Diagnostic.aboutNames, Diagnostic.kind]
    · simpa using ColumnRef.kind_of_mem_unresolved hd
  · have hnames : d.aboutNames = false := by
      obtain ⟨table, order, columns, vs, rfl⟩ | ⟨f, rfl⟩ := hs
      · exact Statement.aboutNames_of_mem_check rfl rfl h hd
      · exact Statement.aboutNames_of_mem_check rfl rfl h hd
    simpa using Diagnostic.kind_of_aboutNames_eq_false hnames
  · have hkind : d.kind ≠ .ambiguousColumn ∧ d.kind ≠ .duplicateTable := by
      obtain ⟨u, rfl⟩ | ⟨r, rfl⟩ := hs
      · exact ColumnRef.kind_of_filter_eq (Statement.filter_aboutNames_check rfl h) d hd
      · exact ColumnRef.kind_of_filter_eq (Statement.filter_aboutNames_check rfl h) d hd
    simpa using hkind.symm
  · obtain ⟨code, rfl⟩ | ⟨name, columns, rfl⟩ := hs
    · rfl
    · rfl

/-- A sorted join under a sorted projection, with something wrong in every phase. -/
def rankedTrades : Plan :=
  .sort
    (.project
      (.join .inner
        (.sort (.scan ⟨"trades", some "x", ⟨1, 1⟩⟩) [⟨.literal ⟨2, 1⟩ .integer "1", false⟩])
        (.scan ⟨"quotes", some "x", ⟨1, 2⟩⟩)
        [.call ⟨3, 1⟩ "sum" [.literal ⟨3, 2⟩ .string "t"], .literal ⟨3, 3⟩ .integer "0"])
      [.column ⟨4, 1⟩ "x" "price", .column ⟨4, 2⟩ "y" "size"])
    [⟨.ident ⟨5, 1⟩ "day", false⟩, ⟨.unary ⟨5, 2⟩ .negate (.ident ⟨5, 3⟩ "size"), true⟩]

/-- An insertion of a column. -/
def insertedColumn : Statement :=
  .insert ⟨"trades", [], ["price"], .values [.column ⟨1, 1⟩ "quotes" "price"]⟩

/-- An update by a column of another table. -/
def foreignUpdate : Statement :=
  .update ⟨"trades", [⟨"price", .column ⟨1, 1⟩ "quotes" "price"⟩], [], [], [], []⟩

/-- A column of another table is illegal among inserted values and unknown in an update. -/
theorem rankedTrades_findings :
    (rankedTrades.check .builtins).diagnostics =
        [.illegalExpression "-size" ⟨5, 2⟩, .badCall "sum" ⟨3, 1⟩,
          .typeMismatch .boolean .numeric ⟨3, 3⟩, .illegalExpression "1" ⟨2, 1⟩,
          .duplicateTable "trades as x" "quotes as x" ⟨1, 1⟩ ⟨1, 2⟩,
          .ambiguousColumn "x.price" ⟨4, 1⟩, .unknownCorrelation "y.size" ⟨4, 2⟩] ∧
      ((rankedTrades.check .builtins).diagnostics.filter fun d => d.kind = .illegalExpression) =
        (rankedTrades.sortKeys.filter SortKey.isComputed).map SortKey.illegal ∧
      (insertedColumn.check .builtins).diagnostics = [.illegalExpression "quotes.price" ⟨1, 1⟩] ∧
      (∀ d ∈ (insertedColumn.check .builtins).diagnostics,
        d.kind ∉ [Diagnostic.Kind.duplicateTable, .unknownCorrelation, .ambiguousColumn]) ∧
      (foreignUpdate.check .builtins).diagnostics = [.unknownCorrelation "quotes.price" ⟨1, 1⟩] ∧
      ∀ d ∈ (foreignUpdate.check .builtins).diagnostics,
        d.kind ∉ [Diagnostic.Kind.duplicateTable, .ambiguousColumn] := by
  obtain ⟨hplan, hstandalone, htarget, -⟩ := findings_by_context .builtins
  exact ⟨by decide, (hplan rankedTrades (by decide)).2, by decide,
    hstandalone insertedColumn (.inl ⟨_, _, _, _, rfl⟩) (by decide), by decide,
    htarget foreignUpdate (.inl ⟨_, rfl⟩) (by decide)⟩

end QueryAnalysis
