import QueryAnalysis.Proofs.Complete
import QueryAnalysis.Proofs.Env
import QueryAnalysis.Proofs.Expr.HasType
import QueryAnalysis.Proofs.Plan.Names

/-!
Well-formed programs, by rules that do not mention the analysis, and the proof that these are the
programs in which the analysis finds nothing.

* `Clauses.WellTyped`: values have some type, conditions are truth values as far as that is known,
  and sort keys are plain names or columns.
* `Plan.WellFormed`, `Statement.WellFormed`, `Program.WellFormed`: the rules for the larger trees.
* `Program.analyze_eq_nil_iff_wellFormed`: the analysis finds nothing exactly in well-formed
  programs.
-/

namespace QueryAnalysis

open Diagnosis

/-! ### The rules -/

/-- Values have some type, conditions are truth values as far as that is known, and sort keys are
plain names or columns. -/
structure Clauses.WellTyped (R : String → Option Signature) (c : Clauses) : Prop where
  values : ∀ e ∈ c.values, ∃ t, e.HasType R t
  conditions : ∀ e ∈ c.conditions, ∃ t, e.HasType R t ∧ (t = .boolean ∨ t = .unknown)
  order : ∀ k ∈ c.order, k.value.isSortable = true

/-- The clauses of all operators are well typed; aliases are distinct, and so are the names of
tables without an alias; and the qualifier of every column access, wherever it stands, is the
correlation name of exactly one table. -/
structure Plan.WellFormed (R : String → Option Signature) (p : Plan) : Prop where
  clauses : ∀ o ∈ p.operators, o.clauses.WellTyped R
  aliases : (TableRef.aliases p.tables).Nodup
  names : (TableRef.plainNames p.tables).Nodup
  columns : ∀ r ∈ p.columnRefs, (p.tables.map TableRef.correlationName).count r.table = 1

/-- The plans of the query of a statement are well formed, and its own clauses well typed. The
qualifier of every column access is the table of the statement, if that has one; and inserted values
and functions do not refer to rows at all. -/
structure Statement.WellFormed (R : String → Option Signature) (s : Statement) : Prop where
  plans : ∀ p ∈ s.plans, p.WellFormed R
  clauses : s.clauses.WellTyped R
  columns : ∀ t ∈ s.target?, ∀ e ∈ s.clauses.exprs, ∀ r ∈ e.columnRefs, r.table = t
  standalone : ∀ e ∈ s.standaloneExprs, ∀ n ∈ e.preorder, n.needsRow = false

namespace Program

/-- No statement is missing, nor anything in the statements. -/
structure Complete (P : Program) : Prop where
  given : ∀ s ∈ P, s.isSome = true
  statements : ∀ s ∈ P.statements, s.Complete

/-- Wherever a table is in scope, the subscripts that are given are complete. -/
def SubscriptsComplete (P : Program) : Prop :=
  ∀ s ∈ P.statements, s.SubscriptsComplete

instance : DecidablePred SubscriptsComplete := fun P =>
  inferInstanceAs (Decidable (∀ s ∈ P.statements, s.SubscriptsComplete))

/-- **Well-formed programs**: nothing is missing, and every statement is well formed with the
functions that the program knows. -/
structure WellFormed (P : Program) : Prop where
  complete : P.Complete
  statements : ∀ s ∈ P.statements, s.WellFormed P.resolve

end Program

/-! ### Acceptance of clauses and plans -/

/-- A value is accepted if it has a type by the rules. -/
lemma Expr.examine_eq_pure_iff {Γ : Env} {e : Expr} :
    e.examine Γ = pure () ↔ ∃ t, e.HasType Γ.lookup t := by
  rw [examine, bind_eq_pure_iff]
  refine exists_congr fun t => ?_
  rw [infer_eq_pure_iff]
  exact and_iff_left rfl

/-- A condition is accepted if it is a truth value, as far as that is known. -/
lemma Expr.expect_boolean_eq_pure_iff {Γ : Env} {e : Expr} :
    e.expect Γ .boolean = pure () ↔ ∃ t, e.HasType Γ.lookup t ∧ (t = .boolean ∨ t = .unknown) := by
  rw [expect_eq_pure_iff]
  refine exists_congr fun t => ?_
  rw [infer_eq_pure_iff, Expectation.boolean, Expectation.admits_exactly]
  simp

/-- Without a row, an expression is accepted if it is complete and does not refer to one. -/
lemma Expr.checkStandalone_eq_pure_iff {e : Expr} :
    e.checkStandalone = pure () ↔ e.Complete ∧ ∀ n ∈ e.preorder, n.needsRow = false := by
  rw [checkStandalone, forM_eq_pure_iff, Complete, ← forall₂_and]
  refine forall₂_congr fun n _ => ?_
  cases h : n.isHole <;> cases hr : n.needsRow <;> simp [checkStandaloneNode, h, hr]

/-- A sort key is accepted if it has a proper form, which a missing one has not. -/
lemma SortKey.check_eq_pure_iff {k : SortKey} : k.check = pure () ↔ k.value.isSortable = true := by
  rw [check]
  cases k.value <;> simp [Expr.isHole, Expr.isSortable]

/-- Clauses are accepted if they are well typed. -/
lemma Clauses.pass_eq_pure_iff {Γ : Env} {c : Clauses} :
    c.Pass (· = pure ()) Γ ↔ c.WellTyped Γ.lookup := by
  constructor
  · rintro ⟨hv, hc, ho⟩
    exact ⟨fun e he => Expr.examine_eq_pure_iff.mp (hv e he),
      fun e he => Expr.expect_boolean_eq_pure_iff.mp (hc e he),
      fun k hk => SortKey.check_eq_pure_iff.mp (ho k hk)⟩
  · rintro ⟨hv, hc, ho⟩
    exact ⟨fun e he => Expr.examine_eq_pure_iff.mpr (hv e he),
      fun e he => Expr.expect_boolean_eq_pure_iff.mpr (hc e he),
      fun k hk => SortKey.check_eq_pure_iff.mpr (ho k hk)⟩

lemma Clauses.WellTyped.keysComplete {R : String → Option Signature} {c : Clauses}
    (h : c.WellTyped R) : c.KeysComplete :=
  fun k hk => Or.inr (Expr.complete_of_isSortable (h.order k hk))

/-- The names of a plan are right if tables can be told apart and every access is of one. -/
lemma Plan.checkNames_eq_nil_iff {p : Plan} :
    p.checkNames = [] ↔
      ((TableRef.aliases p.tables).Nodup ∧ (TableRef.plainNames p.tables).Nodup) ∧
        ∀ r ∈ p.columnRefs, (p.tables.map TableRef.correlationName).count r.table = 1 := by
  rw [checkNames, List.append_eq_nil_iff, TableRef.duplicates_eq_nil_iff,
    ColumnRef.unresolved_eq_nil_iff]

/-- A plan is accepted if no operator is missing in it, and if it is well formed. -/
lemma Plan.check_eq_pure_iff {Γ : Env} {p : Plan} :
    p.check Γ = pure () ↔ (∀ o ∈ p.operators, o.isHole = false) ∧ p.WellFormed Γ.lookup := by
  rw [check_iff stepwise_eq_pure, reportAll_eq_pure_iff, checkNames_eq_nil_iff, forall₂_and]
  simp only [Clauses.pass_eq_pure_iff]
  constructor
  · rintro ⟨⟨hgiven, hclauses⟩, ⟨haliases, hnames⟩, hcolumns⟩
    exact ⟨hgiven, hclauses, haliases, hnames, hcolumns⟩
  · rintro ⟨hgiven, hclauses, haliases, hnames, hcolumns⟩
    exact ⟨⟨hgiven, hclauses⟩, ⟨haliases, hnames⟩, hcolumns⟩

/-! ### Acceptance of statements -/

namespace Statement

variable {Γ : Env} {s : Statement}

/-- The accesses in a list of expressions with one table in scope. -/
lemma unresolved_singleton_eq_nil_iff {t : String} {es : List Expr} :
    ColumnRef.unresolved [t] (es.flatMap Expr.columnRefs) = [] ↔
      ∀ e ∈ es, ∀ r ∈ e.columnRefs, r.table = t := by
  rw [ColumnRef.unresolved_eq_nil_iff, List.forall_mem_flatMap]
  refine forall₂_congr fun e _ => forall₂_congr fun r _ => ?_
  by_cases h : r.table = t
  · simp [h]
  · simp [h, Ne.symm h]

/-- The columns of a statement are right if all of them are accessed by the name of its table. -/
lemma columnFindings_eq_nil_iff :
    s.columnFindings = [] ↔
      ∀ t ∈ s.target?, ∀ e ∈ s.clauses.exprs, ∀ r ∈ e.columnRefs, r.table = t := by
  cases s with
  | update u =>
      rw [columnFindings, unresolved_singleton_eq_nil_iff]
      simp only [mem_exprs_update, target?, Option.mem_some_iff, forall_eq']
  | delete d =>
      rw [columnFindings, unresolved_singleton_eq_nil_iff]
      simp only [mem_exprs_delete, target?, Option.mem_some_iff, forall_eq']
  | _ => simp [columnFindings, target?]

/-- A statement is accepted if nothing is missing that its check needs, and if it is well formed. -/
lemma check_eq_pure_iff : s.check Γ = pure () ↔ s.Checkable ∧ s.WellFormed Γ.lookup := by
  constructor
  · intro h
    refine ⟨isSome_check_iff.mp (by rw [h]; rfl), ?_⟩
    have hpass := (check_iff stepwise_eq_pure).mp h
    exact ⟨fun p hp => (Plan.check_eq_pure_iff.mp (hpass.plans p hp)).2,
      Clauses.pass_eq_pure_iff.mp hpass.clauses,
      columnFindings_eq_nil_iff.mp (reportAll_eq_pure_iff.mp hpass.columns),
      fun e he => (Expr.checkStandalone_eq_pure_iff.mp (hpass.standalone e he)).2⟩
  · rintro ⟨hc, hw⟩
    refine (check_iff stepwise_eq_pure).mpr ⟨hc.query, fun p hp => ?_, ?_, ?_, fun e he => ?_⟩
    · exact Plan.check_eq_pure_iff.mpr ⟨fun o ho => (hc.plans p hp o ho).1, hw.plans p hp⟩
    · exact Clauses.pass_eq_pure_iff.mpr hw.clauses
    · exact reportAll_eq_pure_iff.mpr (columnFindings_eq_nil_iff.mpr hw.columns)
    · exact Expr.checkStandalone_eq_pure_iff.mpr ⟨hc.standalone e he, hw.standalone e he⟩

lemma WellFormed.keysComplete {R : String → Option Signature} (h : s.WellFormed R) :
    s.KeysComplete :=
  ⟨fun p hp o ho => ((h.plans p hp).clauses o ho).keysComplete, h.clauses.keysComplete⟩

/-- With complete subscripts, a statement is accepted if it is complete and well formed. -/
lemma check_eq_pure_iff_complete (hs : s.SubscriptsComplete) :
    s.check Γ = pure () ↔ s.Complete ∧ s.WellFormed Γ.lookup := by
  rw [check_eq_pure_iff]
  exact and_congr_left fun hw => (complete_iff_checkable hs hw.keysComplete).symm

end Statement

/-! ### Acceptance of programs -/

namespace Program

/-- The analysis finds nothing if it runs to its end without a finding. -/
lemma analyze_eq_nil_iff_diagnose {P : Program} :
    P.analyze = some [] ↔ P.diagnose = pure () := by
  rw [analyze, complete?, eq_pure_iff]
  cases P.diagnose.result <;> simp

/-- **Acceptance is well-formedness.** Provided that subscripts are complete wherever a table is in
scope, the analysis runs to its end without a finding exactly for the well-formed programs. -/
theorem analyze_eq_nil_iff_wellFormed (P : Program) (hP : P.SubscriptsComplete) :
    P.analyze = some [] ↔ P.WellFormed := by
  have hmem {s : Statement} : s ∈ P.statements ↔ some s ∈ P := by simp [statements]
  rw [analyze_eq_nil_iff_diagnose, diagnose, check, forM_eq_pure_iff]
  constructor
  · intro h
    have hgiven : ∀ s ∈ P, s.isSome = true := by
      intro s hs
      cases s with
      | none => exact absurd (h none hs) (incomplete_ne_pure ())
      | some s => rfl
    have hstatement : ∀ s ∈ P.statements, s.Complete ∧ s.WellFormed P.resolve := by
      intro s hs
      rw [← lookup_env]
      exact (Statement.check_eq_pure_iff_complete (hP s hs)).mp (h _ (hmem.mp hs))
    exact ⟨⟨hgiven, fun s hs => (hstatement s hs).1⟩, fun s hs => (hstatement s hs).2⟩
  · intro h s hs
    obtain ⟨s, rfl⟩ := Option.isSome_iff_exists.mp (h.complete.given s hs)
    refine (Statement.check_eq_pure_iff_complete (hP s (hmem.mpr hs))).mpr ?_
    rw [lookup_env]
    exact ⟨h.complete.statements s (hmem.mpr hs), h.statements s (hmem.mpr hs)⟩

/-- A program that defines a function after its use, joins a table under an alias with another one,
and has a column access inside of a subscript. -/
def tradeReport : Program :=
  [some (.query ⟨[], .sort (.project
      (.filter
        (.join .inner (.scan ⟨"trades", some "t", ⟨1, 1⟩⟩) (.scan ⟨"quotes", none, ⟨1, 2⟩⟩)
          [.binary ⟨2, 1⟩ .equal (.column ⟨2, 2⟩ "t" "id") (.column ⟨2, 3⟩ "quotes" "id")])
        [.binary ⟨3, 1⟩ .less (.call ⟨3, 2⟩ "spread" [.column ⟨3, 3⟩ "t" "bid", .rowId ⟨3, 4⟩])
          (.literal ⟨3, 5⟩ .integer "3")])
      [.index ⟨4, 1⟩ (.column ⟨4, 2⟩ "t" "prices") (.column ⟨4, 3⟩ "quotes" "day")])
      [⟨.column ⟨5, 1⟩ "t" "id", true⟩]⟩),
    some (.function ⟨"spread", ["x", "y"],
      [⟨none, .binary ⟨6, 1⟩ .minus (.ident ⟨6, 2⟩ "x") (.ident ⟨6, 3⟩ "y")⟩]⟩)]

/-- The analysis finds nothing in the program, and so it is well formed: the call comes before the
definition, the table is accessed by its alias, and the access in the subscript counts as well. -/
theorem tradeReport_wellFormed :
    tradeReport.SubscriptsComplete ∧ tradeReport.analyze = some [] ∧ tradeReport.WellFormed := by
  have hs : tradeReport.SubscriptsComplete := by decide
  have ha : tradeReport.analyze = some [] := by decide
  exact ⟨hs, ha, (analyze_eq_nil_iff_wellFormed tradeReport hs).mp ha⟩

end Program

end QueryAnalysis
