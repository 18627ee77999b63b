import QueryAnalysis.Proofs.Plan.Findings
import QueryAnalysis.Proofs.Plan.Places
import QueryAnalysis.Proofs.Traversal

/-!
Column accesses and the tables that they refer to.

* `TableRef.AnswersTo`: a table is known under its alias, and under its name only if it has none.
* `ColumnRef.verdict`: what is wrong with an access, from the tables that answer to it.
* `ColumnRef.unresolved_eq_verdicts`: a column is judged at the first place where it is accessed.
* `ColumnRef.reports`: the verdicts, each with the place of the access.
* `Plan.check_judges_columns`: so it is for a whole plan.
-/

namespace QueryAnalysis

/-- The table can be referred to by the given name. An alias hides the table's own name. -/
def TableRef.AnswersTo (t : TableRef) (n : String) : Prop :=
  t.aliasName = some n ∨ t.aliasName = none ∧ t.name = n

instance (t : TableRef) (n : String) : Decidable (t.AnswersTo n) :=
  inferInstanceAs (Decidable (_ ∨ _))

/-- The correlation name of a table is the one that it answers to. -/
lemma TableRef.correlationName_eq_iff {t : TableRef} {n : String} :
    t.correlationName = n ↔ t.AnswersTo n := by
  rw [correlationName, AnswersTo]
  cases t.aliasName <;> simp

namespace ColumnRef

/-- What is wrong with an access to one of the given tables: no table answers to its name, or two of
them do. -/
def verdict (ts : List TableRef) (r : ColumnRef) : Option Diagnostic :=
  if ∀ t ∈ ts, ¬ t.AnswersTo r.table then some (.unknownCorrelation r.qualifiedName r.pos)
  else if 2 ≤ ts.countP (·.AnswersTo r.table) then some (.ambiguousColumn r.qualifiedName r.pos)
  else none

/-- The verdicts on a list of accesses, each column being judged at the first place where it is
accessed. A column is given by the names of its table and its own. -/
def verdicts (ts : List TableRef) (rs : List ColumnRef) : List Diagnostic :=
  ((List.finRange rs.length).filter (FirstAt (fun r => (r.table, r.column)) rs)).filterMap
    fun i => rs[i].verdict ts

variable {ts : List TableRef} {rs : List ColumnRef} {r : ColumnRef}

lemma count_correlationName (ts : List TableRef) (n : String) :
    (ts.map TableRef.correlationName).count n = ts.countP (·.AnswersTo n) := by
  rw [List.count, List.countP_map]
  refine List.countP_congr fun t _ => ?_
  simp [TableRef.correlationName_eq_iff]

/-- The check comes to the verdict on an access by counting names. -/
lemma resolve_eq_verdict : r.resolve (ts.map TableRef.correlationName) = r.verdict ts := by
  have hnone : ts.countP (·.AnswersTo r.table) = 0 ↔ ∀ t ∈ ts, ¬ t.AnswersTo r.table := by
    simp [List.countP_eq_zero]
  rw [resolve, verdict, count_correlationName]
  split
  · next h => rw [if_pos (hnone.mp h)]
  · next h => rw [if_neg (hnone.not.mp (by omega)), if_neg (by omega)]
  · next h0 h1 =>
      have hpos : ts.countP (·.AnswersTo r.table) ≠ 0 := h0
      have hone : ts.countP (·.AnswersTo r.table) ≠ 1 := h1
      rw [if_neg (hnone.not.mp hpos), if_pos (by omega)]

/-- **The findings about accesses are the verdicts** on them, in the order in which the columns come
up. -/
lemma unresolved_eq_verdicts :
    unresolved (ts.map TableRef.correlationName) rs = verdicts ts rs := by
  rw [unresolved, distinctBy_eq_places, List.filterMap_map, verdicts]
  exact List.filterMap_congr fun i _ => resolve_eq_verdict

/-- The findings about a list of accesses, each with the place of the access that it is about. -/
def reports (ts : List TableRef) (rs : List ColumnRef) : List (Fin rs.length × Diagnostic) :=
  ((List.finRange rs.length).filter (FirstAt (fun r => (r.table, r.column)) rs)).filterMap
    fun i => (rs[i].verdict ts).map fun d => (i, d)

lemma map_snd_reports : (reports ts rs).map Prod.snd = verdicts ts rs := by
  rw [reports, verdicts, List.map_filterMap]
  refine List.filterMap_congr fun i _ => ?_
  rw [Option.map_map]
  exact Option.map_id'

end ColumnRef

namespace Plan

/-- **The column accesses.** If the check of a plan runs to its end, then its last findings are the
verdicts on the column accesses in the expressions that its operators carry, taken operator by
operator from the root, and depth first within an expression; and no other finding is about a
column access. -/
theorem check_judges_columns (Γ : Env) (p : Plan) (h : (p.check Γ).result.isSome) :
    (∀ e : Expr, e.columnRefs = e.columnRef?.toList ++ e.children.flatMap Expr.columnRefs) ∧
      ∃ ts es before, p.tables? = some ts ∧ p.carried? = some es ∧
        (p.check Γ).diagnostics = before ++ ColumnRef.verdicts ts (es.flatMap Expr.columnRefs) ∧
        ∀ d ∈ before, d.kind ≠ .unknownCorrelation ∧ d.kind ≠ .ambiguousColumn := by
  refine ⟨Expr.columnRefs_eq, ?_⟩
  have hops : ∀ o ∈ p.operators, o.isHole = false := fun o ho => (isSome_check_iff.mp h o ho).1
  obtain ⟨ds, hds, hcheck⟩ := exists_diagnostics_check h
  refine ⟨p.tables, p.operators.flatMap exprs, ds ++ TableRef.duplicates p.tables,
    tables?_eq_some_iff.mpr ⟨hops, rfl⟩, carried?_eq_some_iff.mpr ⟨hops, rfl⟩, ?_, ?_⟩
  · rw [hcheck, ColumnRef.unresolved_eq_verdicts, columnRefs, List.flatMap_assoc,
      List.append_assoc]
  · intro d hd
    rcases List.mem_append.mp hd with hd | hd
    · exact (Diagnostic.kind_of_aboutNames_eq_false (hds d hd)).2
    · rw [TableRef.kind_of_mem_duplicates hd]
      decide

/-- A plan that accesses a table by the name that its alias hides, first of all in a sort key that
is not allowed, two columns that are written alike, one of them in a subscript, and a column of two
tables that go by the same name. -/
def rankingPlan : Plan :=
  .sort
    (.project
      (.filter
        (.join .cross (.scan ⟨"trades", some "t", ⟨1, 1⟩⟩)
          (.join .cross (.scan ⟨"t", none, ⟨1, 2⟩⟩) (.scan ⟨"prices", none, ⟨1, 3⟩⟩) []) [])
        [.binary ⟨2, 1⟩ .equal (.column ⟨2, 2⟩ "trades" "size") (.column ⟨2, 3⟩ "t" "price")])
      [.index ⟨3, 1⟩ (.column ⟨3, 2⟩ "prices" "last") (.column ⟨3, 3⟩ "a.b" "c"),
        .column ⟨3, 4⟩ "a" "b.c", .column ⟨3, 5⟩ "t" "price"])
    [⟨.unary ⟨4, 1⟩ .negate (.column ⟨4, 2⟩ "trades" "size"), true⟩]

/-- The access by the name behind an alias is reported where it stands in the sort key, and not
again in the condition below. The two columns that are written alike are reported both, and the
column of two tables once. -/
theorem rankingPlan_columns :
    (rankingPlan.check .builtins).result.isSome ∧
      ∃ before, (rankingPlan.check .builtins).diagnostics = before ++
        [.unknownCorrelation "trades.size" ⟨4, 2⟩, .unknownCorrelation "a.b.c" ⟨3, 3⟩,
          .unknownCorrelation "a.b.c" ⟨3, 4⟩, .ambiguousColumn "t.price" ⟨3, 5⟩] := by
  have h : (rankingPlan.check .builtins).result.isSome := by decide
  obtain ⟨-, ts, es, before, hts, hes, hcheck, -⟩ := check_judges_columns .builtins rankingPlan h
  obtain rfl : rankingPlan.tables = ts := (tables?_eq_some_iff.mp hts).2
  obtain rfl : rankingPlan.operators.flatMap exprs = es := (carried?_eq_some_iff.mp hes).2
  refine ⟨h, before, hcheck.trans (congrArg _ ?_)⟩
  decide

end Plan

end QueryAnalysis
