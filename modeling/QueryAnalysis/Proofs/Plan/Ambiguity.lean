import Mathlib.Data.List.NodupEquivFin
import QueryAnalysis.Proofs.Plan.Duplicates
import QueryAnalysis.Proofs.Plan.Scope

/-!
Tables in conflict and ambiguous accesses. The tables are compared by their aliases and by their
names, the accesses are resolved by counting the tables that go by a name; here it is said how far
the two agree.

* `TableRef.Overlapping`: one table has a name for its alias and another one bears it itself.
* `TableRef.two_le_countP_iff`: two tables go by a name exactly if two tables in conflict do, or
  else in this case.
* `Plan.check_conflicts_ambiguous`: an access to tables in conflict is ambiguous, and an ambiguous
  access is one to tables in conflict, or else to a table with an alias and one without.
-/

namespace QueryAnalysis

/-! ### Tables that go by a name -/

namespace TableRef

variable {ts : List TableRef} {n : String}

/-- Exactly one table has the name for its alias, and exactly one without an alias bears it. -/
def Overlapping (ts : List TableRef) (n : String) : Prop :=
  ts.countP (fun t => t.aliasName = some n) = 1 ∧
    ts.countP (fun t => t.aliasName = none ∧ t.name = n) = 1

/-- The tables that go by a name are those that have it for an alias and those that bear it. -/
lemma countP_answersTo (ts : List TableRef) (n : String) :
    ts.countP (·.AnswersTo n) = ts.countP (fun t => t.aliasName = some n) +
      ts.countP fun t => t.aliasName = none ∧ t.name = n := by
  induction ts with
  | nil => rfl
  | cons t ts ih =>
      simp only [List.countP_cons, ih, decide_eq_true_eq]
      cases h : t.aliasName with
      | none =>
          simp [AnswersTo, h]
          omega
      | some a =>
          simp [AnswersTo, h]
          omega

/-- Of two tables with the same alias there are first ones, and these are in conflict. -/
lemma contested_of_two_le_aliases (h : 2 ≤ ts.countP fun t => t.aliasName = some n) :
    Contested ts n := by
  obtain ⟨i, j, hij, hi⟩ := exists_firstTwoAt h
  have hshare : ShareAlias ts i j := ⟨by rw [hi]; rfl, hij⟩
  have hj : ts[j].aliasName = some n := hij.2.1.trans hi
  refine ⟨(i, j), mem_conflictPlaces.mpr (Or.inl hshare), ?_, ?_⟩
  · exact correlationName_eq_iff.mpr (Or.inl hi)
  · exact correlationName_eq_iff.mpr (Or.inl hj)

/-- The first two tables with the same name and no alias are in conflict. -/
lemma contested_of_two_le_names (h : 2 ≤ ts.countP fun t => t.aliasName = none ∧ t.name = n) :
    Contested ts n := by
  have hbindings : 2 ≤ ts.countP fun t => t.binding = (n, none) := by
    refine h.trans_eq (List.countP_congr fun t _ => ?_)
    simp [binding, and_comm]
  obtain ⟨i, j, hij, hi⟩ := exists_firstTwoAt hbindings
  obtain ⟨hiname, hialias⟩ := Prod.mk.inj hi
  obtain ⟨hjname, hjalias⟩ := Prod.mk.inj (hij.2.1.trans hi)
  have hplain : ¬ ShareAlias ts i j := fun hshare => by
    have hsome := hshare.1
    rw [hialias] at hsome
    cases hsome
  refine ⟨(i, j), mem_conflictPlaces.mpr (Or.inr ⟨hij, hplain⟩), ?_, ?_⟩
  · exact correlationName_eq_iff.mpr (Or.inr ⟨hialias, hiname⟩)
  · exact correlationName_eq_iff.mpr (Or.inr ⟨hjalias, hjname⟩)

/-- **Two tables go by a name** exactly if two tables in conflict do, or one table has it for an
alias and another one bears it. -/
lemma two_le_countP_iff :
    2 ≤ ts.countP (·.AnswersTo n) ↔ Contested ts n ∨ Overlapping ts n := by
  constructor
  · intro h
    rw [countP_answersTo] at h
    by_cases halias : 2 ≤ ts.countP fun t => t.aliasName = some n
    · exact Or.inl (contested_of_two_le_aliases halias)
    by_cases hname : 2 ≤ ts.countP fun t => t.aliasName = none ∧ t.name = n
    · exact Or.inl (contested_of_two_le_names hname)
    · exact Or.inr ⟨by omega, by omega⟩
  · rintro (⟨q, hq, hfirst, hsecond⟩ | ⟨halias, hname⟩)
    · have hnames : (ts.map correlationName).Duplicate n := by
        rw [List.duplicate_iff_exists_distinct_get]
        have hlt := (correlationName_of_mem_conflictPlaces hq).1
        refine ⟨q.1.cast (by simp), q.2.cast (by simp), hlt, ?_, ?_⟩
        · simpa using hfirst.symm
        · simpa using hsecond.symm
      rw [← ColumnRef.count_correlationName]
      exact List.duplicate_iff_two_le_count.mp hnames
    · rw [countP_answersTo, halias, hname]

end TableRef

/-! ### Accesses -/

namespace ColumnRef

variable {ts : List TableRef} {rs : List ColumnRef} {r : ColumnRef}

/-- An access is ambiguous if two tables go by the name that it uses. -/
lemma verdict_of_two_le_countP (h : 2 ≤ ts.countP (·.AnswersTo r.table)) :
    r.verdict ts = some (.ambiguousColumn r.qualifiedName r.pos) := by
  have hsome : ¬ ∀ t ∈ ts, ¬ t.AnswersTo r.table := fun hnone => by
    have : ts.countP (·.AnswersTo r.table) = 0 := by simpa [List.countP_eq_zero] using hnone
    omega
  rw [verdict, if_neg hsome, if_pos h]

/-- An access is only ambiguous if two tables go by its name. -/
lemma two_le_countP_of_verdict {d : Diagnostic} (h : r.verdict ts = some d)
    (hd : d.kind = .ambiguousColumn) : 2 ≤ ts.countP (·.AnswersTo r.table) := by
  rw [verdict] at h
  split_ifs at h with hnone htwo
  · cases h
    cases hd
  · exact htwo

/-- The findings about a column that two tables have: there is one, and it is that the access is
ambiguous. -/
lemma filter_reports_of_two_le_countP (hr : r ∈ rs) (h : 2 ≤ ts.countP (·.AnswersTo r.table)) :
    ∃ i, (reports ts rs).filter (fun a => rs[a.1].table = r.table ∧ rs[a.1].column = r.column) =
      [(i, .ambiguousColumn r.qualifiedName rs[i].pos)] := by
  have hkey : (r.table, r.column) ∈ (List.finRange rs.length).map
      fun i => (rs[i].table, rs[i].column) := by
    obtain ⟨i, hi, rfl⟩ := List.getElem_of_mem hr
    exact List.mem_map.mpr ⟨⟨i, hi⟩, List.mem_finRange _, rfl⟩
  obtain ⟨i, hi, hfilter⟩ := exists_filter_distinctBy hkey
  rw [distinctBy_finRange (fun r : ColumnRef => (r.table, r.column))] at hfilter
  obtain ⟨htable, hcolumn⟩ := Prod.mk.inj hi
  have hverdict : rs[i].verdict ts = some (.ambiguousColumn r.qualifiedName rs[i].pos) := by
    rw [verdict_of_two_le_countP (htable ▸ h), qualifiedName, qualifiedName, htable, hcolumn]
  -- the findings about the column are those at its first place
  have hselect (l : List (Fin rs.length)) :
      (l.filterMap fun j => (rs[j].verdict ts).map fun d => (j, d)).filter
          (fun a => rs[a.1].table = r.table ∧ rs[a.1].column = r.column) =
        (l.filter fun j => (rs[j].table, rs[j].column) = (r.table, r.column)).filterMap
          fun j => (rs[j].verdict ts).map fun d => (j, d) := by
    rw [List.filter_filterMap, List.filterMap_filter]
    refine List.filterMap_congr fun j _ => ?_
    cases rs[j].verdict ts <;> simp [Option.filter]
  refine ⟨i, ?_⟩
  rw [reports, hselect, hfilter, List.filterMap_cons, hverdict]
  rfl

end ColumnRef

/-! ### Plans -/

namespace Plan

/-- Of the findings about a plan, those about column accesses are the verdicts on its accesses. -/
lemma filter_columns_check {Γ : Env} {p : Plan} (h : (p.check Γ).result.isSome) :
    ((p.check Γ).diagnostics.filter fun d =>
      d.kind = .unknownCorrelation ∨ d.kind = .ambiguousColumn) =
        ColumnRef.verdicts p.tables p.columnRefs := by
  obtain ⟨ds, hds, hcheck⟩ := exists_diagnostics_check h
  have hbefore : ((ds ++ TableRef.duplicates p.tables).filter fun d =>
      d.kind = .unknownCorrelation ∨ d.kind = .ambiguousColumn) = [] := by
    refine List.filter_eq_nil_iff.mpr fun d hd => ?_
    rcases List.mem_append.mp hd with hd | hd
    · simpa using (Diagnostic.kind_of_aboutNames_eq_false (hds d hd)).2
    · simp [TableRef.kind_of_mem_duplicates hd]
  rw [hcheck, ← List.append_assoc, List.filter_append, hbefore, List.nil_append,
    ← ColumnRef.unresolved_eq_verdicts]
  exact List.filter_eq_self.mpr fun d hd => by simpa using ColumnRef.kind_of_mem_unresolved hd

/-- **Conflicts and ambiguities.** If the check of a plan runs to its end, then any two tables that
are cited as being in conflict go by the same name, and every column that is accessed by this name
is reported once, as ambiguous. If, the other way round, an access is reported as ambiguous, then
two tables that go by the name it uses are cited as being in conflict, or exactly one table has the
name for its alias and exactly one without an alias bears it. -/
theorem check_conflicts_ambiguous (Γ : Env) (p : Plan) (h : (p.check Γ).result.isSome) :
    ((p.check Γ).diagnostics.filter fun d => d.kind = .duplicateTable) =
        (TableRef.conflictPlaces p.tables).map (TableRef.citation p.tables) ∧
      ((p.check Γ).diagnostics.filter fun d =>
        d.kind = .unknownCorrelation ∨ d.kind = .ambiguousColumn) =
          (ColumnRef.reports p.tables p.columnRefs).map Prod.snd ∧
      (∀ q ∈ TableRef.conflictPlaces p.tables, ∃ n,
        p.tables[q.1].correlationName = n ∧ p.tables[q.2].correlationName = n ∧
          ∀ r ∈ p.columnRefs, r.table = n →
            ∃ i, (ColumnRef.reports p.tables p.columnRefs).filter (fun a =>
                p.columnRefs[a.1].table = r.table ∧ p.columnRefs[a.1].column = r.column) =
              [(i, .ambiguousColumn r.qualifiedName p.columnRefs[i].pos)]) ∧
      ∀ a ∈ ColumnRef.reports p.tables p.columnRefs, a.2.kind = .ambiguousColumn →
        TableRef.Contested p.tables p.columnRefs[a.1].table ∨
          TableRef.Overlapping p.tables p.columnRefs[a.1].table := by
  refine ⟨(filter_duplicateTable_check h).trans TableRef.duplicates_eq_places,
    (filter_columns_check h).trans ColumnRef.map_snd_reports.symm, fun q hq => ?_, ?_⟩
  · have hname := (TableRef.correlationName_of_mem_conflictPlaces hq).2
    refine ⟨p.tables[q.1].correlationName, rfl, hname, fun r hr htable => ?_⟩
    have hcontested : TableRef.Contested p.tables r.table :=
      ⟨q, hq, htable.symm, hname.trans htable.symm⟩
    exact ColumnRef.filter_reports_of_two_le_countP hr
      (TableRef.two_le_countP_iff.mpr (Or.inl hcontested))
  · intro a ha hkind
    obtain ⟨i, -, hi⟩ := List.mem_filterMap.mp ha
    obtain ⟨d, hd, rfl⟩ := Option.map_eq_some_iff.mp hi
    exact TableRef.two_le_countP_iff.mp (ColumnRef.two_le_countP_of_verdict hd hkind)

/-- A plan with two tables under the alias `t`, with the table `prices` twice, and with a table that
bears the alias of another one. Each of the three names is used in an access, and one column is
accessed twice. -/
def spreadPlan : Plan :=
  .filter
    (.join .inner
      (.join .cross (.scan ⟨"trades", some "t", ⟨1, 1⟩⟩) (.scan ⟨"quotes", some "t", ⟨1, 2⟩⟩)
        [.binary ⟨2, 1⟩ .less (.column ⟨2, 2⟩ "t" "price") (.column ⟨2, 3⟩ "prices" "last")])
      (.join .cross
        (.join .cross (.scan ⟨"prices", none, ⟨1, 3⟩⟩) (.scan ⟨"books", some "b", ⟨1, 4⟩⟩) [])
        (.join .cross (.scan ⟨"prices", none, ⟨1, 5⟩⟩) (.scan ⟨"b", none, ⟨1, 6⟩⟩) []) [])
      [.column ⟨3, 1⟩ "t" "price"])
    [.binary ⟨4, 1⟩ .equal (.column ⟨4, 2⟩ "b" "id") (.column ⟨4, 3⟩ "t" "id")]

/-- Two pairs of tables are in conflict, and the accesses by their names are ambiguous. So is the
one by the name `b`, which is an alias in one place and a table in another, but no conflict. The
access at the second place of `t.price` is not reported again. -/
theorem spreadPlan_conflicts_ambiguous :
    (spreadPlan.check .builtins).result.isSome ∧
      ((spreadPlan.check .builtins).diagnostics.filter fun d => d.kind = .duplicateTable) =
        [.duplicateTable "trades as t" "quotes as t" ⟨1, 1⟩ ⟨1, 2⟩,
          .duplicateTable "prices" "prices" ⟨1, 3⟩ ⟨1, 5⟩] ∧
      ((spreadPlan.check .builtins).diagnostics.filter fun d =>
        d.kind = .unknownCorrelation ∨ d.kind = .ambiguousColumn) =
          [.ambiguousColumn "b.id" ⟨4, 2⟩, .ambiguousColumn "t.id" ⟨4, 3⟩,
            .ambiguousColumn "t.price" ⟨3, 1⟩, .ambiguousColumn "prices.last" ⟨2, 3⟩] ∧
      TableRef.Overlapping spreadPlan.tables "b" := by
  have h : (spreadPlan.check .builtins).result.isSome := by decide
  obtain ⟨hcited, hreported, -, hambiguous⟩ := check_conflicts_ambiguous .builtins spreadPlan h
  refine ⟨h, hcited.trans (by decide), hreported.trans (by decide), ?_⟩
  -- no two tables in conflict go by the name `b`
  have hfree : ¬ TableRef.Contested spreadPlan.tables "b" := by decide
  have hreport : (⟨0, by decide⟩, .ambiguousColumn "b.id" ⟨4, 2⟩) ∈
      ColumnRef.reports spreadPlan.tables spreadPlan.columnRefs := by decide
  exact (hambiguous _ hreport rfl).resolve_left hfree

end Plan

end QueryAnalysis
