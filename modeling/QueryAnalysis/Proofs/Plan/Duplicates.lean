import QueryAnalysis.Proofs.Plan.Findings
import QueryAnalysis.Proofs.Plan.Places
import QueryAnalysis.Proofs.Traversal

/-!
Tables in conflict, by their places in the query. A table is known by its place, so that two tables
which are written alike are two tables.

* `TableRef.sharedAliasPlaces`, `TableRef.sharedBindingPlaces`: the places of the first two tables
  under an alias, and of the first two with a name and an alias unless they are such a pair already.
* `TableRef.duplicates_eq_places`: the findings cite the tables at these places.
* `TableRef.nodup_conflictPlaces`: no two tables are cited together twice.
* `TableRef.correlationName_of_mem_conflictPlaces`: two tables in conflict go by the same name, and
  `TableRef.Contested` says which names are concerned.
* `Plan.check_cites_conflicts`: so it is for a whole plan.
-/

namespace QueryAnalysis

namespace TableRef

/-- What a table is bound to: its name, and its alias if it has one. -/
def binding (t : TableRef) : String × Option String :=
  (t.name, t.aliasName)

/-- The tables at the places `i` and `j` have an alias in common, and they are the first two that
have it. -/
def ShareAlias (ts : List TableRef) (i j : Fin ts.length) : Prop :=
  ts[i].aliasName.isSome ∧ FirstTwoAt aliasName ts i j

instance (ts : List TableRef) (i j : Fin ts.length) : Decidable (ShareAlias ts i j) :=
  inferInstanceAs (Decidable (_ ∧ _))

/-- The places of the first two tables under each alias that two of them have, in the order in which
the aliases come up. -/
def sharedAliasPlaces (ts : List TableRef) : List (Fin ts.length × Fin ts.length) :=
  (placePairs ts.length).filter fun q => ShareAlias ts q.1 q.2

/-- The places of the first two tables with each binding that two of them have, in the order in
which the bindings come up, but for those that are the first two under their alias. -/
def sharedBindingPlaces (ts : List TableRef) : List (Fin ts.length × Fin ts.length) :=
  (placePairs ts.length).filter fun q =>
    FirstTwoAt binding ts q.1 q.2 ∧ ¬ ShareAlias ts q.1 q.2

/-- The places of the tables in conflict, in the order of the findings. -/
def conflictPlaces (ts : List TableRef) : List (Fin ts.length × Fin ts.length) :=
  sharedAliasPlaces ts ++ sharedBindingPlaces ts

/-- The finding that cites the tables at two places. -/
def citation (ts : List TableRef) (q : Fin ts.length × Fin ts.length) : Diagnostic :=
  .duplicateTable ts[q.1].fullName ts[q.2].fullName ts[q.1].pos ts[q.2].pos

/-- A table together with its place. -/
def marked (ts : List TableRef) (i : Fin ts.length) : TableRef × Nat :=
  (ts[i], i)

variable {ts : List TableRef}

lemma marked_injective : Function.Injective (marked ts) :=
  fun _ _ h => Fin.ext (Prod.mk.inj h).2

lemma zipIdx_eq_map_marked : ts.zipIdx = (List.finRange ts.length).map (marked ts) := by
  refine List.ext_getElem (by simp) fun n _ _ => ?_
  simp [marked]

/-! ### The pairs by their places -/

/-- Tables without an alias are passed over. Two tables under one alias are the first ones under it
anyway if they are so among those that have an alias. -/
lemma sharedAliases_eq_places :
    sharedAliases ts = (sharedAliasPlaces ts).map (Prod.map (marked ts) (marked ts)) := by
  rw [sharedAliases, zipIdx_eq_map_marked, List.filter_map, firstPairs_map, sharedAliasPlaces]
  refine congrArg _ (firstPairs_eq_filter ((List.pairwise_lt_finRange _).filter _) fun i j => ?_)
  simp only [List.mem_filter, List.mem_finRange, true_and, Function.comp_apply, marked, ShareAlias,
    FirstTwoAt]
  constructor
  · rintro ⟨hi, hij, hkey, hleast⟩
    exact ⟨hi, hkey ▸ hi, hij, hkey, fun m _ => hleast m⟩
  · rintro ⟨hi, -, hij, hkey, hleast⟩
    exact ⟨hi, hij, hkey, fun m hmj hm => hleast m (hm ▸ hi) hmj hm⟩

/-- The pairs with a binding in common, by their places. -/
lemma sharedBindings_eq_places :
    sharedBindings ts = ((placePairs ts.length).filter fun q => FirstTwoAt binding ts q.1 q.2).map
      (Prod.map (marked ts) (marked ts)) := by
  rw [sharedBindings, zipIdx_eq_map_marked, firstPairs_map]
  refine congrArg _ (firstPairs_eq_filter (List.pairwise_lt_finRange _) fun i j => ?_)
  simp [FirstTwoAt, marked, binding]

/-- The pairs in conflict, by their places. -/
lemma conflicts_eq_places :
    conflicts ts = (conflictPlaces ts).map (Prod.map (marked ts) (marked ts)) := by
  have hinj : Function.Injective (Prod.map (marked ts) (marked ts)) :=
    marked_injective.prodMap marked_injective
  rw [conflicts, sharedAliases_eq_places, sharedBindings_eq_places, conflictPlaces,
    List.map_append, List.filter_map, List.filter_filter, sharedBindingPlaces]
  refine congrArg _ (congrArg _ (List.filter_congr fun q _ => ?_))
  -- a pair is left out if it is among the aliases, which is to say that it shares one
  have hmem : Prod.map (marked ts) (marked ts) q ∈
      (sharedAliasPlaces ts).map (Prod.map (marked ts) (marked ts)) ↔ ShareAlias ts q.1 q.2 := by
    rw [List.mem_map_of_injective hinj, sharedAliasPlaces, List.mem_filter, decide_eq_true_eq]
    exact and_iff_right (mem_placePairs q)
  rw [Function.comp_apply, decide_eq_decide.mpr hmem.not, Bool.decide_and]
  exact Bool.and_comm _ _

/-- **The findings about tables, by their places.** -/
lemma duplicates_eq_places : duplicates ts = (conflictPlaces ts).map (citation ts) := by
  rw [duplicates, conflicts_eq_places, List.map_map]
  rfl

/-- No two tables are cited together twice: neither block has a pair twice, and the second one
leaves out what is in the first one. -/
lemma nodup_conflictPlaces : (conflictPlaces ts).Nodup := by
  have hpairs : (placePairs ts.length).Nodup :=
    (List.nodup_finRange _).product (List.nodup_finRange _)
  refine (hpairs.filter _).append (hpairs.filter _) fun q halias hbinding => ?_
  have hshare : ShareAlias ts q.1 q.2 := by simpa using (List.mem_filter.mp halias).2
  have hother : FirstTwoAt binding ts q.1 q.2 ∧ ¬ ShareAlias ts q.1 q.2 := by
    simpa using (List.mem_filter.mp hbinding).2
  exact hother.2 hshare

lemma mem_conflictPlaces {q : Fin ts.length × Fin ts.length} :
    q ∈ conflictPlaces ts ↔
      ShareAlias ts q.1 q.2 ∨ FirstTwoAt binding ts q.1 q.2 ∧ ¬ ShareAlias ts q.1 q.2 := by
  simp [conflictPlaces, sharedAliasPlaces, sharedBindingPlaces, mem_placePairs]

/-- **Tables in conflict go by the same name**, whether they have the alias in common or both the
alias and the name. -/
lemma correlationName_of_mem_conflictPlaces {q : Fin ts.length × Fin ts.length}
    (hq : q ∈ conflictPlaces ts) :
    q.1 < q.2 ∧ ts[q.2].correlationName = ts[q.1].correlationName := by
  rcases mem_conflictPlaces.mp hq with ⟨hsome, hlt, halias, -⟩ | ⟨⟨hlt, hbinding, -⟩, -⟩
  · obtain ⟨a, ha⟩ := Option.isSome_iff_exists.mp hsome
    refine ⟨hlt, ?_⟩
    rw [correlationName, correlationName, halias, ha, Option.getD_some, Option.getD_some]
  · obtain ⟨hname, halias⟩ := Prod.mk.inj hbinding
    exact ⟨hlt, by rw [correlationName, correlationName, hname, halias]⟩

/-- Two tables in conflict go by the name. -/
def Contested (ts : List TableRef) (n : String) : Prop :=
  ∃ q ∈ conflictPlaces ts, ts[q.1].correlationName = n ∧ ts[q.2].correlationName = n

instance (ts : List TableRef) (n : String) : Decidable (Contested ts n) :=
  inferInstanceAs (Decidable (∃ q ∈ conflictPlaces ts,
    ts[q.1].correlationName = n ∧ ts[q.2].correlationName = n))

end TableRef

/-! ### Plans -/

namespace Plan

/-- Of the findings about a plan, those about tables in conflict are the ones of its tables. -/
lemma filter_duplicateTable_check {Γ : Env} {p : Plan} (h : (p.check Γ).result.isSome) :
    ((p.check Γ).diagnostics.filter fun d => d.kind = .duplicateTable) =
      TableRef.duplicates p.tables := by
  obtain ⟨ds, hds, hcheck⟩ := exists_diagnostics_check h
  have hfirst : (ds.filter fun d => d.kind = .duplicateTable) = [] :=
    List.filter_eq_nil_iff.mpr fun d hd => by
      simpa using (Diagnostic.kind_of_aboutNames_eq_false (hds d hd)).1
  have hlast (rs : List ColumnRef) : ((ColumnRef.unresolved
      (p.tables.map TableRef.correlationName) rs).filter fun d => d.kind = .duplicateTable) = [] :=
    List.filter_eq_nil_iff.mpr fun d hd => by
      rcases ColumnRef.kind_of_mem_unresolved hd with hkind | hkind <;> simp [hkind]
  have hmid : ((TableRef.duplicates p.tables).filter fun d => d.kind = .duplicateTable) =
      TableRef.duplicates p.tables :=
    List.filter_eq_self.mpr fun d hd => by simpa using TableRef.kind_of_mem_duplicates hd
  rw [hcheck, List.filter_append, List.filter_append, hfirst, hmid, hlast, List.nil_append,
    List.append_nil]

/-- **The tables in conflict.** If the check of a plan runs to its end, then its findings about
tables cite, in this order, the first two tables under each alias that two tables have, and the
first two tables with each binding that two tables have, unless these are the first two under their
alias. Both blocks are in the order in which the aliases and the bindings come up. So no two tables
are cited together twice, and there is no such finding exactly if the aliases are distinct and the
names of the tables without an alias are distinct. -/
theorem check_cites_conflicts (Γ : Env) (p : Plan) (h : (p.check Γ).result.isSome) :
    ∃ ts, p.tables? = some ts ∧
      ((p.check Γ).diagnostics.filter fun d => d.kind = .duplicateTable) =
        (TableRef.conflictPlaces ts).map (TableRef.citation ts) ∧
      (TableRef.conflictPlaces ts).Nodup ∧
      ((∀ d ∈ (p.check Γ).diagnostics, d.kind ≠ .duplicateTable) ↔
        (TableRef.aliases ts).Nodup ∧ (TableRef.plainNames ts).Nodup) := by
  have hops : ∀ o ∈ p.operators, o.isHole = false := fun o ho => (isSome_check_iff.mp h o ho).1
  have hfilter := filter_duplicateTable_check h
  refine ⟨p.tables, tables?_eq_some_iff.mpr ⟨hops, rfl⟩,
    hfilter.trans TableRef.duplicates_eq_places, TableRef.nodup_conflictPlaces, ?_⟩
  rw [← TableRef.duplicates_eq_nil_iff, ← hfilter, List.filter_eq_nil_iff]
  simp

/-- A plan in which three tables have an alias in common, the first and the last of them also their
name, and two others their alias and their name. The latter are reported under their alias, and
only there. -/
def tradePlan : Plan :=
  .join .cross
    (.join .inner
      (.join .cross (.scan ⟨"trades", some "t", ⟨1, 1⟩⟩) (.scan ⟨"quotes", some "t", ⟨1, 2⟩⟩) [])
      (.join .cross (.scan ⟨"trades", some "t", ⟨1, 3⟩⟩) (.scan ⟨"prices", none, ⟨1, 4⟩⟩) [])
      [.column ⟨2, 1⟩ "t" "price"])
    (.join .cross (.scan ⟨"books", some "b", ⟨1, 5⟩⟩)
      (.join .cross (.scan ⟨"prices", none, ⟨1, 6⟩⟩) (.scan ⟨"books", some "b", ⟨1, 7⟩⟩) []) [])
    [.literal ⟨2, 2⟩ .integer "1"]

/-- The aliases come first. The tables `books` are cited under their alias, and not once more for
their binding; those of the name `trades` are, because the first two tables under their alias are
others. -/
theorem tradePlan_conflicts :
    (tradePlan.check .builtins).result.isSome ∧
      ((tradePlan.check .builtins).diagnostics.filter fun d => d.kind = .duplicateTable) =
        [.duplicateTable "trades as t" "quotes as t" ⟨1, 1⟩ ⟨1, 2⟩,
          .duplicateTable "books as b" "books as b" ⟨1, 5⟩ ⟨1, 7⟩,
          .duplicateTable "trades as t" "trades as t" ⟨1, 1⟩ ⟨1, 3⟩,
          .duplicateTable "prices" "prices" ⟨1, 4⟩ ⟨1, 6⟩] := by
  have h : (tradePlan.check .builtins).result.isSome := by decide
  obtain ⟨ts, hts, hcite, -⟩ := check_cites_conflicts .builtins tradePlan h
  obtain rfl : tradePlan.tables = ts := (tables?_eq_some_iff.mp hts).2
  refine ⟨h, hcite.trans ?_⟩
  decide

end Plan

end QueryAnalysis
