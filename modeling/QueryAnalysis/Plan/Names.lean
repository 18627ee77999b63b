import QueryAnalysis.Diagnostic
import QueryAnalysis.Plan.Basic

/-!
The names in a query: which tables are in conflict, and which column accesses do not refer to
exactly one table.

* `distinctBy`: the first member of each group of a list that shares a key.
* `firstPairs`: the first two members of each group that has two.
* `TableRef.conflicts`: the pairs of tables that are reported as duplicates.
* `ColumnRef.resolve`: what is wrong with an access, given the correlation names in scope.
-/

namespace QueryAnalysis

section Grouping

variable {α κ : Type} [DecidableEq κ]

/-- The members of a list whose key did not occur before. -/
def distinctBy (key : α → κ) : List α → List α
  | [] => []
  | a :: as => a :: (distinctBy key as).filter fun b => key b ≠ key a

/-- The members that are kept stay in order. -/
theorem distinctBy_sublist (key : α → κ) (as : List α) : (distinctBy key as).Sublist as := by
  induction as with
  | nil => exact List.Sublist.slnil
  | cons a as ih => exact (List.filter_sublist.trans ih).cons_cons a

/-- No two of them have the same key. -/
theorem pairwise_distinctBy (key : α → κ) (as : List α) :
    (distinctBy key as).Pairwise fun a b => key a ≠ key b := by
  induction as with
  | nil => exact List.Pairwise.nil
  | cons a as ih =>
    refine List.pairwise_cons.mpr ⟨fun b hb => ?_, ih.sublist List.filter_sublist⟩
    have hne : key b ≠ key a := by simpa using (List.mem_filter.mp hb).2
    exact hne.symm

/-- Every key of the list is that of a member that is kept. -/
theorem exists_mem_distinctBy (key : α → κ) {as : List α} {a : α} (h : a ∈ as) :
    ∃ b ∈ distinctBy key as, key b = key a := by
  induction as with
  | nil => exact absurd h List.not_mem_nil
  | cons c as ih =>
    by_cases hc : key a = key c
    · exact ⟨c, List.mem_cons_self, hc.symm⟩
    · have ha : a ∈ as := (List.mem_cons.mp h).resolve_left fun he => hc (he ▸ rfl)
      obtain ⟨b, hb, hk⟩ := ih ha
      refine ⟨b, List.mem_cons_of_mem _ (List.mem_filter.mpr ⟨hb, ?_⟩), hk⟩
      simpa [hk] using hc

/-- The first two members of each group with the same key, in the order in which the keys come up.
Groups of one are left out. -/
def firstPairs (key : α → κ) (as : List α) : List (α × α) :=
  (distinctBy key as).filterMap fun a =>
    match as.filter fun b => key b = key a with
    | first :: second :: _ => some (first, second)
    | _ => none

end Grouping

namespace TableRef

/-- The first two tables under each alias. Tables come with their place in the query, which tells
two of them apart even if they are written alike. -/
def sharedAliases (ts : List TableRef) : List ((TableRef × Nat) × (TableRef × Nat)) :=
  firstPairs (fun t => t.1.aliasName) (ts.zipIdx.filter fun t => t.1.aliasName.isSome)

/-- The first two tables for each combination of name and alias. -/
def sharedBindings (ts : List TableRef) : List ((TableRef × Nat) × (TableRef × Nat)) :=
  firstPairs (fun t => (t.1.name, t.1.aliasName)) ts.zipIdx

/-- The pairs of tables in conflict: those under the same alias, and then those with the same name
and alias, unless the pair is there already. -/
def conflicts (ts : List TableRef) : List ((TableRef × Nat) × (TableRef × Nat)) :=
  let aliases := sharedAliases ts
  aliases ++ (sharedBindings ts).filter (· ∉ aliases)

/-- The findings about tables in conflict. -/
def duplicates (ts : List TableRef) : List Diagnostic :=
  (conflicts ts).map fun c =>
    .duplicateTable c.1.1.fullName c.2.1.fullName c.1.1.pos c.2.1.pos

end TableRef

namespace ColumnRef

/-- What is wrong with an access if the tables in scope have the given correlation names. It has to
refer to exactly one. The names are counted without a bound, which a counter of 32 bits agrees with
as long as there are fewer than `2 ^ 32` tables. -/
def resolve (names : List String) (r : ColumnRef) : Option Diagnostic :=
  match names.count r.table with
  | 0 => some (.unknownCorrelation r.qualifiedName r.pos)
  | 1 => none
  | _ => some (.ambiguousColumn r.qualifiedName r.pos)

/-- The findings about column accesses. Each column is reported at its first access only. -/
def unresolved (names : List String) (rs : List ColumnRef) : List Diagnostic :=
  (distinctBy (fun r => (r.table, r.column)) rs).filterMap (resolve names)

end ColumnRef

end QueryAnalysis
