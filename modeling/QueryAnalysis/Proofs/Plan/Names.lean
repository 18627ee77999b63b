import Mathlib.Data.List.Nodup
import QueryAnalysis.Plan.Names

/-!
When nothing is wrong with the names in a query.

* `firstPairs_eq_nil_iff`: no group has two members if the keys of the list are distinct.
* `TableRef.duplicates_eq_nil_iff`: no tables are in conflict if the aliases are distinct, and the
  names of the tables without an alias are distinct.
* `ColumnRef.unresolved_eq_nil_iff`: no access is reported if each one has exactly one table that it
  can refer to.
-/

namespace QueryAnalysis

section Grouping

variable {α κ : Type} [DecidableEq κ]

/-- The members that share the key of `a` are as many as the key has occurrences. -/
lemma length_filter_key (key : α → κ) (as : List α) (k : κ) :
    (as.filter fun b => key b = k).length = (as.map key).count k := by
  rw [List.count, List.countP_map, List.countP_eq_length_filter]
  congr 1

/-- No key comes up twice if there is no first pair of any. -/
lemma firstPairs_eq_nil_iff {key : α → κ} {as : List α} :
    firstPairs key as = [] ↔ (as.map key).Nodup := by
  rw [firstPairs, List.filterMap_eq_nil_iff, List.nodup_iff_count_le_one]
  trans ∀ a ∈ distinctBy key as, (as.map key).count (key a) ≤ 1
  · refine forall₂_congr fun a _ => ?_
    rw [← length_filter_key]
    rcases as.filter fun b => key b = key a with _ | ⟨_, _ | ⟨_, _⟩⟩ <;> simp
  constructor
  · intro h k
    by_cases hk : k ∈ as.map key
    · obtain ⟨a, ha, rfl⟩ := List.mem_map.mp hk
      -- the group of `a` is reported under the first member that has its key
      obtain ⟨b, hb, hab⟩ := exists_mem_distinctBy key ha
      exact hab ▸ h b hb
    · rw [List.count_eq_zero.mpr hk]
      exact Nat.zero_le 1
  · exact fun h a _ => h (key a)

end Grouping

/-! ### Tables -/

namespace TableRef

/-- The aliases of the tables that have one. -/
def aliases (ts : List TableRef) : List String :=
  ts.filterMap aliasName

/-- The names of the tables that have no alias. -/
def plainNames (ts : List TableRef) : List String :=
  (ts.filter fun t => t.aliasName = none).map name

lemma map_aliasName_filter (ts : List TableRef) :
    (ts.filter fun t => t.aliasName.isSome).map aliasName = (aliases ts).map some := by
  induction ts with
  | nil => rfl
  | cons t ts ih => cases h : t.aliasName <;> simp_all [aliases]

/-- No alias is shared if all aliases are distinct. -/
lemma sharedAliases_eq_nil_iff {ts : List TableRef} :
    sharedAliases ts = [] ↔ (aliases ts).Nodup := by
  have hplaces : (ts.zipIdx.filter fun t => t.1.aliasName.isSome).map (fun t => t.1.aliasName) =
      (aliases ts).map some := by
    have h := List.filter_map (f := Prod.fst) (l := ts.zipIdx)
      (p := fun t : TableRef => t.aliasName.isSome)
    rw [List.zipIdx_map_fst] at h
    rw [← map_aliasName_filter, h, List.map_map]
    rfl
  rw [sharedAliases, firstPairs_eq_nil_iff, hplaces]
  exact List.nodup_map_iff fun _ _ => Option.some.inj

lemma sharedBindings_eq_nil_iff {ts : List TableRef} :
    sharedBindings ts = [] ↔ (ts.map fun t => (t.name, t.aliasName)).Nodup := by
  have hplaces : ts.zipIdx.map (fun t => (t.1.name, t.1.aliasName)) =
      ts.map fun t => (t.name, t.aliasName) := by
    conv_rhs => rw [← List.zipIdx_map_fst 0 ts, List.map_map]
    rfl
  rw [sharedBindings, firstPairs_eq_nil_iff, hplaces]

/-- Two tables under different aliases, or without an alias under different names, are bound
differently; and under the same alias they are in conflict anyway. -/
lemma nodup_bindings_iff {ts : List TableRef} (h : (aliases ts).Nodup) :
    (ts.map fun t => (t.name, t.aliasName)).Nodup ↔ (plainNames ts).Nodup := by
  rw [aliases, List.Nodup, List.pairwise_filterMap] at h
  rw [plainNames, List.Nodup, List.Nodup, List.pairwise_map, List.pairwise_map,
    List.pairwise_filter]
  refine ⟨fun hb => hb.imp ?_, fun hn => (h.and hn).imp ?_⟩
  · intro s t hst hs ht hname
    simp only [decide_eq_true_eq] at hs ht
    exact hst (by rw [hname, hs, ht])
  · rintro s t ⟨halias, hname⟩ hst
    obtain ⟨h1, h2⟩ := Prod.mk.inj hst
    cases hs : s.aliasName with
    | none => exact hname (by simp [hs]) (by simp [← h2, hs]) h1
    | some a => exact halias a hs a (h2 ▸ hs) rfl

/-- **No tables are in conflict** if the aliases are distinct, and so are the names of the tables
without an alias. -/
lemma duplicates_eq_nil_iff {ts : List TableRef} :
    duplicates ts = [] ↔ (aliases ts).Nodup ∧ (plainNames ts).Nodup := by
  have hconflicts : duplicates ts = [] ↔ sharedAliases ts = [] ∧ sharedBindings ts = [] := by
    rw [duplicates, List.map_eq_nil_iff, conflicts, List.append_eq_nil_iff]
    refine and_congr_right fun h => ?_
    simp [h]
  rw [hconflicts, sharedAliases_eq_nil_iff, sharedBindings_eq_nil_iff]
  exact and_congr_right nodup_bindings_iff

end TableRef

/-! ### Column accesses -/

namespace ColumnRef

/-- An access is right if its qualifier is the name of exactly one table. -/
lemma resolve_eq_none_iff {names : List String} {r : ColumnRef} :
    r.resolve names = none ↔ names.count r.table = 1 := by
  rw [resolve]
  split <;> simp_all

/-- **Every column access is resolved** if each of them has exactly one table to refer to. -/
lemma unresolved_eq_nil_iff {names : List String} {rs : List ColumnRef} :
    unresolved names rs = [] ↔ ∀ r ∈ rs, names.count r.table = 1 := by
  rw [unresolved, List.filterMap_eq_nil_iff]
  simp only [resolve_eq_none_iff]
  constructor
  · intro h r hr
    obtain ⟨r', hr', hkey⟩ := exists_mem_distinctBy (fun r : ColumnRef => (r.table, r.column)) hr
    have htable : r'.table = r.table := (Prod.mk.inj hkey).1
    exact htable ▸ h r' hr'
  · exact fun h r hr => h r ((distinctBy_sublist _ rs).subset hr)

end ColumnRef

end QueryAnalysis
