import QueryAnalysis.Proofs.Clauses
import QueryAnalysis.Proofs.Expr.Examined

/-!
Which parts of a plan or a statement have to be there.

* `Plan.Complete`, `Statement.Complete`: nothing is missing at any depth.
* `Plan.Checkable`, `Statement.Checkable`: nothing is missing that a check needs. Subscripts are
  looked into only where no table is in scope, and sort keys nowhere.
* `Plan.isSome_check_iff`, `Statement.isSome_check_iff`: a check runs to its end exactly on the
  checkable trees.
* `Plan.complete_iff_checkable`, `Statement.complete_iff_checkable`: the notions agree if subscripts
  and sort keys are either missing or complete themselves.
-/

namespace QueryAnalysis

open Diagnosis

/-! ### Single expressions -/

namespace Expr

/-- A value is examined to the end exactly if the typing finds everything it looks at. -/
lemma isSome_examine (Γ : Env) (e : Expr) :
    (e.examine Γ).result.isSome = true ↔ e.Examinable := by
  rw [examine, isSome_then, isSome_infer_iff]
  exact and_iff_left rfl

/-- What is expected of an expression has no influence on whether the check runs to its end. -/
lemma isSome_expect_iff (Γ : Env) (S : Expectation) (e : Expr) :
    (e.expect Γ S).result.isSome = true ↔ e.Examinable := by
  rw [isSome_expect, isSome_infer_iff]

/-- Outside of queries every node is looked at, so nothing at all may be missing. -/
lemma isSome_checkStandalone (e : Expr) :
    e.checkStandalone.result.isSome = true ↔ e.Complete := by
  rw [checkStandalone, isSome_forM, Complete]
  refine forall₂_congr fun n _ => ?_
  cases h : n.isHole with
  | true => simp [checkStandaloneNode, h]
  | false => cases hr : n.needsRow <;> simp [checkStandaloneNode, h, hr]

/-- A name or a column access has no parts that could be missing. -/
lemma complete_of_isSortable {e : Expr} (h : e.isSortable = true) : e.Complete := by
  cases e <;> simp_all [isSortable, Complete, preorder, isHole]

end Expr

/-- A sort key only has to be there. What is inside of it is not looked at. -/
lemma SortKey.isSome_check (k : SortKey) :
    k.check.result.isSome = true ↔ k.value.isHole = false := by
  cases h : k.value.isHole with
  | true => simp [check, h]
  | false => cases hs : k.value.isSortable <;> simp [check, h, hs]

/-! ### Clauses -/

namespace Clauses

/-- Nothing is missing in the clauses. -/
def Complete (c : Clauses) : Prop :=
  ∀ e ∈ c.exprs, e.Complete

/-- Nothing is missing that the checks of the clauses need. -/
structure Checkable (c : Clauses) : Prop where
  values : ∀ e ∈ c.values, e.Examinable
  conditions : ∀ e ∈ c.conditions, e.Examinable
  order : ∀ k ∈ c.order, k.value.isHole = false

/-- The subscripts that are given are complete. -/
def SubscriptsComplete (c : Clauses) : Prop :=
  ∀ e ∈ c.exprs, e.SubscriptsComplete

instance : DecidablePred SubscriptsComplete := fun c =>
  inferInstanceAs (Decidable (∀ e ∈ c.exprs, e.SubscriptsComplete))

/-- The sort keys that are given are complete. -/
def KeysComplete (c : Clauses) : Prop :=
  ∀ k ∈ c.order, k.value.isHole = true ∨ k.value.Complete

instance : DecidablePred KeysComplete := fun c =>
  inferInstanceAs (Decidable (∀ k ∈ c.order, k.value.isHole = true ∨ k.value.Complete))

variable {c : Clauses}

/-- With complete subscripts and sort keys, what the checks look at is all there is. -/
lemma complete_iff_checkable (hs : c.SubscriptsComplete) (hk : c.KeysComplete) :
    c.Complete ↔ c.Checkable := by
  obtain ⟨hvalues, hconditions, -⟩ := forall_mem_exprs_iff.mp hs
  rw [Complete, forall_mem_exprs_iff]
  constructor
  · rintro ⟨hv, hc, ho⟩
    exact ⟨fun e he => (hv e he).examinable, fun e he => (hc e he).examinable,
      fun k hkey => (Expr.complete_iff.mp (ho k hkey)).1⟩
  · rintro ⟨hv, hc, ho⟩
    exact ⟨fun e he => (hv e he).complete (hvalues e he),
      fun e he => (hc e he).complete (hconditions e he),
      fun k hkey => (hk k hkey).resolve_left (by simp [ho k hkey])⟩

/-- The checks of the clauses run to their end exactly if nothing is missing that they need. -/
lemma pass_isSome_iff {Γ : Env} :
    c.Pass (fun x => x.result.isSome = true) Γ ↔ c.Checkable := by
  constructor
  · rintro ⟨hv, hc, ho⟩
    exact ⟨fun e he => (Expr.isSome_examine Γ e).mp (hv e he),
      fun e he => (Expr.isSome_expect_iff Γ _ e).mp (hc e he),
      fun k hk => (SortKey.isSome_check k).mp (ho k hk)⟩
  · rintro ⟨hv, hc, ho⟩
    exact ⟨fun e he => (Expr.isSome_examine Γ e).mpr (hv e he),
      fun e he => (Expr.isSome_expect_iff Γ _ e).mpr (hc e he),
      fun k hk => (SortKey.isSome_check k).mpr (ho k hk)⟩

end Clauses

/-! ### Plans -/

namespace Plan

/-- No input is missing, and nothing in the expressions. -/
def Complete (p : Plan) : Prop :=
  ∀ o ∈ p.operators, o.isHole = false ∧ o.clauses.Complete

/-- No input is missing, and nothing that the checks of the expressions need. -/
def Checkable (p : Plan) : Prop :=
  ∀ o ∈ p.operators, o.isHole = false ∧ o.clauses.Checkable

/-- The subscripts that are given are complete. -/
def SubscriptsComplete (p : Plan) : Prop :=
  ∀ o ∈ p.operators, o.clauses.SubscriptsComplete

instance : DecidablePred SubscriptsComplete := fun p =>
  inferInstanceAs (Decidable (∀ o ∈ p.operators, o.clauses.SubscriptsComplete))

/-- The sort keys that are given are complete. -/
def KeysComplete (p : Plan) : Prop :=
  ∀ o ∈ p.operators, o.clauses.KeysComplete

instance : DecidablePred KeysComplete := fun p =>
  inferInstanceAs (Decidable (∀ o ∈ p.operators, o.clauses.KeysComplete))

/-- The same for plans, operator by operator. -/
lemma complete_iff_checkable {p : Plan} (hs : p.SubscriptsComplete) (hk : p.KeysComplete) :
    p.Complete ↔ p.Checkable :=
  forall₂_congr fun o ho =>
    and_congr_right fun _ => Clauses.complete_iff_checkable (hs o ho) (hk o ho)

/-- The check of a plan runs to its end exactly if nothing is missing that it needs. The report on
the names never fails. -/
lemma isSome_check_iff {Γ : Env} {p : Plan} :
    (p.check Γ).result.isSome = true ↔ p.Checkable := by
  rw [check_iff stepwise_isSome]
  simp only [Clauses.pass_isSome_iff]
  exact and_iff_left rfl

end Plan

/-! ### Statements -/

namespace Statement

/-- No required part is missing: neither the query, nor anything in its plans or in the clauses. -/
structure Complete (s : Statement) : Prop where
  query : s.QueryGiven
  plans : ∀ p ∈ s.plans, p.Complete
  clauses : s.clauses.Complete

/-- Nothing is missing that the check of the statement needs. -/
structure Checkable (s : Statement) : Prop where
  query : s.QueryGiven
  plans : ∀ p ∈ s.plans, p.Checkable
  clauses : s.clauses.Checkable
  standalone : ∀ e ∈ s.standaloneExprs, e.Complete

/-- Wherever a table is in scope, the subscripts that are given are complete. -/
def SubscriptsComplete (s : Statement) : Prop :=
  (∀ p ∈ s.plans, p.SubscriptsComplete) ∧ (s.target?.isSome → s.clauses.SubscriptsComplete)

instance : DecidablePred SubscriptsComplete := fun s =>
  inferInstanceAs (Decidable
    ((∀ p ∈ s.plans, p.SubscriptsComplete) ∧ (s.target?.isSome → s.clauses.SubscriptsComplete)))

/-- The sort keys that are given are complete. -/
def KeysComplete (s : Statement) : Prop :=
  (∀ p ∈ s.plans, p.KeysComplete) ∧ s.clauses.KeysComplete

instance : DecidablePred KeysComplete := fun s =>
  inferInstanceAs (Decidable ((∀ p ∈ s.plans, p.KeysComplete) ∧ s.clauses.KeysComplete))

/-- The same for statements. Where no table is in scope, the clauses hold nothing but sort keys and
the expressions that are checked on their own, and the latter have to be complete anyway. -/
lemma complete_iff_checkable {s : Statement} (hs : s.SubscriptsComplete) (hk : s.KeysComplete) :
    s.Complete ↔ s.Checkable := by
  have hplans : (∀ p ∈ s.plans, p.Complete) ↔ ∀ p ∈ s.plans, p.Checkable :=
    forall₂_congr fun p hp => Plan.complete_iff_checkable (hs.1 p hp) (hk.1 p hp)
  have hclauses : s.clauses.Complete ↔
      s.clauses.Checkable ∧ ∀ e ∈ s.standaloneExprs, e.Complete := by
    cases ht : s.target? with
    | some t =>
        have halone : s.standaloneExprs = [] := by
          cases s <;> simp_all [target?, standaloneExprs]
        rw [Clauses.complete_iff_checkable (hs.2 (by simp [ht])) hk.2, halone]
        simp
    | none =>
        obtain ⟨hvalues, hconditions⟩ := clauses_of_target?_eq_none ht
        rw [Clauses.Complete, Clauses.forall_mem_exprs_iff, hvalues, hconditions]
        constructor
        · rintro ⟨hv, -, ho⟩
          exact ⟨⟨fun e he => (hv e (hvalues ▸ he)).examinable, by simp [hconditions],
            fun k hkey => (Expr.complete_iff.mp (ho k hkey)).1⟩, hv⟩
        · rintro ⟨hc, halone⟩
          exact ⟨halone, List.forall_mem_nil _,
            fun k hkey => (hk.2 k hkey).resolve_left (by simp [hc.order k hkey])⟩
  constructor
  · intro h
    obtain ⟨hcheckable, halone⟩ := hclauses.mp h.clauses
    exact ⟨h.query, hplans.mp h.plans, hcheckable, halone⟩
  · intro h
    exact ⟨h.query, hplans.mpr h.plans, hclauses.mpr ⟨h.clauses, h.standalone⟩⟩

/-- The check of a statement runs to its end exactly if nothing is missing that it needs, whatever
functions are in scope. -/
lemma isSome_check_iff {Γ : Env} {s : Statement} :
    (s.check Γ).result.isSome = true ↔ s.Checkable := by
  rw [check_iff stepwise_isSome]
  constructor
  · intro h
    exact ⟨h.query, fun p hp => Plan.isSome_check_iff.mp (h.plans p hp),
      Clauses.pass_isSome_iff.mp h.clauses,
      fun e he => (Expr.isSome_checkStandalone e).mp (h.standalone e he)⟩
  · intro h
    exact ⟨h.query, fun p hp => Plan.isSome_check_iff.mpr (h.plans p hp),
      Clauses.pass_isSome_iff.mpr h.clauses, rfl,
      fun e he => (Expr.isSome_checkStandalone e).mpr (h.standalone e he)⟩

end Statement

end QueryAnalysis
