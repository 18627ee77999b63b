import QueryAnalysis.Proofs.Expr.Repair
import QueryAnalysis.Session

/-!
Trees with missing parts, and what becomes of their checks when the parts are supplied.

* `Plan.check_continuedBy`, `Query.check_continuedBy`, `Statement.check_continuedBy`: the check of a
  repaired tree goes on where that of the tree stops.
* `Check.Edited`, `Check.Regular`: the same for any kind of check, and what has to be given in the
  tree for that, because the check looks at it without asking whether it is there.
* `Check.diagnostics_prefix_of_repair`: what is found in a tree, up to its first missing part if
  there is one, is the beginning of what is found in the repaired tree.
-/

namespace QueryAnalysis

open Diagnosis

variable {Γ : Env}

/-! ### Lists of tasks -/

namespace Task

/-- The check that makes up the second list of tasks goes on where that of the first one stops. -/
def Continues (Γ : Env) (ts ts' : List Task) : Prop :=
  (forM ts (run Γ)).ContinuedBy (forM ts' (run Γ))

variable {ts ts' us us' : List Task} {es es' : List Expr}

/-- Later tasks only matter if the earlier ones are done. -/
lemma Continues.append (h : Continues Γ ts ts')
    (hus : (∀ t ∈ ts, (t.run Γ).result.isSome) → Continues Γ us us') :
    Continues Γ (ts ++ us) (ts' ++ us') := by
  rw [Continues, List.forM_append, List.forM_append]
  refine ContinuedBy.bind h fun _ hdone => hus (isSome_forM.mp ?_)
  rw [hdone]
  rfl

/-- Where something is missing, any tasks may go on. -/
lemma continues_missing (ts us' : List Task) : Continues Γ (missing :: ts) us' :=
  incomplete_continuedBy _

lemma continues_value (h : List.Forall₂ (Expr.Edited .repair) es es') :
    Continues Γ (es.map value) (es'.map value) := by
  rw [Continues, List.forM_map, List.forM_map]
  exact .forM (h.imp fun _ _ => Expr.examine_continuedBy)

lemma continues_condition (h : List.Forall₂ (Expr.Edited .repair) es es') :
    Continues Γ (es.map condition) (es'.map condition) := by
  rw [Continues, List.forM_map, List.forM_map]
  exact .forM (h.imp fun _ _ h => Expr.expect_continuedBy h (Expr.infer_continuedBy h))

lemma continues_standalone (h : List.Forall₂ (Expr.Edited .repair) es es') :
    Continues Γ (es.map standalone) (es'.map standalone) := by
  rw [Continues, List.forM_map, List.forM_map]
  exact .forM (h.imp fun _ _ => Expr.checkStandalone_continuedBy)

end Task

/-- A sort key that is there has to be complete, since it may be written out in a finding. -/
lemma SortKey.check_continuedBy {k k' : SortKey} (h : k.Edited .repair k')
    (hk : k.value.isHole = true ∨ k.value.Complete) : k.check.ContinuedBy k'.check := by
  obtain hhole | hcomplete := hk
  · rw [check, if_pos hhole]
    exact incomplete_continuedBy _
  · rw [check, check, hcomplete.eq_of_repair h.value]
    exact .refl _

/-- The check of repaired sort keys goes on where that of the keys stopped. -/
lemma Task.continues_key {ks ks' : List SortKey} (h : List.Forall₂ (SortKey.Edited .repair) ks ks')
    (hks : ∀ k ∈ ks, k.value.isHole = true ∨ k.value.Complete) :
    Continues Γ (ks.map key) (ks'.map key) := by
  rw [Continues, List.forM_map, List.forM_map]
  exact .forM (forall₂_imp_of_mem h fun k hk _ hedit => SortKey.check_continuedBy hedit (hks k hk))

/-! ### Plans and queries -/

/-- There is nothing to repair in a complete sort key. -/
lemma Expr.Complete.key_eq_of_repair {k k' : SortKey} (hk : k.value.Complete)
    (h : k.Edited .repair k') : k' = k := by
  obtain ⟨value, descending⟩ := k
  obtain ⟨value', descending'⟩ := k'
  obtain rfl : value' = value := hk.eq_of_repair h.value
  obtain rfl : descending' = descending := h.descending
  rfl

lemma Expr.eq_of_forall₂_repair {es es' : List Expr} (h : List.Forall₂ (Edited .repair) es es')
    (hes : ∀ e ∈ es, e.Complete) : es' = es :=
  eq_of_forall₂ h fun e he _ hrepair => (hes e he).eq_of_repair hrepair

namespace Plan

variable {p p' : Plan}

lemma eq_hole_of_isHole (h : p.isHole = true) : p = hole := by
  cases p with
  | hole => rfl
  | _ => cases h

/-- The operators of a plan one by one. -/
lemma continues_operatorTasks (h : p.Edited .repair p') (hk : p.KeysComplete) :
    Task.Continues Γ (p.operators.flatMap operatorTasks) (p'.operators.flatMap operatorTasks) := by
  induction h with
  | here hhole =>
      rw [eq_hole_of_isHole hhole]
      exact Task.continues_missing _ _
  | same => exact .refl _
  | project _ hes ih =>
      obtain ⟨-, hp⟩ := List.forall_mem_cons.mp hk
      exact (Task.continues_value hes).append fun _ => ih hp
  | filter _ hcs ih =>
      obtain ⟨-, hp⟩ := List.forall_mem_cons.mp hk
      exact (Task.continues_condition hcs).append fun _ => ih hp
  | groupBy _ hgs hhs ih =>
      obtain ⟨-, hp⟩ := List.forall_mem_cons.mp hk
      refine Task.Continues.append ?_ fun _ => ih hp
      exact (Task.continues_condition hhs).append fun _ =>
        Task.continues_value (List.rel_append hgs hhs)
  | join _ _ hcs ihl ihr =>
      obtain ⟨-, hlr⟩ := List.forall_mem_cons.mp hk
      obtain ⟨hl, hr⟩ := List.forall_mem_append.mp hlr
      simp only [operators, List.flatMap_cons, List.flatMap_append]
      exact (Task.continues_condition hcs).append fun _ => (ihl hl).append fun _ => ihr hr
  | sort _ hks ih =>
      obtain ⟨hkeys, hp⟩ := List.forall_mem_cons.mp hk
      exact (Task.continues_key hks hkeys).append fun _ => ih hp

/-- There is nothing to repair in a complete plan. -/
lemma Complete.eq_of_repair (hp : p.Complete) (h : p.Edited .repair p') : p' = p := by
  induction h with
  | here hhole =>
      rw [eq_hole_of_isHole hhole] at hp
      exact absurd (hp hole List.mem_cons_self).1 Bool.true_eq_false.mp
  | same => rfl
  | project _ hes ih =>
      obtain ⟨⟨-, hclauses⟩, hinput⟩ := List.forall_mem_cons.mp hp
      obtain ⟨hvalues, -, -⟩ := Clauses.forall_mem_exprs_iff.mp hclauses
      rw [ih hinput, Expr.eq_of_forall₂_repair hes hvalues]
  | filter _ hcs ih =>
      obtain ⟨⟨-, hclauses⟩, hinput⟩ := List.forall_mem_cons.mp hp
      obtain ⟨-, hconditions, -⟩ := Clauses.forall_mem_exprs_iff.mp hclauses
      rw [ih hinput, Expr.eq_of_forall₂_repair hcs hconditions]
  | groupBy _ hgs hhs ih =>
      obtain ⟨⟨-, hclauses⟩, hinput⟩ := List.forall_mem_cons.mp hp
      obtain ⟨hvalues, hconditions, -⟩ := Clauses.forall_mem_exprs_iff.mp hclauses
      rw [ih hinput, Expr.eq_of_forall₂_repair hgs hvalues,
        Expr.eq_of_forall₂_repair hhs hconditions]
  | join _ _ hcs ihl ihr =>
      obtain ⟨⟨-, hclauses⟩, hinputs⟩ := List.forall_mem_cons.mp hp
      obtain ⟨hl, hr⟩ := List.forall_mem_append.mp hinputs
      obtain ⟨-, hconditions, -⟩ := Clauses.forall_mem_exprs_iff.mp hclauses
      rw [ihl hl, ihr hr, Expr.eq_of_forall₂_repair hcs hconditions]
  | sort _ hks ih =>
      obtain ⟨⟨-, hclauses⟩, hinput⟩ := List.forall_mem_cons.mp hp
      obtain ⟨-, -, horder⟩ := Clauses.forall_mem_exprs_iff.mp hclauses
      rw [ih hinput, eq_of_forall₂ hks fun k hk _ hedit => (horder k hk).key_eq_of_repair hedit]

/-- The check of a repaired plan goes on where that of the plan stopped. -/
lemma check_continuedBy (h : p.Edited .repair p') (hs : p.SubscriptsComplete)
    (hk : p.KeysComplete) : (p.check Γ).ContinuedBy (p'.check Γ) := by
  rw [check_eq_forM]
  refine (continues_operatorTasks h hk).append fun hdone => ?_
  -- the names are only looked at if nothing was missing before
  have hcheck : (p.check Γ).result.isSome := by
    rw [check_eq_forM, isSome_forM, tasks, List.forall_mem_append]
    exact ⟨hdone, by simp [Task.run]⟩
  have hcomplete := (complete_iff_checkable hs hk).mpr (isSome_check_iff.mp hcheck)
  rw [hcomplete.eq_of_repair h]
  exact .refl _

end Plan

namespace Query

variable {q q' : Query}

/-- The check of a repaired query goes on where that of the query stopped. -/
lemma check_continuedBy (h : q.Edited .repair q') (hs : ∀ p ∈ q.plans, p.SubscriptsComplete)
    (hk : ∀ p ∈ q.plans, p.KeysComplete) : (q.check Γ).ContinuedBy (q'.check Γ) := by
  rw [check_eq_forM_plans, check_eq_forM_plans]
  exact .forM (forall₂_imp_of_mem h.plans fun p hp _ hedit =>
    Plan.check_continuedBy hedit (hs p hp) (hk p hp))

/-- A query that was missing may be supplied. -/
lemma checkRequired_continuedBy {q q' : Option Query} (h : EditedSlot .repair q q')
    (hs : ∀ p ∈ q.elim [] plans, p.SubscriptsComplete)
    (hk : ∀ p ∈ q.elim [] plans, p.KeysComplete) :
    (checkRequired Γ q).ContinuedBy (checkRequired Γ q') := by
  cases h with
  | missing => exact .refl _
  | supplied => exact incomplete_continuedBy _
  | edited h => exact check_continuedBy h hs hk

lemma continues_requiredTasks {q q' : Option Query} (h : EditedSlot .repair q q')
    (hs : ∀ p ∈ q.elim [] plans, p.SubscriptsComplete)
    (hk : ∀ p ∈ q.elim [] plans, p.KeysComplete) :
    Task.Continues Γ (requiredTasks q) (requiredTasks q') := by
  have hrequired := checkRequired_continuedBy (Γ := Γ) h hs hk
  rwa [checkRequired_eq_forM] at hrequired

end Query

/-! ### Statements -/

namespace Statement

variable {s s' : Statement}

/-- The columns of a statement are only looked at if nothing was missing before. -/
lemma complete_of_done {ts : List Task} {names : List String} {rs : List ColumnRef}
    (hs : s.SubscriptsComplete) (hk : s.KeysComplete) (htasks : s.tasks = ts ++ [.columns names rs])
    (hdone : ∀ t ∈ ts, (t.run Γ).result.isSome) : s.clauses.Complete := by
  have hcheck : (s.check Γ).result.isSome := by
    rw [check_eq_forM, isSome_forM, htasks, List.forall_mem_append]
    exact ⟨hdone, by simp [Task.run]⟩
  exact ((complete_iff_checkable hs hk).mpr (isSome_check_iff.mp hcheck)).clauses

/-- **The check of a repaired statement goes on** where that of the statement stopped. -/
lemma check_continuedBy (h : s.Edited .repair s') (hs : s.SubscriptsComplete)
    (hk : s.KeysComplete) : (s.check Γ).ContinuedBy (s'.check Γ) := by
  rw [check_eq_forM]
  cases h with
  | query h =>
      have hquery := Query.check_continuedBy (Γ := Γ) h hs.1 hk.1
      rwa [Query.check_eq_forM] at hquery
  | @update u u' h =>
      refine Task.Continues.append ?_ fun hdone => ?_
      · exact ((((Task.continues_value h.values).append fun _ =>
          Task.continues_key h.order hk.2).append fun _ =>
          Task.continues_condition h.conditions).append fun _ =>
          Task.continues_value h.groupBy).append fun _ => Task.continues_condition h.having
      · have hcomplete := complete_of_done hs hk rfl hdone
        have hexprs : u'.exprs = u.exprs := Expr.eq_of_forall₂_repair h.exprs fun e he =>
          hcomplete e (mem_exprs_update.mp he)
        rw [hexprs, h.table]
        exact .refl _
  | @delete d d' h =>
      refine Task.Continues.append ?_ fun hdone => ?_
      · exact (((Task.continues_condition h.conditions).append fun _ =>
          Task.continues_key h.order hk.2).append fun _ =>
          Task.continues_value h.groupBy).append fun _ => Task.continues_condition h.having
      · have hcomplete := complete_of_done hs hk rfl hdone
        have hexprs : d'.exprs = d.exprs := Expr.eq_of_forall₂_repair h.exprs fun e he =>
          hcomplete e (mem_exprs_delete.mp he)
        rw [hexprs, h.table]
        exact .refl _
  | @create c c' h =>
      obtain ⟨name, content⟩ := c
      obtain ⟨name', content'⟩ := c'
      cases h.content with
      | schema => exact .refl _
      | query hq => exact Query.continues_requiredTasks hq hs.1 hk.1
  | @insert i i' h =>
      obtain ⟨table, order, columns, source⟩ := i
      obtain ⟨table', order', columns', source'⟩ := i'
      cases h.source with
      | values hvs =>
          exact ((Task.continues_value hvs).append fun _ =>
            Task.continues_key h.order hk.2).append fun _ => Task.continues_standalone hvs
      | query hq =>
          exact (Query.continues_requiredTasks hq hs.1 hk.1).append fun _ =>
            Task.continues_key h.order hk.2
  | function h =>
      simp only [tasks, forM_flatMap]
      refine .forM (h.body.imp fun step step' hstep => ?_)
      exact (Task.continues_value (.cons hstep.value .nil)).append fun _ =>
        Task.continues_standalone (.cons hstep.value .nil)
  | verbatim code => exact .refl _

end Statement

/-! ### All kinds of checks -/

namespace Check

/-- The same check of an edited tree. -/
inductive Edited (ε : Edit) : Check → Check → Prop
  | infer {e e' : Expr} (h : e.Edited ε e') : Edited ε (.infer e) (.infer e')
  | expect {S : Expectation} {e e' : Expr} (h : e.Edited ε e') :
      Edited ε (.expect S e) (.expect S e')
  | standalone {e e' : Expr} (h : e.Edited ε e') : Edited ε (.standalone e) (.standalone e')
  | plan {p p' : Plan} (h : p.Edited ε p') : Edited ε (.plan p) (.plan p')
  | query {q q' : Query} (h : q.Edited ε q') : Edited ε (.query q) (.query q')
  | statement {s s' : Statement} (h : s.Edited ε s') : Edited ε (.statement s) (.statement s')

/-- Wherever a table is in scope, the subscripts that are given are complete, and so are the sort
keys that are given. -/
def Regular : Check → Prop
  | infer _ | expect _ _ | standalone _ => True
  | plan p => p.SubscriptsComplete ∧ p.KeysComplete
  | query q => ∀ p ∈ q.plans, p.SubscriptsComplete ∧ p.KeysComplete
  | statement s => s.SubscriptsComplete ∧ s.KeysComplete

/-- **Nothing is found too early.** Let anything be put in place of missing parts of a tree, but not
of optional ones. What a check finds in the tree, whether it runs to its end or stops at a missing
part, is then the beginning of what it finds in the repaired tree, whatever functions are in scope.
-/
theorem diagnostics_prefix_of_repair {c c' : Check} (h : c.Edited .repair c') (hc : c.Regular)
    (Γ : Env) : (c.run Γ).diagnostics <+: (c'.run Γ).diagnostics := by
  refine ContinuedBy.diagnostics_prefix ?_
  cases h with
  | infer h => exact (Expr.infer_continuedBy h).map _
  | expect h => exact (Expr.expect_continuedBy h (Expr.infer_continuedBy h)).map _
  | standalone h => exact (Expr.checkStandalone_continuedBy h).map _
  | plan h => exact (Plan.check_continuedBy h hc.1 hc.2).map _
  | query h =>
      exact (Query.check_continuedBy h (fun p hp => (hc p hp).1) fun p hp => (hc p hp).2).map _
  | statement h => exact (Statement.check_continuedBy h hc.1 hc.2).map _

/-- An update of which the second argument of a call is given. The first assignment is wrong, and so
is the number of arguments. -/
def priceUpdate (e : Expr) : Check :=
  .statement (.update ⟨"trades",
    [⟨"open", .unary ⟨1, 1⟩ .not (.literal ⟨1, 2⟩ .integer "1")⟩,
      ⟨"price", .call ⟨2, 1⟩ "abs" [.column ⟨2, 2⟩ "trades" "price", e]⟩],
    [⟨.column ⟨3, 1⟩ "trades" "day", true⟩], [], [], []⟩)

/-- The missing argument keeps the call from being judged. What was found before it, in the first
assignment, is still found first when the argument is supplied. -/
theorem priceUpdate_prefix_of_repair :
    (priceUpdate .hole).Regular ∧
      (priceUpdate .hole).run .builtins = ⟨[.typeMismatch .boolean .numeric ⟨1, 2⟩], none⟩ ∧
      ((priceUpdate .hole).run .builtins).diagnostics <+:
        ((priceUpdate (.ident ⟨4, 1⟩ "digits")).run .builtins).diagnostics := by
  have hregular : (priceUpdate .hole).Regular := ⟨by decide, by decide⟩
  refine ⟨hregular, by decide, diagnostics_prefix_of_repair (.statement (.update ?_)) hregular _⟩
  refine ⟨rfl, .cons ⟨rfl, .same _⟩ (.cons ⟨rfl, .call ?_⟩ .nil), .cons ⟨.same _, rfl⟩ .nil,
    .nil, .nil, .nil⟩
  exact .cons (.same _) (.cons (.here rfl) .nil)

end Check

end QueryAnalysis
