import QueryAnalysis.Proofs.Tasks
import QueryAnalysis.Session

/-!
A check that collects its findings in place only ever appends to the list, and neither its course
nor what it appends depends on what is in the list already.

* `Diagnosis.replay`: the outcome of a check, played back on a list. It is compatible with sequences
  of checks.
* `Expr.collect_eq`, `Plan.collect_eq`, `Query.collect_eq`, `Statement.collect_eq`,
  `Check.collect_eq`: a check that collects in place is the replay of its outcome.
* `Session.perform_eq`: what a session keeps of a check.
* `Check.collect_appends`: every check leaves its own diagnosis behind the list that it was given,
  and so does a sequence of checks.
-/

namespace QueryAnalysis

/-! ### Checks on a list -/

namespace Collecting

variable {α β : Type}

/-- Two checks are the same if they do the same on every list. -/
@[ext] lemma ext_runFrom {x y : Collecting α} (h : ∀ L, x.runFrom L = y.runFrom L) : x = y :=
  funext h

@[simp] lemma runFrom_pure (a : α) (L : List Diagnostic) :
    (pure a : Collecting α).runFrom L = (some a, L) := rfl

@[simp] lemma runFrom_failure (L : List Diagnostic) :
    (failure : Collecting α).runFrom L = (none, L) := rfl

@[simp] lemma runFrom_append (ds L : List Diagnostic) :
    (append ds).runFrom L = (some (), L ++ ds) := rfl

/-- A sequence of two checks goes on with the list that the first one leaves behind. -/
lemma runFrom_bind_of_some {x : Collecting α} {f : α → Collecting β} {a : α}
    {L L' : List Diagnostic} (h : x.runFrom L = (some a, L')) :
    (x >>= f).runFrom L = (f a).runFrom L' := by
  simp only [runFrom, OptionT.run_bind, Option.elimM, StateT.run_bind] at h ⊢
  rw [Id.run_bind, h]
  rfl

/-- If a part is missing in the first check, the second one is not made. -/
lemma runFrom_bind_of_none {x : Collecting α} {f : α → Collecting β} {L L' : List Diagnostic}
    (h : x.runFrom L = (none, L')) : (x >>= f).runFrom L = (none, L') := by
  simp only [runFrom, OptionT.run_bind, Option.elimM, StateT.run_bind] at h ⊢
  rw [Id.run_bind, h]
  rfl

end Collecting

/-! ### Outcomes, played back on a list -/

namespace Diagnosis

open Collecting

variable {α β : Type}

/-- Appends the findings of an outcome to a list, and yields what the outcome yields. -/
def replay (d : Diagnosis α) : Collecting α := do
  append d.diagnostics
  match d.result with
  | some a => pure a
  | none => failure

/-- A replay does not look at the list that it appends to. -/
@[simp] lemma runFrom_replay (d : Diagnosis α) (L : List Diagnostic) :
    d.replay.runFrom L = (d.result, L ++ d.diagnostics) := by
  rw [replay, runFrom_bind_of_some (runFrom_append _ _)]
  cases d.result <;> rfl

@[simp] lemma replay_pure (a : α) : (pure a : Diagnosis α).replay = pure a := by
  ext1 L
  simp

/-- A missing part stops the replay as it stops the check. -/
@[simp] lemma replay_incomplete : (incomplete : Diagnosis α).replay = failure := by
  ext1 L
  simp

/-- One finding is pushed on the list. -/
@[simp] lemma replay_report (d : Diagnostic) : (report d).replay = push d := by
  ext1 L
  simp [push]

/-- The replay of a sequence of two checks is the sequence of the two replays. -/
@[simp] lemma replay_bind (x : Diagnosis α) (f : α → Diagnosis β) :
    (x >>= f).replay = x.replay >>= fun a => (f a).replay := by
  ext1 L
  have hx : x.replay.runFrom L = (x.result, L ++ x.diagnostics) := runFrom_replay x L
  rw [runFrom_replay, diagnostics_bind, result_bind]
  cases h : x.result with
  | none =>
      rw [h] at hx
      rw [runFrom_bind_of_none hx]
      simp
  | some a =>
      rw [h] at hx
      rw [runFrom_bind_of_some hx, runFrom_replay]
      simp

lemma replay_map (g : α → β) (x : Diagnosis α) : (g <$> x).replay = g <$> x.replay := by
  rw [map_eq_pure_bind, map_eq_pure_bind, replay_bind]
  simp only [replay_pure]

lemma replay_ite {c : Prop} [Decidable c] (x y : Diagnosis α) :
    (if c then x else y).replay = if c then x.replay else y.replay := by
  split <;> rfl

/-- An expectation can be checked before or after the replay. -/
@[simp] lemma replay_expecting (x : Diagnosis Ty) (S : Expectation) (p : Pos) :
    (x.expecting S p).replay = x.replay.expecting S p := by
  simp only [expecting, Collecting.expecting, replay_bind, replay_ite, replay_pure, replay_report]

/-- A loop over a list is replayed step by step. -/
lemma replay_forM {f : α → Diagnosis Unit} {g : α → Collecting Unit} (h : ∀ a, g a = (f a).replay)
    (as : List α) : forM as g = (forM as f).replay := by
  induction as with
  | nil =>
      rw [List.forM_nil, List.forM_nil]
      exact (replay_pure ()).symm
  | cons a as ih => rw [List.forM_cons, List.forM_cons, replay_bind, h, ih]

/-- Findings are appended one by one or all at once. -/
lemma forM_push (ds : List Diagnostic) : forM ds push = (reportAll ds).replay := by
  induction ds with
  | nil =>
      rw [List.forM_nil]
      exact (replay_pure ()).symm
  | cons d ds ih =>
      have hsplit : reportAll (d :: ds) = report d >>= fun _ => reportAll ds :=
        reportAll_append [d] ds
      rw [List.forM_cons, ih, hsplit, replay_bind, replay_report]

/-- A replay on an empty list of its own shows the findings of the outcome, unless they are lost. -/
lemma apart_replay (x : Diagnosis α) :
    x.replay.apart = x.result.elim failure fun a => pure (a, x.diagnostics) := by
  rw [apart, runFrom_replay, List.nil_append]
  cases x.result <;> rfl

end Diagnosis

open Diagnosis Collecting

/-! ### Expressions -/

/-- The findings about the arguments of a call come out in the same place, whether they are set
aside in the meantime or not. -/
lemma Signature.collect_replay (σ : Signature) (f : String) (p : Pos) (x : Diagnosis (List Ty)) :
    σ.collect f p x.replay = (σ.applied f p x).replay := by
  ext1 L
  rw [collect, apart_replay, applied]
  cases x.result with
  | none => simp
  | some ts =>
      simp only [Option.elim_some, pure_bind]
      cases σ.result? ts with
      | some t =>
          have hargs := runFrom_append x.diagnostics L
          rw [Option.isNone_some, if_neg Bool.false_ne_true, runFrom_bind_of_some hargs]
          simp
      | none =>
          -- the call is reported first, and only then are its arguments added
          have hcall := runFrom_append [.badCall f p] L
          have hargs := runFrom_append x.diagnostics (L ++ [.badCall f p])
          rw [Option.isNone_none, if_pos rfl, push, runFrom_bind_of_some hcall,
            runFrom_bind_of_some hargs]
          simp

namespace Expr

variable {Γ : Env}

/-- The arguments of a call, typed in place. -/
lemma collectAll_eq {es : List Expr} (h : ∀ e ∈ es, e.collect Γ = (e.infer Γ).replay) :
    collectAll Γ es = (inferAll Γ es).replay := by
  induction es with
  | nil => rw [collectAll, inferAll, replay_pure]
  | cons e es ih =>
      obtain ⟨he, hes⟩ := List.forall_mem_cons.mp h
      simp only [collectAll, inferAll, replay_bind, replay_pure, he, ih hes]

/-- The conditions of the branches, checked in place. -/
lemma collectConditions_eq {S : Expectation} {bs : List (Branch Expr)}
    (h : ∀ b ∈ bs, b.condition.collect Γ = (b.condition.infer Γ).replay) :
    collectConditions Γ S bs = (expectConditions Γ S bs).replay := by
  induction bs with
  | nil => rw [collectConditions, expectConditions, replay_pure]
  | cons b bs ih =>
      obtain ⟨hb, hbs⟩ := List.forall_mem_cons.mp h
      rw [collectConditions, expectConditions, replay_bind, replay_expecting, hb, ih hbs]

/-- The results of the branches after the first one, checked in place. -/
lemma collectFurther_eq {S : Expectation} {bs : List (Branch Expr)}
    (h : ∀ b ∈ bs, b.result.collect Γ = (b.result.infer Γ).replay) :
    collectFurther Γ S bs = (expectResults Γ S bs).replay := by
  induction bs with
  | nil => rw [collectFurther, expectResults, replay_pure]
  | cons b bs ih =>
      obtain ⟨hb, hbs⟩ := List.forall_mem_cons.mp h
      rw [collectFurther, expectResults, replay_bind, replay_expecting, hb, ih hbs]

/-- The results of all branches, checked in place. The first one sets the type of the others. -/
lemma collectResults_eq {p : Pos} {bs : List (Branch Expr)}
    (h : ∀ b ∈ bs, b.result.collect Γ = (b.result.infer Γ).replay) :
    collectResults Γ p bs = (inferResults Γ p bs).replay := by
  cases bs with
  | nil => rw [collectResults, inferResults, replay_bind, replay_report, replay_pure]
  | cons b bs =>
      obtain ⟨hb, hbs⟩ := List.forall_mem_cons.mp h
      simp only [collectResults, inferResults, replay_bind, replay_pure, hb, collectFurther_eq hbs]

/-- **The typing in place** is the replay of the typing. -/
lemma collect_eq (Γ : Env) (e : Expr) : e.collect Γ = (e.infer Γ).replay := by
  induction e with
  | hole => rw [collect, infer, replay_incomplete]
  | unary p op a ha => rw [collect, infer, replay_bind, replay_expecting, replay_pure, ha]
  | binary p op l r hl hr =>
      rw [collect, infer]
      cases op.operand? with
      | some S => simp only [replay_bind, replay_expecting, replay_pure, hl, hr]
      | none => simp only [replay_bind, replay_expecting, replay_pure, hl, hr]
  | call p f args hargs =>
      rw [collect, infer]
      cases Γ.lookup f with
      | some σ => exact (congrArg _ (collectAll_eq hargs)).trans (σ.collect_replay f p _)
      | none => simp only [replay_bind, replay_pure, collectAll_eq hargs]
  | index p a i ha _ =>
      simp only [collect, infer, replay_ite, replay_incomplete, replay_bind, replay_pure, ha]
  | case p s bs d hs hbs hd =>
      have hconditions (S : Expectation) := collectConditions_eq (S := S) fun b hb => (hbs b hb).1
      have hresults := collectResults_eq (p := p) fun b hb => (hbs b hb).2
      simp only [collect, infer, replay_bind, replay_ite, replay_pure, replay_expecting, hs, hd,
        hconditions, hresults]
  | each p a ha => rw [collect, infer, ha]
  | _ => rw [collect, infer, replay_pure]

lemma collectExpected_eq (Γ : Env) (S : Expectation) (e : Expr) :
    e.collectExpected Γ S = (e.expect Γ S).replay := by
  rw [collectExpected, expect, collect_eq, replay_expecting]

lemma collectValue_eq (Γ : Env) (e : Expr) : e.collectValue Γ = (e.examine Γ).replay := by
  simp only [collectValue, examine, replay_bind, replay_pure, collect_eq]

/-- The check for parts that need a row, made in place, node by node. -/
lemma collectStandalone_eq (e : Expr) : e.collectStandalone = e.checkStandalone.replay := by
  refine replay_forM (fun n => ?_) e.preorder
  simp only [checkStandaloneNode, replay_ite, replay_incomplete, replay_report, replay_pure]

end Expr

/-! ### Plans, queries and statements -/

lemma SortKey.collect_eq (k : SortKey) : k.collect = k.check.replay := by
  simp only [collect, check, replay_ite, replay_incomplete, replay_report, replay_pure]

/-- The loops over the expressions of an operator or statement are replays as well. -/
lemma forM_collectValue (Γ : Env) (es : List Expr) :
    forM es (Expr.collectValue Γ) = (forM es (Expr.examine Γ)).replay :=
  replay_forM (Expr.collectValue_eq Γ) es

lemma forM_collectExpected (Γ : Env) (S : Expectation) (es : List Expr) :
    forM es (Expr.collectExpected Γ S) = (forM es (Expr.expect Γ S)).replay :=
  replay_forM (Expr.collectExpected_eq Γ S) es

lemma forM_collectKey (ks : List SortKey) :
    forM ks SortKey.collect = (forM ks SortKey.check).replay :=
  replay_forM SortKey.collect_eq ks

namespace Plan

/-- The clauses of one operator, checked in place. -/
lemma collectOperator_eq (Γ : Env) (o : Plan) :
    o.collectOperator Γ = (o.checkOperator Γ).replay := by
  cases o with
  | hole => exact replay_incomplete.symm
  | scan t => exact (replay_pure ()).symm
  | project p es => exact forM_collectValue Γ es
  | filter p cs => exact forM_collectExpected Γ .boolean cs
  | groupBy p gs hs =>
      rw [collectOperator, checkOperator, replay_bind, forM_collectExpected, forM_collectValue]
  | join k l r cs => exact forM_collectExpected Γ .boolean cs
  | sort p ks => exact forM_collectKey ks

/-- The check of a plan in place is the replay of the check, with the names behind the clauses. -/
lemma collect_eq (Γ : Env) (p : Plan) : p.collect Γ = (p.check Γ).replay := by
  simp only [collect, check, checkNames, reportAll_append, replay_bind, forM_push,
    replay_forM (collectOperator_eq Γ)]

end Plan

namespace Query

/-- The local queries and the main one are checked in place one after the other. -/
lemma collect_eq (Γ : Env) (q : Query) : q.collect Γ = (q.check Γ).replay := by
  have hlocals := replay_forM (fun l : LocalQuery => l.plan.collect_eq Γ) q.locals
  rw [collect, check, replay_bind, hlocals, Plan.collect_eq]

lemma collectRequired_eq (Γ : Env) (q : Option Query) :
    collectRequired Γ q = (checkRequired Γ q).replay := by
  cases q with
  | none => exact replay_incomplete.symm
  | some q => exact q.collect_eq Γ

end Query

namespace Statement

/-- **The check of a statement in place** is the replay of the check. -/
lemma collect_eq (Γ : Env) (s : Statement) : s.collect Γ = (s.check Γ).replay := by
  cases s with
  | query q => exact q.collect_eq Γ
  | update u =>
      have hset := replay_forM (fun a : Assignment => a.value.collectValue_eq Γ) u.assignments
      simp only [collect, check, Update.collect, Update.check, replay_bind, hset, forM_collectKey,
        forM_collectExpected, forM_collectValue, forM_push]
  | delete d =>
      simp only [collect, check, Delete.collect, Delete.check, replay_bind, forM_collectKey,
        forM_collectExpected, forM_collectValue, forM_push]
  | create c =>
      obtain ⟨name, columns | q⟩ := c
      · exact (replay_pure ()).symm
      · exact Query.collectRequired_eq Γ q
  | insert i =>
      obtain ⟨table, order, columns, vs | q⟩ := i
      · have hstandalone := replay_forM Expr.collectStandalone_eq vs
        simp only [collect, check, Insert.collect, Insert.check, replay_bind, forM_collectValue,
          forM_collectKey, hstandalone]
      · simp only [collect, check, Insert.collect, Insert.check, replay_bind,
          Query.collectRequired_eq, forM_collectKey]
  | function f =>
      refine replay_forM (fun s => ?_) f.body
      rw [Expr.collectValue_eq, Expr.collectStandalone_eq, replay_bind]
  | verbatim code => exact (replay_pure ()).symm

end Statement

/-! ### Sessions -/

/-- A check that collects in place is the replay of its outcome. -/
lemma Check.collect_eq (Γ : Env) (c : Check) : c.collect Γ = (c.run Γ).replay := by
  cases c with
  | infer e => rw [collect, run, replay_map, e.collect_eq]
  | expect S e => rw [collect, run, replay_map, e.collectExpected_eq]
  | standalone e => rw [collect, run, replay_map, e.collectStandalone_eq]
  | plan p => rw [collect, run, replay_map, p.collect_eq]
  | query q => rw [collect, run, replay_map, q.collect_eq]
  | statement s => rw [collect, run, replay_map, s.collect_eq]

/-- A session gives the outcome of a check, and keeps its findings behind those that it has. -/
theorem Session.perform_eq (s : Session) (c : Check) :
    s.perform c =
      (c.run s.env, { s with collected := s.collected ++ (c.run s.env).diagnostics }) := by
  simp only [perform, c.collect_eq, runFrom_replay, List.drop_left]

namespace Check

/-- **Checks only append, whatever is there.** Let any check be made in any environment, with any
list of findings at hand. It stops at a missing part exactly if it does so with the empty list, and
it yields the same type; and also if it stops, it leaves the given list followed by what it leaves
if it starts with the empty list. So a sequence of checks leaves their single diagnoses one behind
the other, whatever becomes of each of them. -/
theorem collect_appends :
    (∀ (Γ : Env) (c : Check) (L : List Diagnostic),
      ((c.collect Γ).runFrom L).1 = ((c.collect Γ).runFrom []).1 ∧
        ((c.collect Γ).runFrom L).2 = L ++ ((c.collect Γ).runFrom []).2) ∧
      ∀ (cs : List (Env × Check)) (L : List Diagnostic),
        cs.foldl (fun L c => ((c.2.collect c.1).runFrom L).2) L =
          L ++ cs.flatMap fun c => ((c.2.collect c.1).runFrom []).2 := by
  have hstep (Γ : Env) (c : Check) (L : List Diagnostic) :
      (c.collect Γ).runFrom L =
        (((c.collect Γ).runFrom []).1, L ++ ((c.collect Γ).runFrom []).2) := by
    simp only [c.collect_eq, runFrom_replay, List.nil_append]
  refine ⟨fun Γ c L => ⟨by rw [hstep], by rw [hstep]⟩, fun cs => ?_⟩
  induction cs with
  | nil => exact fun L => (List.append_nil L).symm
  | cons c cs ih =>
      intro L
      calc cs.foldl (fun L c => ((c.2.collect c.1).runFrom L).2) ((c.2.collect c.1).runFrom L).2
          = ((c.2.collect c.1).runFrom L).2 ++
              cs.flatMap fun c => ((c.2.collect c.1).runFrom []).2 := ih _
        _ = L ++ ((c.2.collect c.1).runFrom []).2 ++
              cs.flatMap fun c => ((c.2.collect c.1).runFrom []).2 := by rw [hstep]
        _ = L ++ (c :: cs).flatMap fun c => ((c.2.collect c.1).runFrom []).2 := by
          rw [List.flatMap_cons, List.append_assoc]

end Check

end QueryAnalysis
