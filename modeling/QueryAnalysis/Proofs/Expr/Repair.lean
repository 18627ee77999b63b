import QueryAnalysis.Proofs.Complete
import QueryAnalysis.Proofs.Expr.Congruence

/-!
Expressions with missing parts, and what becomes of their checks when the parts are supplied. A
check that stops at a missing part has found nothing by then that it would not find in the repaired
tree, and it has found it in the same order.

* `Diagnosis.ContinuedBy`: the second check is the first one, or goes on where the first one stops.
* `Edit.repair`: anything in place of a missing expression, plan or query.
* `Expr.Complete.eq_of_repair`: there is nothing to repair in a complete expression.
* `Expr.infer_continuedBy`, `Expr.checkStandalone_continuedBy`: the checks of a repaired expression
  go on where those of the expression stop.
-/

namespace QueryAnalysis

/-! ### Checks that go on -/

namespace Diagnosis

variable {α β : Type} {x y : Diagnosis α}

/-- The second check is the first one; or the first one stops at a missing part, and the second one
goes on from there. -/
def ContinuedBy (x y : Diagnosis α) : Prop :=
  y = x ∨ x.result = none ∧ x.diagnostics <+: y.diagnostics

lemma ContinuedBy.refl (x : Diagnosis α) : x.ContinuedBy x :=
  Or.inl rfl

/-- Anything goes on where nothing was checked. -/
lemma incomplete_continuedBy (y : Diagnosis α) : incomplete.ContinuedBy y :=
  Or.inr ⟨rfl, List.nil_prefix⟩

/-- What was found first stays in front. -/
lemma ContinuedBy.diagnostics_prefix (h : x.ContinuedBy y) : x.diagnostics <+: y.diagnostics := by
  obtain rfl | ⟨-, h⟩ := h
  · exact List.prefix_refl _
  · exact h

/-- In a sequence of two checks, only the values that the first one yields matter for the second. -/
lemma ContinuedBy.bind {f g : α → Diagnosis β} (h : x.ContinuedBy y)
    (hfg : ∀ a, x.result = some a → (f a).ContinuedBy (g a)) :
    (x >>= f).ContinuedBy (y >>= g) := by
  obtain rfl | ⟨hx, h⟩ := h
  · cases hx : y.result with
    | none => exact Or.inl (by ext1 <;> simp [diagnostics_bind, result_bind, hx])
    | some a =>
        obtain hga | ⟨hfa, hga⟩ := hfg a hx
        · exact Or.inl (by ext1 <;> simp [diagnostics_bind, result_bind, hx, hga])
        · refine Or.inr ⟨by simp [result_bind, hx, hfa], ?_⟩
          simpa [diagnostics_bind, hx, List.prefix_append_right_inj] using hga
  · refine Or.inr ⟨by simp [result_bind, hx], ?_⟩
    rw [diagnostics_bind, diagnostics_bind, hx, Option.map_none, Option.getD_none, List.append_nil]
    exact h.trans (List.prefix_append _ _)

end Diagnosis

/-- A call fails without a finding if its arguments do, so that it is continued by any other one. -/
lemma Signature.applied_continuedBy {x y : Diagnosis (List Ty)} (h : x.ContinuedBy y)
    (σ : Signature) (f : String) (p : Pos) : (σ.applied f p x).ContinuedBy (σ.applied f p y) := by
  obtain rfl | ⟨hx, -⟩ := h
  · exact .refl _
  · rw [applied, hx]
    exact Diagnosis.incomplete_continuedBy _

namespace Diagnosis

variable {α β : Type} {x y : Diagnosis α}

/-- Continuation goes through sequences of checks and through calls. -/
lemma congruence_continuedBy : Congruence @ContinuedBy where
  refl := .refl
  bind := .bind
  applied := Signature.applied_continuedBy

lemma ContinuedBy.map (h : x.ContinuedBy y) (g : α → β) : (g <$> x).ContinuedBy (g <$> y) :=
  congruence_continuedBy.map h g

lemma ContinuedBy.forM {f g : α → Diagnosis Unit} {as bs : List α}
    (h : List.Forall₂ (fun a b => (f a).ContinuedBy (g b)) as bs) :
    (ForM.forM as f).ContinuedBy (ForM.forM bs g) :=
  congruence_continuedBy.forM h

end Diagnosis

/-! ### Repaired expressions -/

/-- Repair: anything in place of what is missing. -/
def Edit.repair : Edit where
  expr e _ := e.isHole = true
  plan p _ := p.isHole = true
  query _ := True

namespace Expr

open Diagnosis

variable {Γ : Env} {e e' : Expr}

/-- Nothing is found where something is missing, and there is no type to compare. -/
lemma respects_repair (Γ : Env) : Edit.repair.Respects Γ @ContinuedBy where
  here {e e'} hhole := by
    rw [eq_hole_of_isHole hhole, infer]
    exact incomplete_continuedBy _
  pos {e e'} hhole hsome := by
    rw [eq_hole_of_isHole hhole, infer] at hsome
    cases hsome
  subscript {e e'} hhole x y _ := by
    rw [eq_hole_of_isHole hhole]
    exact incomplete_continuedBy _

/-- **The typing goes on where it stopped.** The typing of a repaired expression is that of the
expression if this is examinable, and otherwise starts with what was found up to the missing part.
-/
lemma infer_continuedBy (h : e.Edited .repair e') : (e.infer Γ).ContinuedBy (e'.infer Γ) :=
  h.infer_related congruence_continuedBy (respects_repair Γ)

lemma expect_continuedBy {S : Expectation} (h : e.Edited .repair e')
    (hinfer : (e.infer Γ).ContinuedBy (e'.infer Γ)) :
    (e.expect Γ S).ContinuedBy (e'.expect Γ S) :=
  expect_related congruence_continuedBy (respects_repair Γ) h hinfer

/-- The check of a repaired value goes on where that of the value stopped. -/
lemma examine_continuedBy (h : e.Edited .repair e') : (e.examine Γ).ContinuedBy (e'.examine Γ) :=
  (infer_continuedBy h).bind fun _ _ => .refl _

/-! ### Nodes that refer to rows -/

/-- The check of a tree starts with its root and goes on with its parts. -/
lemma checkStandalone_eq (e : Expr) :
    e.checkStandalone = e.checkStandaloneNode >>= fun _ => forM e.children checkStandalone := by
  rw [checkStandalone, preorder_eq, List.forM_cons, forM_flatMap]
  rfl

lemma IsPlain.checkStandaloneNode_eq (h : e.IsPlain) : e.checkStandaloneNode = pure () := by
  rw [checkStandaloneNode, h.1, h.2]
  rfl

/-- **The check for rows goes on where it stopped.** It comes to the nodes of a repaired expression
in the same order. -/
lemma checkStandalone_continuedBy (h : e.Edited .repair e') :
    e.checkStandalone.ContinuedBy e'.checkStandalone := by
  induction e using induct_children generalizing e' with
  | _ e ih =>
    obtain hhole | rfl | ⟨hroot, hroot', hparts⟩ := h.step
    · rw [eq_hole_of_isHole hhole]
      exact incomplete_continuedBy _
    · exact .refl _
    · rw [checkStandalone_eq e, checkStandalone_eq e', hroot.checkStandaloneNode_eq,
        hroot'.checkStandaloneNode_eq]
      refine ContinuedBy.bind (.refl _) fun _ _ => .forM ?_
      exact forall₂_imp_of_mem hparts ih

/-! ### Nothing to repair -/

/-- Branches are the same if their conditions and their results are. -/
lemma branches_ext {bs bs' : List (Branch Expr)}
    (hconditions : bs'.map Branch.condition = bs.map Branch.condition)
    (hresults : bs'.map Branch.result = bs.map Branch.result) : bs' = bs := by
  induction bs generalizing bs' with
  | nil => exact List.map_eq_nil_iff.mp hconditions
  | cons b bs ih =>
      cases bs' with
      | nil => cases hconditions
      | cons b' bs' =>
          obtain ⟨c, r⟩ := b
          obtain ⟨c', r'⟩ := b'
          obtain ⟨rfl, hcs⟩ := List.cons.inj hconditions
          obtain ⟨rfl, hrs⟩ := List.cons.inj hresults
          rw [ih hcs hrs]

/-- An optional part stays as it is if it is not given. -/
lemma eq_of_optional (hgiven : e'.isHole = e.isHole) (h : e.isHole = false → e' = e) : e' = e := by
  cases he : e.isHole with
  | true => rw [eq_hole_of_isHole he, eq_hole_of_isHole (hgiven.trans he)]
  | false => exact h he

/-- There is nothing to repair in a complete expression. -/
lemma Complete.eq_of_repair (he : e.Complete) (h : e.Edited .repair e') : e' = e := by
  -- the lists of a node, whose members are not repaired either
  have hlist {es es' : List Expr} (hes : ∀ c ∈ es, c.Complete)
      (h : List.Forall₂ (fun e e' => ∃ _ : e.Edited .repair e', e.Complete → e' = e) es es') :
      es' = es :=
    eq_of_forall₂ h fun c hc _ hrepair => hrepair.2 (hes c hc)
  induction h using Edited.induct with
  | here e e' hhole =>
      exact absurd ((complete_iff.mp he).1.symm.trans hhole) Bool.false_ne_true
  | same e => rfl
  | unary p op a a' _ ih => rw [ih ((complete_iff.mp he).2 a List.mem_cons_self)]
  | binary p op l l' r r' _ _ ihl ihr =>
      obtain ⟨hl, hr⟩ : l.Complete ∧ r.Complete := by simpa [children] using (complete_iff.mp he).2
      rw [ihl hl, ihr hr]
  | call p f args args' _ ih =>
      have hargs : ∀ a ∈ args, a.Complete := (complete_iff.mp he).2
      rw [hlist hargs ih]
  | index p a a' i i' _ _ iha ihi =>
      obtain ⟨ha, hi⟩ : a.Complete ∧ i.Complete := by simpa [children] using (complete_iff.mp he).2
      rw [iha ha, ihi hi]
  | case p s s' d d' bs bs' hsubject _ _ _ hdefault _ ihs ihc ihr ihd =>
      obtain ⟨hs, hcs, hrs, hd⟩ :=
        (forall_mem_examinedParts_case_iff (p := p)).mp (complete_iff.mp he).2
      have hbranches : bs' = bs := branches_ext (hlist (List.forall_mem_map.mpr hcs) ihc)
        (hlist (List.forall_mem_map.mpr hrs) ihr)
      rw [eq_of_optional hsubject fun h => ihs (hs h), hbranches,
        eq_of_optional hdefault fun h => ihd (hd h)]
  | each p a a' _ ih => rw [ih ((complete_iff.mp he).2 a List.mem_cons_self)]

end Expr

end QueryAnalysis
