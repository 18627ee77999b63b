import QueryAnalysis.Proofs.Edit
import QueryAnalysis.Proofs.Expr.Nodes

/-!
Edits that the typing of an expression respects. A relation between the outcomes of two checks
carries over to composite checks if a sequence of related checks is related again. If it holds
between what an edit replaces and what it puts there, then it holds between the typing of any
expression and that of the edited one, wherever the edit was made.

* `Diagnosis.Congruence`: such a relation. Equality is one, `Diagnosis.congruence_eq`.
* `Edit.Respects`: the relation holds where the edit is made.
* `Expr.Edited.infer_related`: it holds of the whole expression.
-/

namespace QueryAnalysis

/-! ### Related checks -/

namespace Diagnosis

variable {α β : Type}

/-- A relation between outcomes that goes through sequences of checks and through calls. Of the
second check in a sequence, only the values that the first one yields matter. -/
structure Congruence (R : ∀ {α : Type}, Diagnosis α → Diagnosis α → Prop) : Prop where
  refl : ∀ {α : Type} (x : Diagnosis α), R x x
  bind : ∀ {α β : Type} {x y : Diagnosis α} {f g : α → Diagnosis β}, R x y →
    (∀ a, x.result = some a → R (f a) (g a)) → R (x >>= f) (y >>= g)
  applied : ∀ {x y : Diagnosis (List Ty)}, R x y →
    ∀ (σ : Signature) (f : String) (p : Pos), R (σ.applied f p x) (σ.applied f p y)

variable {R : ∀ {α : Type}, Diagnosis α → Diagnosis α → Prop} (hR : Congruence R)

include hR

/-- Related checks stay related when their values are mapped. -/
lemma Congruence.map {x y : Diagnosis α} (h : R x y) (g : α → β) : R (g <$> x) (g <$> y) := by
  rw [map_eq_pure_bind, map_eq_pure_bind]
  exact hR.bind h fun a _ => hR.refl _

/-- A relation of this kind goes through loops. -/
lemma Congruence.forM {f g : α → Diagnosis Unit} {as bs : List α}
    (h : List.Forall₂ (fun a b => R (f a) (g b)) as bs) :
    R (ForM.forM as f) (ForM.forM bs g) := by
  induction h with
  | nil => exact hR.refl _
  | cons hab _ ih =>
      rw [List.forM_cons, List.forM_cons]
      exact hR.bind hab fun _ _ => ih

/-- A relation of this kind goes through lists of checks. -/
lemma Congruence.mapM {f g : α → Diagnosis β} {as bs : List α}
    (h : List.Forall₂ (fun a b => R (f a) (g b)) as bs) : R (as.mapM f) (bs.mapM g) := by
  induction h with
  | nil => exact hR.refl _
  | cons hab _ ih =>
      rw [List.mapM_cons, List.mapM_cons]
      exact hR.bind hab fun _ _ => hR.bind ih fun _ _ => hR.refl _

/-- The position only counts if there is a type to hold to the expectation. -/
lemma Congruence.expecting {x y : Diagnosis Ty} (h : R x y) (S : Expectation) {p p' : Pos}
    (hp : x.result.isSome → p' = p) : R (x.expecting S p) (y.expecting S p') := by
  refine hR.bind h fun t ht => ?_
  rw [hp (by rw [ht]; rfl)]
  exact hR.refl _

omit hR

/-- Equality is a relation of this kind. -/
lemma congruence_eq : Congruence fun x y => x = y where
  refl _ := rfl
  bind := by
    rintro α β x _ f g rfl hfg
    cases hx : x.result with
    | none => ext1 <;> simp [diagnostics_bind, result_bind, hx]
    | some a => ext1 <;> simp [diagnostics_bind, result_bind, hx, hfg a hx]
  applied := by
    rintro x _ rfl σ f p
    rfl

end Diagnosis

open Diagnosis

/-! ### Edited expressions -/

/-- The relation holds between the typing of an expression and that of what an edit puts there. The
position stays the same if there is a type at all, and in a subscript, where only the presence of an
expression counts, the edit makes no other difference. -/
structure Edit.Respects (ε : Edit) (Γ : Env) (R : ∀ {α : Type}, Diagnosis α → Diagnosis α → Prop) :
    Prop where
  here : ∀ {e e'}, ε.expr e e' → R (e.infer Γ) (e'.infer Γ)
  pos : ∀ {e e'}, ε.expr e e' → (e.infer Γ).result.isSome → e'.pos = e.pos
  subscript : ∀ {e e'}, ε.expr e e' → ∀ {x y : Diagnosis Ty}, R x y →
    R (if e.isHole then .incomplete else x) (if e'.isHole then .incomplete else y)

namespace Expr

variable {ε : Edit} {Γ : Env} {e e' : Expr}

/-- An edit further down changes neither the place of a node nor whether it is there. -/
lemma Edited.root (h : e.Edited ε e') : ε.expr e e' ∨ e'.pos = e.pos ∧ e'.isHole = e.isHole := by
  cases h with
  | here h => exact Or.inl h
  | _ => exact Or.inr ⟨rfl, rfl⟩

variable {R : ∀ {α : Type}, Diagnosis α → Diagnosis α → Prop} (hR : Congruence R)
  (hε : ε.Respects Γ R)

include hR hε

/-- Under an expectation, the two expressions are blamed at the same position. -/
lemma expect_related {S : Expectation} (h : e.Edited ε e')
    (hinfer : R (e.infer Γ) (e'.infer Γ)) : R (e.expect Γ S) (e'.expect Γ S) := by
  refine hR.expecting hinfer S fun hsome => ?_
  rcases h.root with hexpr | ⟨hpos, -⟩
  · exact hε.pos hexpr hsome
  · exact hpos

lemma forM_expect_related {S : Expectation} {es es' : List Expr}
    (h : List.Forall₂ (fun e e' => ∃ _ : e.Edited ε e', R (e.infer Γ) (e'.infer Γ)) es es') :
    R (forM es (expect Γ S)) (forM es' (expect Γ S)) :=
  hR.forM (h.imp fun _ _ ⟨hedit, hinfer⟩ => expect_related hR hε hedit hinfer)

omit hε in
/-- The subject of a case is edited, or left out before and after. -/
lemma inferSubject_related (hgiven : e'.isHole = e.isHole) (hinfer : R (e.infer Γ) (e'.infer Γ)) :
    R (e.inferSubject Γ) (e'.inferSubject Γ) := by
  rw [inferSubject, inferSubject, hgiven]
  split
  · exact hR.refl _
  · exact hinfer

/-- The default of a case is edited, or left out before and after. -/
lemma expectDefault_related {S : Expectation} (hgiven : e'.isHole = e.isHole)
    (h : e.Edited ε e') (hinfer : R (e.infer Γ) (e'.infer Γ)) :
    R (e.expectDefault Γ S) (e'.expectDefault Γ S) := by
  rw [expectDefault, expectDefault, hgiven]
  split
  · exact hR.refl _
  · exact expect_related hR hε h hinfer

/-- An edit does not change the number of branches, and the first result sets the type in both. -/
lemma inferResults_related {p : Pos} {bs bs' : List (Branch Expr)}
    (h : List.Forall₂ (fun e e' => ∃ _ : e.Edited ε e', R (e.infer Γ) (e'.infer Γ))
      (bs.map Branch.result) (bs'.map Branch.result)) :
    R (inferResults Γ p bs) (inferResults Γ p bs') := by
  cases bs with
  | nil =>
      cases bs' with
      | nil => exact hR.refl _
      | cons => cases h
  | cons b bs =>
      cases bs' with
      | nil => cases h
      | cons b' bs' =>
          obtain _ | ⟨⟨_, hb⟩, hbs⟩ := h
          simp only [inferResults_cons]
          refine hR.bind hb fun t _ => hR.bind ?_ fun _ _ => hR.refl _
          simpa only [List.forM_map] using forM_expect_related hR hε (S := .exactly t) hbs

/-- **The typing respects an edit** if it does so where the edit is made. -/
lemma Edited.infer_related (h : e.Edited ε e') : R (e.infer Γ) (e'.infer Γ) := by
  induction h using Edited.induct with
  | here e e' h => exact hε.here h
  | same e => exact hR.refl _
  | unary p op a a' ha iha =>
      rw [infer_unary, infer_unary]
      exact hR.bind (expect_related hR hε ha iha) fun _ _ => hR.refl _
  | binary p op l l' r r' hl hr ihl ihr =>
      cases hop : op.operand? with
      | some S =>
          rw [infer_binary_of_some Γ p hop, infer_binary_of_some Γ p hop]
          exact hR.bind (expect_related hR hε hl ihl) fun _ _ =>
            hR.bind (expect_related hR hε hr ihr) fun _ _ => hR.refl _
      | none =>
          rw [infer_binary_of_none Γ p hop, infer_binary_of_none Γ p hop]
          exact hR.bind ihl fun _ _ =>
            hR.bind (expect_related hR hε hr ihr) fun _ _ => hR.refl _
  | call p f args args' _ ih =>
      have hargs : R (args.mapM (Expr.infer Γ)) (args'.mapM (Expr.infer Γ)) :=
        hR.mapM (ih.imp fun _ _ h => h.2)
      cases hf : Γ.lookup f with
      | some σ =>
          rw [infer_call_of_some Γ p hf, infer_call_of_some Γ p hf]
          exact hR.applied hargs σ f p
      | none =>
          rw [infer_call_of_none Γ p hf, infer_call_of_none Γ p hf]
          exact hR.bind hargs fun _ _ => hR.refl _
  | index p a a' i i' _ hi iha _ =>
      rw [infer_index, infer_index]
      have harray := hR.bind iha fun _ _ => hR.refl (pure Ty.unknown)
      rcases hi.root with hexpr | ⟨-, hgiven⟩
      · exact hε.subscript hexpr harray
      · rw [hgiven]
        split
        · exact hR.refl _
        · exact harray
  | case p s s' d d' bs bs' hsubject _ _ _ hdefault hd ihs ihc ihr ihd =>
      rw [infer_case, infer_case]
      refine hR.bind (inferSubject_related hR hsubject ihs) fun c _ => hR.bind ?_ fun _ _ =>
        hR.bind (inferResults_related hR hε ihr) fun t _ =>
          hR.bind (expectDefault_related hR hε hdefault hd ihd) fun _ _ => hR.refl _
      simpa only [List.forM_map] using forM_expect_related hR hε (S := .exactly c) ihc
  | each p a a' _ iha =>
      rw [infer_each, infer_each]
      exact iha

end Expr

end QueryAnalysis
