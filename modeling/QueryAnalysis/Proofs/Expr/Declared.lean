import Mathlib.Algebra.GroupWithZero.Nat
import QueryAnalysis.Proofs.Expr.Examined

/-!
The typing of expressions when a function is declared that nothing was known about before. All that
can come up is that calls of the function have the wrong number of arguments; the type of such a
call is unknown in any case.

* `Diagnosis.without`, `Diagnosis.badCalls`: an outcome without the bad calls of a function, and the
  number of these. The first one is compatible with sequences of checks, the second one adds up.
* `Env.Declares`: one environment knows a function more than another.
* `Expr.infer_without`: apart from the bad calls of the function, nothing changes in the typing.
* `Expr.badCalls_infer`: there are as many bad calls as calls with another number of arguments among
  the nodes that are looked at.
-/

namespace QueryAnalysis

/-- The finding is that the function was called badly. -/
def Diagnostic.isBadCallOf (f : String) : Diagnostic → Bool
  | badCall g _ => g = f
  | _ => false

@[simp] lemma Diagnostic.isBadCallOf_badCall (f g : String) (p : Pos) :
    (badCall g p).isBadCallOf f = decide (g = f) := rfl

/-! ### Outcomes without the bad calls of a function -/

namespace Diagnosis

variable {α β : Type} {f : String}

/-- The outcome without the findings about calls of the function. -/
def without (f : String) (x : Diagnosis α) : Diagnosis α where
  diagnostics := x.diagnostics.filter fun d => !d.isBadCallOf f
  result := x.result

/-- How often a call of the function was found to be bad. -/
def badCalls (f : String) (x : Diagnosis α) : Nat :=
  x.diagnostics.countP (Diagnostic.isBadCallOf f)

@[simp] lemma without_pure (a : α) : (pure a : Diagnosis α).without f = pure a := rfl

@[simp] lemma badCalls_pure (a : α) : (pure a : Diagnosis α).badCalls f = 0 := rfl

@[simp] lemma badCalls_incomplete : (incomplete : Diagnosis α).badCalls f = 0 := rfl

/-- Bad calls can be left out of a sequence of checks step by step. -/
@[simp] lemma without_bind (x : Diagnosis α) (g : α → Diagnosis β) :
    (x >>= g).without f = x.without f >>= fun a => (g a).without f := by
  ext1
  · simp only [without, diagnostics_bind, List.filter_append]
    cases x.result <;> rfl
  · simp only [without, result_bind]

/-- Bad calls can be left out of a loop step by step. -/
lemma without_forM {g h : α → Diagnosis Unit} {as : List α}
    (hgh : ∀ a ∈ as, (g a).without f = h a) : (forM as g).without f = forM as h := by
  induction as with
  | nil => rfl
  | cons a as ih =>
      obtain ⟨ha, has⟩ := List.forall_mem_cons.mp hgh
      rw [List.forM_cons, List.forM_cons, without_bind, ha, ih has]

/-- Bad calls can be left out of a list of checks one by one. -/
lemma without_mapM {g h : α → Diagnosis β} {as : List α}
    (hgh : ∀ a ∈ as, (g a).without f = h a) : (as.mapM g).without f = as.mapM h := by
  induction as with
  | nil => rfl
  | cons a as ih =>
      obtain ⟨ha, has⟩ := List.forall_mem_cons.mp hgh
      simp only [List.mapM_cons, without_bind, ha, ih has, without_pure]

/-- Whether a type is expected or not has nothing to do with bad calls. -/
lemma without_expecting (x : Diagnosis Ty) (S : Expectation) (p : Pos) :
    (x.expecting S p).without f = (x.without f).expecting S p := by
  simp only [expecting, without_bind]
  congr 1
  funext t
  split <;> rfl

/-- Nothing is left out of an outcome without bad calls. -/
lemma without_eq_self {x : Diagnosis α} (h : x.badCalls f = 0) : x.without f = x := by
  ext1
  · rw [badCalls, List.countP_eq_zero] at h
    exact List.filter_eq_self.mpr fun d hd => by simpa using h d hd
  · rfl

/-- In a sequence of two checks, bad calls add up. -/
lemma badCalls_bind {x : Diagnosis α} {g : α → Diagnosis β} {k : Nat} (hx : x.result.isSome)
    (hg : ∀ a, (g a).badCalls f = k) : (x >>= g).badCalls f = x.badCalls f + k := by
  obtain ⟨a, ha⟩ := Option.isSome_iff_exists.mp hx
  rw [badCalls, diagnostics_bind, ha, List.countP_append]
  exact congrArg _ (hg a)

lemma badCalls_bind_pure (x : Diagnosis α) (g : α → β) :
    (x >>= fun a => pure (g a)).badCalls f = x.badCalls f := by
  rw [badCalls, diagnostics_bind]
  cases x.result <;> simp [badCalls]

/-- In a loop, bad calls add up. -/
lemma badCalls_forM {g : α → Diagnosis Unit} {as : List α} (h : ∀ a ∈ as, (g a).result.isSome) :
    (forM as g).badCalls f = (as.map fun a => (g a).badCalls f).sum := by
  induction as with
  | nil => rfl
  | cons a as ih =>
      obtain ⟨ha, has⟩ := List.forall_mem_cons.mp h
      rw [List.forM_cons, badCalls_bind ha fun _ => ih has, List.map_cons, List.sum_cons]

/-- In a list of checks, bad calls add up. -/
lemma badCalls_mapM {g : α → Diagnosis β} {as : List α} (h : ∀ a ∈ as, (g a).result.isSome) :
    (as.mapM g).badCalls f = (as.map fun a => (g a).badCalls f).sum := by
  induction as with
  | nil => rfl
  | cons a as ih =>
      obtain ⟨ha, has⟩ := List.forall_mem_cons.mp h
      rw [List.mapM_cons, List.map_cons, List.sum_cons, badCalls_bind ha fun _ => ?_]
      rw [badCalls_bind_pure, ih has]

/-- There is a value for each member of the list. -/
lemma length_of_result_mapM {g : α → Diagnosis β} {as : List α} {bs : List β}
    (h : (as.mapM g).result = some bs) : bs.length = as.length := by
  induction as generalizing bs with
  | nil =>
      obtain rfl := Option.some.inj h
      rfl
  | cons a as ih =>
      simp only [List.mapM_cons, result_bind, Option.bind_eq_some_iff] at h
      obtain ⟨b, -, bs', hbs', hbs⟩ := h
      obtain rfl := Option.some.inj hbs
      rw [List.length_cons, List.length_cons, ih hbs']

/-- A type that is not expected is no bad call. -/
@[simp] lemma badCalls_expecting (x : Diagnosis Ty) (S : Expectation) (p : Pos) :
    (x.expecting S p).badCalls f = x.badCalls f := by
  rw [expecting]
  cases hx : x.result with
  | none => simp [badCalls, diagnostics_bind, hx]
  | some t =>
      refine badCalls_bind (k := 0) (by rw [hx]; rfl) fun t => ?_
      by_cases h : S.Admits t
      · rw [if_pos h, badCalls_pure]
      · rw [if_neg h]
        rfl

end Diagnosis

/-! ### Expressions -/

/-- The second environment knows one more function than the first one, and of that function the
number of parameters. -/
structure Env.Declares (f : String) (n : Nat) (Γ Γ' : Env) : Prop where
  unknown : Γ.lookup f = none
  declared : Γ'.lookup f = some (.userDefined n)
  others : ∀ g, g ≠ f → Γ'.lookup g = Γ.lookup g

open Diagnosis

/-- Calls of other functions are judged as before. -/
lemma Signature.applied_without {f g : String} (hg : g ≠ f) (σ : Signature) (p : Pos)
    (x : Diagnosis (List Ty)) : (σ.applied g p x).without f = σ.applied g p (x.without f) := by
  obtain ⟨ds, _ | ts⟩ := x
  · rfl
  · cases hσ : σ.result? ts with
    | some t => simp [applied, without, hσ]
    | none => simp [applied, without, hσ, hg]

/-- A call of another function is no bad call of this one. -/
lemma Signature.badCalls_applied_of_ne {f g : String} (hg : g ≠ f) (σ : Signature) (p : Pos)
    {x : Diagnosis (List Ty)} (hx : x.result.isSome) :
    (σ.applied g p x).badCalls f = x.badCalls f := by
  obtain ⟨ds, _ | ts⟩ := x
  · cases hx
  · cases hσ : σ.result? ts with
    | some t => simp [applied, badCalls, hσ]
    | none => simp [applied, badCalls, hσ, hg]

/-- A call of a declared function is judged as if nothing was known about the function, but for the
number of arguments. -/
lemma Signature.applied_userDefined_without {n : Nat} {f : String} {p : Pos}
    {x : Diagnosis (List Ty)} {ts : List Ty} (hx : x.result = some ts) :
    ((userDefined n).applied f p x).without f = x.without f >>= fun _ => pure .unknown := by
  obtain ⟨ds, _⟩ := x
  obtain rfl := hx
  by_cases h : ts.length = n <;> simp [applied, result?, without, h, bind, pure]

/-- The number of arguments is all that can be wrong in a call of a declared function. -/
lemma Signature.badCalls_applied_userDefined {n : Nat} {f : String} {p : Pos}
    {x : Diagnosis (List Ty)} {ts : List Ty} (hx : x.result = some ts) :
    ((userDefined n).applied f p x).badCalls f =
      (if ts.length = n then 0 else 1) + x.badCalls f := by
  obtain ⟨ds, _⟩ := x
  obtain rfl := hx
  by_cases h : ts.length = n <;> simp [applied, result?, badCalls, h, Nat.add_comm]

namespace Expr

variable {f : String} {n : Nat} {Γ Γ' : Env} {e : Expr}

/-- The node is a call of the function with another number of arguments. -/
def isMisfit (f : String) (n : Nat) : Expr → Bool
  | call _ g args => g = f ∧ args.length ≠ n
  | _ => false

lemma expect_without {S : Expectation} (h : (e.infer Γ').without f = e.infer Γ) :
    (e.expect Γ' S).without f = e.expect Γ S := by
  rw [expect, expect, without_expecting, h]

lemma inferSubject_without (h : e.isHole = false → (e.infer Γ').without f = e.infer Γ) :
    (e.inferSubject Γ').without f = e.inferSubject Γ := by
  cases he : e.isHole <;> simp [inferSubject, he, h]

lemma expectDefault_without {S : Expectation}
    (h : e.isHole = false → (e.infer Γ').without f = e.infer Γ) :
    (e.expectDefault Γ' S).without f = e.expectDefault Γ S := by
  rw [expectDefault, expectDefault]
  cases he : e.isHole with
  | true => rfl
  | false => exact expect_without (h he)

lemma inferResults_without {p : Pos} {bs : List (Branch Expr)}
    (h : ∀ b ∈ bs, (b.result.infer Γ').without f = b.result.infer Γ) :
    (inferResults Γ' p bs).without f = inferResults Γ p bs := by
  cases bs with
  | nil => simp only [inferResults_nil]; rfl
  | cons b bs =>
      obtain ⟨hb, hbs⟩ := List.forall_mem_cons.mp h
      simp only [inferResults_cons, without_bind, hb, without_pure]
      refine congrArg _ (funext fun t => ?_)
      rw [without_forM fun b hb => expect_without (hbs b hb)]

/-- Apart from the bad calls of a function, nothing changes in the typing of a node when the
function is declared, if nothing else changes in its parts. -/
lemma infer_without_step (hΓ : Γ.Declares f n Γ') (he : e.Examinable)
    (hparts : ∀ c ∈ e.examinedParts, (c.infer Γ').without f = c.infer Γ) :
    (e.infer Γ').without f = e.infer Γ := by
  cases e with
  | unary p op a =>
      have ha := List.forall_mem_singleton.mp hparts
      rw [infer_unary, infer_unary, without_bind, expect_without ha, without_pure]
  | binary p op l r =>
      obtain ⟨hl, hr, -⟩ : _ ∧ _ ∧ True := by simpa [examinedParts, children] using hparts
      cases hop : op.operand? with
      | some S =>
          simp only [infer_binary_of_some _ p hop, without_bind, expect_without hl,
            expect_without hr, without_pure]
      | none =>
          simp only [infer_binary_of_none _ p hop, without_bind, hl, expect_without hr,
            without_pure]
  | call p g args =>
      have hargs : (args.mapM (infer Γ')).without f = args.mapM (infer Γ) := without_mapM hparts
      by_cases hg : g = f
      · subst hg
        obtain ⟨ts, hts⟩ : ∃ ts, (args.mapM (infer Γ')).result = some ts := by
          rw [← Option.isSome_iff_exists, isSome_mapM]
          exact fun a ha => (isSome_infer_iff Γ' a).mpr ((examinable_iff.mp he).2 a ha)
        rw [infer_call_of_none Γ p hΓ.unknown, infer_call_of_some Γ' p hΓ.declared, ← hargs,
          Signature.applied_userDefined_without hts]
      · have hlookup := hΓ.others g hg
        cases hσ : Γ.lookup g with
        | some σ =>
            rw [infer_call_of_some Γ p hσ, infer_call_of_some Γ' p (hlookup.trans hσ),
              Signature.applied_without hg, hargs]
        | none =>
            rw [infer_call_of_none Γ p hσ, infer_call_of_none Γ' p (hlookup.trans hσ),
              without_bind, hargs, without_pure]
  | index p a i =>
      have ha := List.forall_mem_singleton.mp hparts
      simp only [infer_index]
      split
      · rfl
      · rw [without_bind, ha, without_pure]
  | case p s bs d =>
      obtain ⟨hs, hconditions, hresults, hd⟩ := forall_mem_examinedParts_case_iff.mp hparts
      simp only [infer_case, without_bind, inferSubject_without hs, inferResults_without hresults,
        expectDefault_without hd, without_pure]
      refine congrArg _ (funext fun c => ?_)
      rw [without_forM fun b hb => expect_without (hconditions b hb)]
  | each p a =>
      have ha := List.forall_mem_singleton.mp hparts
      rw [infer_each, infer_each, ha]
  | _ =>
      simp only [infer]
      rfl

/-- Apart from the bad calls of a function, nothing changes in the typing of an expression when the
function is declared. -/
lemma infer_without (hΓ : Γ.Declares f n Γ') (he : e.Examinable) :
    (e.infer Γ').without f = e.infer Γ := by
  induction e using induct_children with
  | _ e ih =>
    refine infer_without_step hΓ he fun c hc => ?_
    exact ih c (mem_children_iff.mpr (Or.inl hc)) ((examinable_iff.mp he).2 c hc)

@[simp] lemma badCalls_expect (S : Expectation) :
    (e.expect Γ S).badCalls f = (e.infer Γ).badCalls f :=
  badCalls_expecting _ _ _

/-- The bad calls in the subject of a case, if there is one. -/
lemma badCalls_inferSubject :
    (e.inferSubject Γ).badCalls f = (e.given.map fun c => (c.infer Γ).badCalls f).sum := by
  cases he : e.isHole <;> simp [inferSubject, given, he]

/-- The bad calls in the default of a case, if there is one. -/
lemma badCalls_expectDefault (S : Expectation) :
    (e.expectDefault Γ S).badCalls f = (e.given.map fun c => (c.infer Γ).badCalls f).sum := by
  cases he : e.isHole <;> simp [expectDefault, given, he]

/-- The results of a case are all typed, and so their bad calls add up. -/
lemma badCalls_inferResults {p : Pos} {bs : List (Branch Expr)}
    (h : ∀ b ∈ bs, (b.result.infer Γ).result.isSome) :
    (inferResults Γ p bs).badCalls f = (bs.map fun b => (b.result.infer Γ).badCalls f).sum := by
  cases bs with
  | nil => rw [inferResults_nil]; rfl
  | cons b bs =>
      obtain ⟨hb, hbs⟩ := List.forall_mem_cons.mp h
      rw [inferResults_cons, List.map_cons, List.sum_cons]
      refine badCalls_bind hb fun t => ?_
      rw [badCalls_bind_pure, badCalls_forM fun b hb => by simpa using hbs b hb]
      simp only [badCalls_expect]

/-- The conditions and the results of branches can be summed up apart. -/
lemma sum_map_branches (g : Expr → Nat) (bs : List (Branch Expr)) :
    ((bs.flatMap fun b => [b.condition, b.result]).map g).sum =
      (bs.map fun b => g b.condition).sum + (bs.map fun b => g b.result).sum := by
  induction bs with
  | nil => rfl
  | cons b bs ih =>
      simp only [List.flatMap_cons, List.map_append, List.map_cons, List.map_nil, List.sum_append,
        List.sum_cons, List.sum_nil, ih]
      omega

/-- The bad calls of a declared function in an expression are those in its parts, and one more if it
is itself a call that does not fit. -/
lemma badCalls_infer_step (hΓ : Γ.lookup f = some (.userDefined n)) (he : e.Examinable) :
    (e.infer Γ).badCalls f =
      (if e.isMisfit f n then 1 else 0) +
        (e.examinedParts.map fun c => (c.infer Γ).badCalls f).sum := by
  have hparts : ∀ c ∈ e.examinedParts, (c.infer Γ).result.isSome := fun c hc =>
    (isSome_infer_iff Γ c).mpr ((examinable_iff.mp he).2 c hc)
  cases e with
  | unary p op a =>
      rw [infer_unary, badCalls_bind_pure]
      simp [isMisfit, examinedParts, children]
  | binary p op l r =>
      have hl : (l.infer Γ).result.isSome := hparts l List.mem_cons_self
      cases hop : op.operand? with
      | some S =>
          rw [infer_binary_of_some Γ p hop,
            badCalls_bind ((isSome_expect Γ S l).trans hl) fun _ => badCalls_bind_pure _ _]
          simp [isMisfit, examinedParts, children]
      | none =>
          rw [infer_binary_of_none Γ p hop, badCalls_bind hl fun t =>
            (badCalls_bind_pure _ _).trans (badCalls_expect (.exactly t))]
          simp [isMisfit, examinedParts, children]
  | call p g args =>
      have hargs : (args.mapM (infer Γ)).result.isSome := isSome_mapM.mpr hparts
      have hsum : (args.mapM (infer Γ)).badCalls f =
          (args.map fun c => (c.infer Γ).badCalls f).sum := badCalls_mapM hparts
      by_cases hg : g = f
      · subst hg
        obtain ⟨ts, hts⟩ := Option.isSome_iff_exists.mp hargs
        rw [infer_call_of_some Γ p hΓ, Signature.badCalls_applied_userDefined hts, hsum,
          length_of_result_mapM hts]
        simp [isMisfit, examinedParts, children]
      · simp only [isMisfit, examinedParts, children, ← hsum]
        cases hσ : Γ.lookup g with
        | some σ =>
            rw [infer_call_of_some Γ p hσ, Signature.badCalls_applied_of_ne hg σ p hargs]
            simp [hg]
        | none =>
            rw [infer_call_of_none Γ p hσ, badCalls_bind_pure]
            simp [hg]
  | index p a i =>
      have hi : i.isHole = false := (examinable_iff.mp he).1.2 i rfl
      rw [infer_index, hi, if_neg Bool.false_ne_true, badCalls_bind_pure]
      simp [isMisfit, examinedParts]
  | case p s bs d =>
      obtain ⟨hs, hconditions, hresults, -⟩ := forall_mem_examinedParts_case_iff.mp hparts
      have hsubject : (s.inferSubject Γ).result.isSome :=
        isSome_inferSubject.mpr (forall_mem_given_iff.mpr hs)
      have hrest (c : Ty) :
          (forM bs (fun b => b.condition.expect Γ (.exactly c)) >>= fun _ =>
            inferResults Γ p bs >>= fun t =>
              d.expectDefault Γ (.exactly t) >>= fun _ => pure t).badCalls f =
            (bs.map fun b => (b.condition.infer Γ).badCalls f).sum +
              ((bs.map fun b => (b.result.infer Γ).badCalls f).sum +
                (d.given.map fun c => (c.infer Γ).badCalls f).sum) := by
        have hforM : ∀ b ∈ bs, (b.condition.expect Γ (.exactly c)).result.isSome := fun b hb =>
          (isSome_expect Γ _ _).trans (hconditions b hb)
        rw [badCalls_bind (isSome_forM.mpr hforM) fun _ =>
            badCalls_bind (isSome_inferResults.mpr hresults) fun t =>
              (badCalls_bind_pure _ _).trans (badCalls_expectDefault (.exactly t)),
          badCalls_forM hforM, badCalls_inferResults hresults]
        simp only [badCalls_expect]
      rw [infer_case, badCalls_bind hsubject hrest, badCalls_inferSubject]
      simp only [isMisfit, examinedParts, children, List.map_append, List.sum_append,
        sum_map_branches, Nat.add_assoc]
      simp
  | each p a => simp [infer_each, isMisfit, examinedParts, children]
  | _ => simp [infer, isMisfit, examinedParts, children]

/-- **Bad calls of a declared function** are found once for each call with another number of
arguments that is looked at. -/
lemma badCalls_infer (hΓ : Γ.lookup f = some (.userDefined n)) (he : e.Examinable) :
    (e.infer Γ).badCalls f = e.examined.countP (isMisfit f n) := by
  induction e using induct_children with
  | _ e ih =>
    rw [badCalls_infer_step hΓ he, examined_eq, List.countP_cons, List.countP_flatMap, Nat.add_comm]
    congr 2
    refine List.map_congr_left fun c hc => ?_
    exact ih c (mem_children_iff.mpr (Or.inl hc)) ((examinable_iff.mp he).2 c hc)

end Expr

end QueryAnalysis
