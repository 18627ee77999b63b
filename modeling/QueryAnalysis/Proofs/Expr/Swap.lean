import Mathlib.Logic.Relation
import QueryAnalysis.Proofs.Expr.Congruence

/-!
Expressions with exchanged operands. The operands of an operator are checked from left to right, and
a test for equality holds the right one to the type of the left one; so exchanging them changes the
order of the findings, and which of the two operands is found to be at fault. How much is wrong
stays the same.

* `Diagnostic.SameExtent`, `Diagnosis.SameExtent`: as many findings, with the same bad calls, and
  for checks also the same value.
* `Diagnosis.SameExtent.comm`: two checks that do not depend on each other.
* `Expr.Swapped`: one expression comes from another by exchanging the operands of any of its
  operators.
* `Expr.infer_swapped`: what can be said of the typing.
-/

namespace QueryAnalysis

/-! ### As much is wrong -/

/-- There are as many findings, and the same bad calls among them. -/
structure Diagnostic.SameExtent (ds ds' : List Diagnostic) : Prop where
  length : ds'.length = ds.length
  badCalls : (ds'.filter fun d => d.kind = .badCall).Perm (ds.filter fun d => d.kind = .badCall)

namespace Diagnostic.SameExtent

variable {ds ds' es es' : List Diagnostic}

lemma of_perm (h : ds'.Perm ds) : SameExtent ds ds' :=
  ⟨h.length_eq, h.filter _⟩

lemma refl (ds : List Diagnostic) : SameExtent ds ds :=
  of_perm (.refl ds)

lemma trans (h : SameExtent ds ds') (h' : SameExtent ds' es) : SameExtent ds es :=
  ⟨h'.length.trans h.length, h'.badCalls.trans h.badCalls⟩

lemma append (h : SameExtent ds ds') (h' : SameExtent es es') :
    SameExtent (ds ++ es) (ds' ++ es') where
  length := by rw [List.length_append, List.length_append, h.length, h'.length]
  badCalls := by
    rw [List.filter_append, List.filter_append]
    exact h.badCalls.append h'.badCalls

end Diagnostic.SameExtent

namespace Diagnosis

variable {α β γ : Type}

/-- If the first check yields a value, then the second one yields it too, and finds as much. -/
def SameExtent (x y : Diagnosis α) : Prop :=
  ∀ a, x.result = some a → y.result = some a ∧ Diagnostic.SameExtent x.diagnostics y.diagnostics

namespace SameExtent

variable {x y z : Diagnosis α}

lemma refl (x : Diagnosis α) : x.SameExtent x :=
  fun _ ha => ⟨ha, .refl _⟩

lemma trans (h : x.SameExtent y) (h' : y.SameExtent z) : x.SameExtent z := by
  intro a hx
  obtain ⟨hy, hxy⟩ := h a hx
  obtain ⟨hz, hyz⟩ := h' a hy
  exact ⟨hz, hxy.trans hyz⟩

/-- Of two sequences, the second one finds as much if this is so step by step. -/
lemma bind {f g : α → Diagnosis β} (h : x.SameExtent y)
    (hfg : ∀ a, x.result = some a → (f a).SameExtent (g a)) : (x >>= f).SameExtent (y >>= g) := by
  intro b hb
  rw [result_bind] at hb
  obtain ⟨a, hx, hfa⟩ := Option.bind_eq_some_iff.mp hb
  obtain ⟨hy, hxy⟩ := h a hx
  obtain ⟨hga, hfga⟩ := hfg a hx b hfa
  rw [result_bind_of_some hy, diagnostics_bind_of_some hx, diagnostics_bind_of_some hy]
  exact ⟨hga, hxy.append hfga⟩

/-- **Two checks that do not depend on each other** can be made in any order. -/
lemma comm (x : Diagnosis α) (y : Diagnosis β) {f : α → β → Diagnosis γ} {g : β → α → Diagnosis γ}
    (hfg : ∀ a b, (f a b).SameExtent (g b a)) :
    (x >>= fun a => y >>= fun b => f a b).SameExtent (y >>= fun b => x >>= fun a => g b a) := by
  intro c hc
  rw [result_bind] at hc
  obtain ⟨a, hx, hc⟩ := Option.bind_eq_some_iff.mp hc
  rw [result_bind] at hc
  obtain ⟨b, hy, hfab⟩ := Option.bind_eq_some_iff.mp hc
  obtain ⟨hgba, hextent⟩ := hfg a b c hfab
  rw [result_bind_of_some hy, result_bind_of_some hx, diagnostics_bind_of_some hx,
    diagnostics_bind_of_some hy, diagnostics_bind_of_some hy, diagnostics_bind_of_some hx,
    ← List.append_assoc, ← List.append_assoc]
  exact ⟨hgba, (Diagnostic.SameExtent.of_perm List.perm_append_comm).append hextent⟩

/-- Which call is bad depends on the types of the arguments, and not on what was found in them. -/
lemma applied {x y : Diagnosis (List Ty)} (h : x.SameExtent y) (σ : Signature) (f : String)
    (p : Pos) : (σ.applied f p x).SameExtent (σ.applied f p y) := by
  intro t ht
  cases hx : x.result with
  | none =>
      rw [Signature.applied, hx] at ht
      cases ht
  | some ts =>
      obtain ⟨hy, hxy⟩ := h ts hx
      simp only [Signature.applied, hx, hy] at ht ⊢
      cases hσ : σ.result? ts with
      | some u =>
          simp only [hσ] at ht ⊢
          exact ⟨ht, hxy⟩
      | none =>
          simp only [hσ] at ht ⊢
          exact ⟨ht, (Diagnostic.SameExtent.refl [_]).append hxy⟩

end SameExtent

/-- To find as much is a relation that goes through sequences of checks and through calls. -/
lemma congruence_sameExtent : Congruence @SameExtent where
  refl := .refl
  bind := .bind
  applied := .applied

end Diagnosis

/-! ### Exchanged operands -/

/-- The operands of an operator change places. -/
def Edit.exchange : Edit where
  expr e e' := ∃ p op l r, e = .binary p op l r ∧ e' = .binary p op r l
  plan _ _ := False
  query _ := False

namespace Expr

open Diagnosis

variable {Γ : Env} {e e' l l' r r' : Expr} {p : Pos} {op : BinaryOp}

/-- The second expression comes from the first one by exchanging the operands of some of its
operators, wherever they stand. If one of them stands in an operand of another one, then the two are
exchanged one after the other. -/
def Swapped : Expr → Expr → Prop :=
  Relation.ReflTransGen (Edited .exchange)

/-- Exchanges in the operands of an operator that stays as it is. -/
lemma Swapped.keep (hl : l.Swapped l') (hr : r.Swapped r') :
    (binary p op l r).Swapped (binary p op l' r') := by
  have hleft : (binary p op l r).Swapped (binary p op l' r) := by
    induction hl with
    | refl => exact .refl
    | tail _ h ih => exact ih.tail (.binary h (.same r))
  induction hr with
  | refl => exact hleft
  | tail _ h ih => exact ih.tail (.binary (.same l') h)

/-- Exchanges in the operands of an operator that are themselves exchanged. -/
lemma Swapped.swap (hl : l.Swapped l') (hr : r.Swapped r') :
    (binary p op l r).Swapped (binary p op r' l') :=
  (hl.keep hr).tail (.here ⟨p, op, l', r', rfl, rfl⟩)

/-- Whether two types can be equal does not depend on which of them is expected. -/
lemma sameExtent_compare (t u : Ty) (q q' : Pos) :
    SameExtent (if (Expectation.exactly t).Admits u then pure ()
        else report (.typeMismatch (Expectation.exactly t).primary u q))
      (if (Expectation.exactly u).Admits t then pure ()
        else report (.typeMismatch (Expectation.exactly u).primary t q')) := by
  have hsymm : (Expectation.exactly t).Admits u ↔ (Expectation.exactly u).Admits t := by
    rw [Expectation.admits_exactly, Expectation.admits_exactly, eq_comm]
    tauto
  by_cases h : (Expectation.exactly t).Admits u
  · rw [if_pos h, if_pos (hsymm.mp h)]
    exact .refl _
  · rw [if_neg h, if_neg (mt hsymm.mpr h)]
    exact fun _ _ => ⟨rfl, rfl, .refl _⟩

/-- The operands of a single operator change places. -/
lemma infer_exchange (Γ : Env) (p : Pos) (op : BinaryOp) (l r : Expr) :
    ((binary p op l r).infer Γ).SameExtent ((binary p op r l).infer Γ) := by
  cases hop : op.operand? with
  | some S =>
      rw [infer_binary_of_some Γ p hop, infer_binary_of_some Γ p hop]
      exact .comm _ _ fun _ _ => .refl _
  | none =>
      simp only [infer_binary_of_none Γ p hop, expect, expecting, bind_assoc]
      exact .comm _ _ fun t u => (sameExtent_compare t u r.pos l.pos).bind fun _ _ => .refl _

/-- Where operands are exchanged, as much is wrong, and the operator keeps its place. -/
lemma respects_exchange (Γ : Env) : Edit.exchange.Respects Γ @SameExtent where
  here := by
    rintro _ _ ⟨p, op, l, r, rfl, rfl⟩
    exact infer_exchange Γ p op l r
  pos := by
    rintro _ _ ⟨p, op, l, r, rfl, rfl⟩ -
    rfl
  subscript := by
    rintro _ _ ⟨p, op, l, r, rfl, rfl⟩ x y hxy
    exact hxy

/-- With exchanged operands, the type stays the same, and as much is wrong. -/
lemma Swapped.infer_sameExtent (h : e.Swapped e') : (e.infer Γ).SameExtent (e'.infer Γ) := by
  induction h with
  | refl => exact .refl _
  | tail _ hstep ih =>
      exact ih.trans (hstep.infer_related congruence_sameExtent (respects_exchange Γ))

/-- No finding comes up by exchanging operands where there was none. -/
lemma accepted_of_swapped {t : Ty} (h : e.Swapped e') (he : e.infer Γ = pure t) :
    e'.infer Γ = pure t := by
  obtain ⟨hdiagnostics, hresult⟩ := eq_pure_iff.mp he
  obtain ⟨hresult', hextent⟩ := h.infer_sameExtent t hresult
  rw [hdiagnostics] at hextent
  exact eq_pure_iff.mpr ⟨List.length_eq_zero_iff.mp hextent.length, hresult'⟩

/-- **The order of operands does not matter for how much is wrong.** If an expression has a type,
then so it has after the operands of any of its operators were exchanged, and the type is the same.
There are as many findings, and the same bad calls among them. In particular, a test for equality is
accepted if and only if it is with its sides exchanged. -/
theorem infer_swapped (Γ : Env) :
    (∀ e e' : Expr, e.Swapped e' → (e.infer Γ).result.isSome →
      (e'.infer Γ).result = (e.infer Γ).result ∧
        (e'.infer Γ).diagnostics.length = (e.infer Γ).diagnostics.length ∧
        ((e'.infer Γ).diagnostics.filter fun d => d.kind = .badCall).Perm
          ((e.infer Γ).diagnostics.filter fun d => d.kind = .badCall)) ∧
      ∀ p l r, (∃ t, (binary p .equal l r).infer Γ = pure t) ↔
        ∃ t, (binary p .equal r l).infer Γ = pure t := by
  constructor
  · intro e e' h hsome
    obtain ⟨t, ht⟩ := Option.isSome_iff_exists.mp hsome
    obtain ⟨ht', hextent⟩ := h.infer_sameExtent t ht
    exact ⟨ht'.trans ht.symm, hextent.length, hextent.badCalls⟩
  · have hswap (p : Pos) (l r : Expr) : (binary p .equal l r).Swapped (binary p .equal r l) :=
      .swap .refl .refl
    intro p l r
    exact ⟨fun ⟨t, h⟩ => ⟨t, accepted_of_swapped (hswap p l r) h⟩,
      fun ⟨t, h⟩ => ⟨t, accepted_of_swapped (hswap p r l) h⟩⟩

/-- A sum of a comparison and a bad call. -/
def mixedTotal : Expr :=
  .binary ⟨1, 1⟩ .plus
    (.binary ⟨1, 2⟩ .equal (.literal ⟨2, 1⟩ .string "t") (.literal ⟨2, 2⟩ .integer "1"))
    (.call ⟨3, 1⟩ "sum" [.literal ⟨3, 2⟩ .string "t"])

/-- The sum with the operands of both operators exchanged. -/
def mixedTotalSwapped : Expr :=
  .binary ⟨1, 1⟩ .plus
    (.call ⟨3, 1⟩ "sum" [.literal ⟨3, 2⟩ .string "t"])
    (.binary ⟨1, 2⟩ .equal (.literal ⟨2, 2⟩ .integer "1") (.literal ⟨2, 1⟩ .string "t"))

/-- The two findings change places, and the other side of the comparison is found at fault. -/
theorem mixedTotal_swapped :
    mixedTotal.Swapped mixedTotalSwapped ∧
      (mixedTotal.infer .builtins).result = some .numeric ∧
      (mixedTotal.infer .builtins).diagnostics =
        [.typeMismatch .string .numeric ⟨2, 2⟩, .badCall "sum" ⟨3, 1⟩] ∧
      (mixedTotalSwapped.infer .builtins).diagnostics =
        [.badCall "sum" ⟨3, 1⟩, .typeMismatch .numeric .string ⟨2, 1⟩] ∧
      (mixedTotalSwapped.infer .builtins).result = (mixedTotal.infer .builtins).result := by
  have h : mixedTotal.Swapped mixedTotalSwapped := .swap (.swap .refl .refl) .refl
  exact ⟨h, by decide, by decide, by decide, ((infer_swapped .builtins).1 _ _ h (by decide)).1⟩

end Expr

end QueryAnalysis
