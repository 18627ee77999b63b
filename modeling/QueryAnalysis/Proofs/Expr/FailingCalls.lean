import QueryAnalysis.Proofs.Collecting
import QueryAnalysis.Proofs.Expr.Congruence
import QueryAnalysis.Proofs.Expr.Examined

/-!
Calls that cannot be judged. A call of a known function is judged by the types of its arguments, and
if one of these has no type because something is missing, then neither the call nor anything in its
arguments leaves a finding.

* `Expr.IsFailingCall`: a call of this kind.
* `Expr.IsFailingCall.infer_eq`: its typing fails at once, as that of an empty place does.
* `Edit.dropFailingCalls`: a negation of nothing in place of such calls.
* `Expr.collect_dropFailingCalls`: this makes no difference for an expression that they stand in.
-/

namespace QueryAnalysis

open Diagnosis

namespace Expr

variable {Γ : Env} {c : Expr}

/-- A call of a function in scope, with an argument that is missing or whose typing fails. -/
def IsFailingCall (Γ : Env) (c : Expr) : Prop :=
  ∃ p f args, c = call p f args ∧ (Γ.lookup f).isSome ∧
    ∃ a ∈ args, a.isHole = true ∨ ∃ L, ((a.collect Γ).runFrom L).1 = none

/-- The typing of such a call fails before it finds anything. -/
lemma IsFailingCall.infer_eq (h : IsFailingCall Γ c) : c.infer Γ = .incomplete := by
  obtain ⟨p, f, args, rfl, hf, a, ha, hfails⟩ := h
  obtain ⟨σ, hσ⟩ := Option.isSome_iff_exists.mp hf
  have hnone : (a.infer Γ).result = none := by
    rcases hfails with hhole | ⟨L, hrun⟩
    · rw [eq_hole_of_isHole hhole, infer]
      rfl
    · rwa [collect_eq, runFrom_replay] at hrun
  have hargs : (args.mapM (infer Γ)).result = none := by
    rw [← Option.not_isSome_iff_eq_none, isSome_mapM]
    intro hall
    have hsome := hall a ha
    rw [hnone] at hsome
    cases hsome
  rw [infer_call_of_some Γ p hσ, Signature.applied, hargs]

/-- The negation of nothing fails as an empty place does. -/
lemma infer_not_hole (Γ : Env) (p : Pos) : (unary p .not hole).infer Γ = .incomplete := by
  rw [infer_unary, expect, infer]
  rfl

/-- A call of a function in scope fails together with any such call that its typing comes to. -/
lemma isFailingCall_of_mem_examined {p : Pos} {f : String} {args : List Expr}
    (hf : (Γ.lookup f).isSome) {a n : Expr} (ha : a ∈ args) (hn : n ∈ a.examined)
    (h : IsFailingCall Γ n) : IsFailingCall Γ (call p f args) := by
  refine ⟨p, f, args, rfl, hf, a, ha, Or.inr ⟨[], ?_⟩⟩
  rw [collect_eq, runFrom_replay, ← Option.not_isSome_iff_eq_none, isSome_infer_iff]
  intro hexaminable
  have hsome := (isSome_infer_iff Γ n).mpr (hexaminable.of_mem_examined hn)
  rw [h.infer_eq] at hsome
  cases hsome

end Expr

/-- Failing calls make way for a negation of nothing. -/
def Edit.dropFailingCalls (Γ : Env) : Edit where
  expr c c' := c.IsFailingCall Γ ∧ ∃ p, c' = .unary p .not .hole
  plan _ _ := False
  query _ := False

/-- A failing call and the negation of nothing are typed alike, and neither of them is empty. -/
lemma Edit.respects_dropFailingCalls (Γ : Env) :
    (dropFailingCalls Γ).Respects Γ fun x y => x = y where
  here := by
    rintro c _ ⟨hc, p, rfl⟩
    rw [hc.infer_eq, Expr.infer_not_hole]
  pos := by
    rintro c _ ⟨hc, p, rfl⟩ hsome
    rw [hc.infer_eq] at hsome
    cases hsome
  subscript := by
    rintro c _ ⟨⟨p, f, args, rfl, -⟩, q, rfl⟩ x y hxy
    exact hxy

namespace Expr

/-- **A failing call of a known function leaves no trace.** Let any number of calls in an expression
be of functions in scope, and have an argument that is missing or whose typing fails. Wherever they
stand, the typing of the expression is the same, whether it yields a type or not and with all that
it leaves in the list, as if in their place there were a negation of nothing, which fails before it
finds anything. So does every such call, whatever is wrong in its arguments; and a call of a known
function is of this kind as well if one stands in its arguments, at any depth but not in a
subscript. -/
theorem collect_dropFailingCalls (Γ : Env) :
    (∀ (e e' : Expr) L, e.Edited (.dropFailingCalls Γ) e' →
      (e.collect Γ).runFrom L = (e'.collect Γ).runFrom L) ∧
      (∀ p L, ((unary p .not hole).collect Γ).runFrom L = (none, L)) ∧
      (∀ (c : Expr) L, IsFailingCall Γ c → (c.collect Γ).runFrom L = (none, L)) ∧
      ∀ p f args, (Γ.lookup f).isSome →
        (∃ a ∈ args, ∃ n ∈ a.examined, IsFailingCall Γ n) → IsFailingCall Γ (call p f args) := by
  -- what fails without a finding leaves the list as it is
  have hsilent {c : Expr} (hc : c.infer Γ = .incomplete) (L : List Diagnostic) :
      (c.collect Γ).runFrom L = (none, L) := by
    rw [collect_eq, runFrom_replay, hc, result_incomplete, diagnostics_incomplete, List.append_nil]
  refine ⟨fun e e' L h => ?_, fun p => hsilent (infer_not_hole Γ p),
    fun c L hc => hsilent hc.infer_eq L, fun p f args hf ⟨a, ha, n, hn, h⟩ =>
      isFailingCall_of_mem_examined hf ha hn h⟩
  have hinfer : e.infer Γ = e'.infer Γ :=
    h.infer_related congruence_eq (Edit.respects_dropFailingCalls Γ)
  rw [collect_eq, collect_eq, hinfer]

/-- A price with a text in it. The second operand is of no importance for that. -/
def surcharge (rate : Expr) : Expr :=
  .binary ⟨1, 1⟩ .plus (.literal ⟨1, 2⟩ .string "EUR") rate

/-- A call with a bad call in its first argument, and without a second one. -/
def cappedRate : Expr :=
  .call ⟨2, 1⟩ "mod" [.call ⟨2, 2⟩ "abs" [.literal ⟨2, 3⟩ .boolean "TRUE"], .hole]

/-- The text is still found to be no number, but the bad call of `abs` in the first argument of
`mod` is not reported, since the second argument is missing. A call around all of it fails too. -/
theorem surcharge_dropFailingCalls :
    ((surcharge cappedRate).collect .builtins).runFrom [] =
        ((surcharge (.unary {} .not .hole)).collect .builtins).runFrom [] ∧
      ((surcharge cappedRate).collect .builtins).runFrom [] =
        (none, [.typeMismatch .numeric .string ⟨1, 2⟩]) ∧
      IsFailingCall .builtins (.call ⟨3, 1⟩ "abs" [surcharge cappedRate]) := by
  obtain ⟨hsame, -, -, houter⟩ := collect_dropFailingCalls .builtins
  have hfails : IsFailingCall .builtins cappedRate :=
    ⟨_, _, _, rfl, rfl, .hole, by simp, Or.inl rfl⟩
  refine ⟨hsame _ _ [] (.binary (.same _) (.here ⟨hfails, {}, rfl⟩)), by decide, ?_⟩
  have hexamined : cappedRate ∈ (surcharge cappedRate).examined := by
    simp [surcharge, cappedRate, examined]
  exact houter ⟨3, 1⟩ "abs" [surcharge cappedRate] rfl ⟨_, List.mem_cons_self, _, hexamined, hfails⟩

end Expr

end QueryAnalysis
