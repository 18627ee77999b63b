import Mathlib.Data.List.Nodup
import Mathlib.Data.List.Perm.Subperm
import QueryAnalysis.Proofs.Expr.Violations

/-!
No node is blamed twice. A node can be blamed by its parent, for being of the wrong type, and on its
own account, for a call that is not allowed or for a case without branches. But what is blamed on
its own account gets the unknown type, and of that type nothing is wrong anywhere.

* `Expr.BlamedOnce`: the findings in an expression point at different nodes of those that are looked
  at, and not at the root if its type is known.
* `BlamedOnce.step`: this passes from the parts of a node to the node.
* `Expr.blamedOnce`: so it holds of every expression.
* `Expr.infer_blames_once`: if these nodes are at different positions, then so are the findings.
-/

namespace QueryAnalysis

open scoped List

/-- Containment with repetitions counted goes through `flatMap`. -/
lemma subperm_flatMap {α β : Type} {f g : α → List β} {as : List α} (h : ∀ a ∈ as, f a <+~ g a) :
    as.flatMap f <+~ as.flatMap g := by
  induction as with
  | nil => exact List.Subperm.refl _
  | cons a as ih =>
      obtain ⟨ha, has⟩ := List.forall_mem_cons.mp h
      rw [List.flatMap_cons, List.flatMap_cons]
      exact ha.append (ih has)

namespace Expr

open Diagnosis

variable {Γ : Env} {e : Expr}

/-- The positions that the findings in an expression point at. -/
def blamed (Γ : Env) (e : Expr) : List Pos :=
  (e.infer Γ).diagnostics.map Diagnostic.pos

/-- The findings in an expression point at different nodes, and if the type of the expression is
known, at nodes below its root. -/
structure BlamedOnce (Γ : Env) (e : Expr) : Prop where
  nodes : e.blamed Γ <+~ e.examined.map pos
  root : e.inferred Γ ≠ .unknown → e.pos :: e.blamed Γ <+~ e.examined.map pos

/-- A call that the signature rejects is of unknown type. -/
lemma inferred_call_of_rejects {p : Pos} {f : String} {args : List Expr} {σ : Signature}
    (hargs : ∀ a ∈ args, a.Examinable) (hf : Γ.lookup f = some σ)
    (hσ : σ.Rejects (args.map (inferred Γ))) : (call p f args).inferred Γ = .unknown := by
  have htypes := mapM_eq_of_forall (f := infer Γ) fun a ha => result_infer (hargs a ha)
  rw [inferred, infer_call_of_some Γ p hf, htypes, Signature.applied]
  simp only [Signature.result?_eq_none_iff.mpr hσ, Option.getD_some]

/-- A case without branches is of unknown type. -/
lemma inferred_case_nil {p : Pos} {s d : Expr} (he : (case p s [] d).Examinable) :
    (case p s [] d).inferred Γ = .unknown := by
  obtain ⟨t, ht⟩ := Option.isSome_iff_exists.mp ((isSome_infer_iff Γ _).mpr he)
  rw [inferred, ht, Option.getD_some]
  -- whatever the subject and the default are, the type comes from the branches
  simp only [infer_case, inferResults_nil, result_bind, Option.bind_eq_some_iff] at ht
  obtain ⟨_, -, _, -, t', ⟨_, -, ht'⟩, _, -, ht⟩ := ht
  exact (Option.some.inj ht).symm.trans (Option.some.inj ht').symm

/-- What is blamed on its own account is of unknown type. -/
lemma ownFindings_cases (he : e.Examinable) :
    e.ownFindings Γ.lookup (inferred Γ) = [] ∨
      (e.ownFindings Γ.lookup (inferred Γ)).map Diagnostic.pos = [e.pos] ∧
        e.inferred Γ = .unknown := by
  cases e with
  | call p f args =>
      have hargs : ∀ a ∈ args, a.Examinable := (examinable_iff.mp he).2
      rw [ownFindings, refused]
      cases hf : Γ.lookup f with
      | none => exact Or.inl rfl
      | some σ =>
          by_cases hσ : σ.Rejects (args.map (inferred Γ))
          · exact Or.inr ⟨by simp [hσ, Diagnostic.pos, pos], inferred_call_of_rejects hargs hf hσ⟩
          · exact Or.inl (if_neg hσ)
  | case p s bs d =>
      cases bs with
      | nil => exact Or.inr ⟨rfl, inferred_case_nil he⟩
      | cons b bs => exact Or.inl rfl
  | _ => exact Or.inl rfl

/-- Blame for the type of an expression comes on top of the blame inside of it, but only if the type
is known. -/
lemma BlamedOnce.expect (h : e.BlamedOnce Γ) (he : e.Examinable) (S : Expectation) :
    (e.expect Γ S).diagnostics.map Diagnostic.pos <+~ e.examined.map pos := by
  rw [diagnostics_expect he, fault, List.map_append]
  by_cases hS : S.Admits (e.inferred Γ)
  · rw [if_pos hS, List.map_nil, List.append_nil]
    exact h.nodes
  · have hknown : e.inferred Γ ≠ .unknown := fun ht => hS (ht ▸ S.admits_unknown)
    rw [if_neg hS]
    exact (List.perm_append_comm.subperm).trans (h.root hknown)

/-- The parts of a node are blamed at nodes below it, which leaves the node itself for a finding of
its own. -/
lemma BlamedOnce.step (he : e.Examinable) (hparts : ∀ c ∈ e.examinedParts, c.BlamedOnce Γ) :
    e.BlamedOnce Γ := by
  have hbelow : ((e.demands (inferred Γ)).flatMap fun q => (q.1.expect Γ q.2).diagnostics).map
      Diagnostic.pos <+~ (e.examinedParts.flatMap examined).map pos := by
    rw [List.map_flatMap, List.map_flatMap]
    have hdemands := (demands_parts (inferred Γ) e).flatMap_right fun c => c.examined.map pos
    rw [List.flatMap_map] at hdemands
    refine (subperm_flatMap fun q hq => ?_).trans hdemands.subperm
    have hq' := mem_examinedParts_of_mem_demands hq
    exact (hparts q.1 hq').expect ((examinable_iff.mp he).2 q.1 hq') q.2
  have hstep := (diagnostics_infer_step (Γ := Γ) he).map Diagnostic.pos
  rw [List.map_append] at hstep
  have hnodes : e.examined.map pos = e.pos :: (e.examinedParts.flatMap examined).map pos := by
    rw [examined_eq, List.map_cons]
  rcases ownFindings_cases (Γ := Γ) he with hown | ⟨hown, hunknown⟩
  · rw [hown, List.map_nil, List.nil_append] at hstep
    have hblamed : e.blamed Γ <+~ (e.examinedParts.flatMap examined).map pos :=
      hstep.subperm.trans hbelow
    constructor
    · exact hnodes ▸ hblamed.cons_right _
    · intro _
      exact hnodes ▸ (List.subperm_cons e.pos).mpr hblamed
  · rw [hown] at hstep
    constructor
    · exact hnodes ▸ hstep.subperm.trans ((List.subperm_cons e.pos).mpr hbelow)
    · intro hknown
      exact absurd hunknown hknown

/-- Every node that is looked at is blamed once at most. -/
lemma blamedOnce (he : e.Examinable) : e.BlamedOnce Γ := by
  induction e using induct_children with
  | _ e ih =>
    exact .step he fun c hc =>
      ih c (mem_children_iff.mpr (Or.inl hc)) ((examinable_iff.mp he).2 c hc)

/-- **No cascades.** If the typing of an expression runs to its end, and the nodes that it looks at
are at different positions, then no two findings are at the same position, and each of them is at
the position of such a node. So every node is blamed once at most, and there are no more findings
than nodes. -/
theorem infer_blames_once (Γ : Env) (e : Expr) (h : (e.infer Γ).result.isSome)
    (hpos : (e.examined.map pos).Nodup) :
    ((e.infer Γ).diagnostics.map Diagnostic.pos).Nodup ∧
      (∀ d ∈ (e.infer Γ).diagnostics, ∃ n ∈ e.examined, d.pos = n.pos) ∧
      (∀ n ∈ e.examined, (e.infer Γ).diagnostics.countP (fun d => d.pos = n.pos) ≤ 1) ∧
      (e.infer Γ).diagnostics.length ≤ e.examined.length := by
  have hblamed : e.blamed Γ <+~ e.examined.map pos :=
    (blamedOnce ((isSome_infer_iff Γ e).mp h)).nodes
  have hnodup : (e.blamed Γ).Nodup := by
    obtain ⟨l, hl, hsub⟩ := hblamed
    exact hl.nodup_iff.mp (hsub.nodup hpos)
  refine ⟨hnodup, fun d hd => ?_, fun n _ => ?_, ?_⟩
  · obtain ⟨n, hn, hnd⟩ := List.mem_map.mp (hblamed.subset (List.mem_map_of_mem hd))
    exact ⟨n, hn, hnd.symm⟩
  · have hcount : (e.blamed Γ).count n.pos ≤ 1 := List.nodup_iff_count_le_one.mp hnodup n.pos
    rw [blamed, List.count, List.countP_map] at hcount
    exact hcount
  · have hlength := hblamed.length_le
    rwa [blamed, List.length_map, List.length_map] at hlength

/-- A condition with calls that are not allowed and a case without branches, in places where truth
values are expected. None of them is blamed again on the way up, and the default is not held to the
type of the first result. -/
def totalCondition : Expr :=
  .binary ⟨1, 1⟩ .and
    (.each ⟨1, 2⟩ (.call ⟨1, 3⟩ "sum" [.literal ⟨1, 4⟩ .string "price"]))
    (.unary ⟨2, 1⟩ .not
      (.case ⟨2, 2⟩ .hole [⟨.case ⟨2, 3⟩ .hole [] .hole, .call ⟨2, 4⟩ "abs" []⟩]
        (.literal ⟨2, 5⟩ .string "none")))

/-- The typing runs to its end with findings, and no two of them are at the same position. -/
theorem totalCondition_blamed_once :
    (totalCondition.infer .builtins).result.isSome ∧ (totalCondition.examined.map pos).Nodup ∧
      (totalCondition.infer .builtins).diagnostics ≠ [] ∧
      ((totalCondition.infer .builtins).diagnostics.map Diagnostic.pos).Nodup := by
  have h : (totalCondition.infer .builtins).result.isSome := by decide
  have hpos : (totalCondition.examined.map pos).Nodup := by decide
  exact ⟨h, hpos, by decide, (infer_blames_once .builtins totalCondition h hpos).1⟩

end Expr

end QueryAnalysis
