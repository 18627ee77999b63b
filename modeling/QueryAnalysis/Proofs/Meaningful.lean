import QueryAnalysis.Proofs.Agreement
import QueryAnalysis.Proofs.Plan.Findings

/-!
Findings that say something. What an operand is held to is often made up on the way, from the type
of another operand, of the subject of a case or of its first result. So it takes an invariant of all
types that can come up to see that no mismatch is between a type and itself, or with a type that
nobody knows.

* `YieldsValues`: calls have the type of a value, or none that is known. This can be read off the
  table of built-in functions.
* `Expr.result_infer_ne_unit`: so has every expression.
* `Expectation.Proper`, with `Expr.proper_of_mem_demands`: what operands are held to.
* `Diagnostic.Grounded`: the finding makes sense, and is about one of some nodes.
* `Expr.grounded_of_mem_infer`, `Task.grounded_of_mem_run`: all findings are of this kind.
* `Program.analyze_meaningful`: what follows for the findings about a program.
-/

namespace QueryAnalysis

open Diagnosis

variable {R : String → Option Signature} {ty : Expr → Ty} {Γ : Env} {e c : Expr} {d : Diagnostic}
  {ns : List Expr}

/-! ### Types of calls -/

/-- No function yields the type that marks the absence of a value. -/
def YieldsValues (R : String → Option Signature) : Prop :=
  ∀ f σ ts, R f = some σ → σ.result? ts ≠ some .unit

/-- A signature only yields the types of its overloads, and for a defined function none that is
known. -/
lemma Signature.result?_ne_unit {σ : Signature}
    (h : ∀ os ∈ σ.overloads?, ∀ o ∈ os, o.result ≠ .unit) (ts : List Ty) :
    σ.result? ts ≠ some .unit := by
  intro hunit
  cases σ with
  | builtin os =>
      rw [result?, Option.map_eq_some_iff] at hunit
      obtain ⟨o, ho, hresult⟩ := hunit
      exact h os rfl o (List.mem_of_find?_eq_some ho) hresult
  | userDefined n =>
      rw [result?, Option.ite_none_right_eq_some] at hunit
      cases hunit.2

/-- All built-in functions yield values. -/
lemma Env.yieldsValues_builtins : YieldsValues builtins.lookup := by
  have hown : ∀ d ∈ builtins.own, ∀ os ∈ d.2.overloads?, ∀ o ∈ os, o.result ≠ .unit := by decide
  intro f σ ts hf
  exact Signature.result?_ne_unit (Env.forall_builtins
    (Q := fun σ => ∀ os ∈ σ.overloads?, ∀ o ∈ os, o.result ≠ .unit) hown hf) ts

/-- So do all functions that are in scope in a program. -/
lemma Program.yieldsValues_env (P : Program) : YieldsValues (P.env (some .builtins)).lookup := by
  intro f σ ts h
  rw [lookup_env, resolve, Option.or_eq_some_iff, Option.map_eq_some_iff] at h
  obtain ⟨d, -, rfl⟩ | ⟨-, hbuiltin⟩ := h
  · exact Signature.result?_ne_unit (σ := .userDefined _) (fun os hos => by cases hos) ts
  · exact Env.yieldsValues_builtins f σ ts hbuiltin

/-! ### Types of expressions -/

/-- A value that the second check never yields is not that of the sequence. -/
lemma Diagnosis.result_bind_ne {α β : Type} {x : Diagnosis α} {f : α → Diagnosis β} {b : β}
    (h : ∀ a, x.result = some a → (f a).result ≠ some b) : (x >>= f).result ≠ some b := by
  rw [result_bind]
  intro hb
  obtain ⟨a, ha, hfa⟩ := Option.bind_eq_some_iff.mp hb
  exact h a ha hfa

namespace Expr

/-- The type of an expression is that of a value, or it is not known. -/
lemma result_infer_ne_unit (hΓ : YieldsValues Γ.lookup) (e : Expr) :
    (e.infer Γ).result ≠ some .unit := by
  induction e with
  | hole => rw [infer]; decide
  | literal p k t => rw [infer]; cases k <;> decide
  | ident p n | rowId p | wildcard p | column p t c => rw [infer]; decide
  | unary p op a _ =>
      rw [infer_unary]
      refine result_bind_ne fun _ _ => ?_
      cases op <;> decide
  | binary p op l r _ _ =>
      have htype : (pure op.type : Diagnosis Ty).result ≠ some .unit := by cases op <;> decide
      cases hop : op.operand? with
      | some S =>
          rw [infer_binary_of_some Γ p hop]
          exact result_bind_ne fun _ _ => result_bind_ne fun _ _ => htype
      | none =>
          rw [infer_binary_of_none Γ p hop]
          exact result_bind_ne fun _ _ => result_bind_ne fun _ _ => htype
  | call p f args _ =>
      cases hf : Γ.lookup f with
      | none =>
          rw [infer_call_of_none Γ p hf]
          exact result_bind_ne fun _ _ => by decide
      | some σ =>
          rw [infer_call_of_some Γ p hf, Signature.applied]
          cases (args.mapM (infer Γ)).result with
          | none => exact Option.some_ne_none _ |>.symm
          | some ts =>
              cases hσ : σ.result? ts with
              | none => simp [hσ]
              | some t => simpa [hσ] using hΓ f σ ts hf
  | index p a i _ _ =>
      rw [infer_index]
      split
      · decide
      · exact result_bind_ne fun _ _ => by decide
  | case p s bs d _ hbs _ =>
      have hresults : (inferResults Γ p bs).result ≠ some .unit := by
        cases bs with
        | nil =>
            rw [inferResults_nil]
            exact result_bind_ne fun _ _ => by decide
        | cons b bs =>
            have hfirst : (b.result.infer Γ).result ≠ some .unit := (hbs b List.mem_cons_self).2
            rw [inferResults_cons]
            refine result_bind_ne fun t ht => result_bind_ne fun _ _ hunit => hfirst ?_
            rw [ht, ← hunit, result_pure]
      rw [infer_case]
      refine result_bind_ne fun _ _ => result_bind_ne fun _ _ => result_bind_ne fun t ht =>
        result_bind_ne fun _ _ hunit => hresults ?_
      rw [ht, ← hunit, result_pure]
  | each p a ha => rwa [infer_each]

/-- No expression gets the type that marks the absence of a value. -/
lemma inferred_ne_unit (hΓ : YieldsValues Γ.lookup) (e : Expr) : e.inferred Γ ≠ .unit := by
  have h := result_infer_ne_unit hΓ e
  rw [inferred]
  cases hr : (e.infer Γ).result with
  | none => decide
  | some t => simpa [hr] using h

end Expr

/-! ### What operands are held to -/

/-- The type that is named if the expectation is not met is one of those that meet it, and it is the
type of a value or not known. -/
structure Expectation.Proper (S : Expectation) : Prop where
  mem : S.primary ∈ S
  ne_unit : S.primary ≠ .unit

lemma Expectation.proper_exactly {t : Ty} (ht : t ≠ .unit) : (exactly t).Proper :=
  ⟨mem_exactly.mpr rfl, ht⟩

lemma UnaryOp.proper_operand (op : UnaryOp) : op.operand.Proper := by
  cases op <;> exact ⟨by decide, by decide⟩

lemma BinaryOp.proper_operand {op : BinaryOp} {S : Expectation} (h : op.operand? = some S) :
    S.Proper := by
  cases op <;> cases h <;> exact ⟨by decide, by decide⟩

namespace Expr

lemma subjectType_ne_unit (hty : ∀ e, ty e ≠ .unit) (s : Expr) : subjectType ty s ≠ .unit := by
  rw [subjectType]
  split
  · decide
  · exact hty s

lemma resultType_ne_unit (hty : ∀ e, ty e ≠ .unit) (bs : List (Branch Expr)) :
    resultType ty bs ≠ .unit := by
  cases bs with
  | nil => exact Ty.noConfusion
  | cons b bs => exact hty b.result

/-- Wherever an expectation is made from a type that was inferred, it asks for a value. -/
lemma proper_of_mem_demands (hty : ∀ e, ty e ≠ .unit) {q : Expr × Expectation}
    (hq : q ∈ e.demands ty) : q.2.Proper := by
  have hany : (Expectation.exactly .unknown).Proper := Expectation.proper_exactly (by decide)
  cases e with
  | unary p op a =>
      obtain rfl := List.mem_singleton.mp hq
      exact op.proper_operand
  | binary p op l r =>
      cases hop : op.operand? with
      | some S =>
          simp only [demands, hop, List.mem_cons, List.not_mem_nil, or_false] at hq
          obtain rfl | rfl := hq
          · exact BinaryOp.proper_operand hop
          · exact BinaryOp.proper_operand hop
      | none =>
          simp only [demands, hop, List.mem_cons, List.not_mem_nil, or_false] at hq
          obtain rfl | rfl := hq
          · exact hany
          · exact Expectation.proper_exactly (hty l)
  | call p f args =>
      obtain ⟨a, -, rfl⟩ := List.mem_map.mp hq
      exact hany
  | index p a i =>
      obtain rfl := List.mem_singleton.mp hq
      exact hany
  | case p s bs d =>
      simp only [demands, List.mem_append, List.mem_map] at hq
      obtain ((⟨a, -, rfl⟩ | ⟨b, -, rfl⟩) | ⟨b, -, rfl⟩) | ⟨a, -, rfl⟩ := hq
      · exact hany
      · exact Expectation.proper_exactly (subjectType_ne_unit hty s)
      · exact Expectation.proper_exactly (resultType_ne_unit hty bs)
      · exact Expectation.proper_exactly (resultType_ne_unit hty bs)
  | each p a =>
      obtain rfl := List.mem_singleton.mp hq
      exact hany
  | _ => cases hq

end Expr

/-! ### Findings that make sense -/

/-- **The finding makes sense** for some nodes. A mismatch is between two different types of values,
except at a case without branches among the nodes; and a bad call is that of a known function, at
the place of such a call. -/
def Diagnostic.Grounded (R : String → Option Signature) (ns : List Expr) : Diagnostic → Prop
  | typeMismatch expected found p =>
    (expected ∈ [Ty.numeric, .boolean, .string] ∧ found ∈ [Ty.numeric, .boolean, .string] ∧
      expected ≠ found) ∨
    (expected = .boolean ∧ found = .unit ∧ ∃ s d, .case p s [] d ∈ ns)
  | badCall f p => (R f).isSome ∧ ∃ args, .call p f args ∈ ns
  | _ => True

/-- A finding that makes sense for some nodes makes sense for more of them. -/
lemma Diagnostic.Grounded.mono {R : String → Option Signature} {ns ms : List Expr} {d : Diagnostic}
    (h : d.Grounded R ns) (hsub : ns ⊆ ms) : d.Grounded R ms := by
  cases d with
  | typeMismatch expected found p =>
      obtain htypes | ⟨hexpected, hfound, s, d, hnode⟩ := h
      · exact Or.inl htypes
      · exact Or.inr ⟨hexpected, hfound, s, d, hsub hnode⟩
  | badCall f p =>
      obtain ⟨hf, args, hnode⟩ := h
      exact ⟨hf, args, hsub hnode⟩
  | _ => trivial

/-- A finding that is not about types says nothing about types that could be wrong. -/
lemma Diagnostic.grounded_of_aboutTypes_eq_false (hd : d.aboutTypes = false) :
    d.Grounded R ns := by
  cases d with
  | typeMismatch | badCall => cases hd
  | _ => trivial

/-- The types of values are all but the two special ones. -/
lemma Ty.mem_values_iff {t : Ty} :
    t ∈ [numeric, boolean, string] ↔ t ≠ .unit ∧ t ≠ .unknown := by
  cases t <;> decide

namespace Expr

/-- A mismatch with a proper expectation is between two different types of values. -/
lemma grounded_of_mem_fault {S : Expectation} (hS : S.Proper) (hc : ty c ≠ .unit)
    (hd : d ∈ fault ty c S) : d.Grounded R ns := by
  rw [fault] at hd
  split at hd
  · cases hd
  · next hadmits =>
      obtain rfl := List.mem_singleton.mp hd
      rw [Expectation.Admits, not_or, not_or] at hadmits
      obtain ⟨hmem, hknown, hstrict⟩ := hadmits
      refine Or.inl ⟨Ty.mem_values_iff.mpr ⟨hS.ne_unit, fun h => hstrict (h ▸ hS.mem)⟩,
        Ty.mem_values_iff.mpr ⟨hc, hknown⟩, fun h => hmem (h ▸ hS.mem)⟩

/-- What is wrong at a node by itself points at the node. -/
lemma grounded_of_mem_ownFindings (hd : d ∈ e.ownFindings R ty) : d.Grounded R [e] := by
  cases e with
  | call p f args =>
      rw [ownFindings, refused] at hd
      split at hd
      · next σ hf =>
          split at hd
          · obtain rfl := List.mem_singleton.mp hd
            exact ⟨by rw [hf]; rfl, args, List.mem_singleton_self _⟩
          · cases hd
      · cases hd
  | case p s bs d' =>
      cases bs with
      | nil =>
          obtain rfl := List.mem_singleton.mp hd
          exact Or.inr ⟨rfl, rfl, s, d', List.mem_singleton_self _⟩
      | cons b bs => cases hd
  | _ => cases hd

/-- What is found inside of an expression makes sense for the nodes that are looked at. -/
lemma grounded_of_mem_infer (hΓ : YieldsValues Γ.lookup) (he : e.Examinable)
    (hd : d ∈ (e.infer Γ).diagnostics) : d.Grounded Γ.lookup e.examined := by
  have hty : ∀ e, inferred Γ e ≠ .unit := inferred_ne_unit hΓ
  obtain ⟨n, hn, hdn⟩ := List.mem_flatMap.mp ((diagnostics_infer_perm he).mem_iff.mp hd)
  rw [violations_eq, List.mem_append, List.mem_flatMap] at hdn
  rcases hdn with hown | ⟨q, hq, hfault⟩
  · exact (grounded_of_mem_ownFindings hown).mono (List.cons_subset.mpr ⟨hn, List.nil_subset _⟩)
  · exact grounded_of_mem_fault (proper_of_mem_demands hty hq) (hty q.1) hfault

end Expr

/-! ### Tasks and programs -/

/-- Only the typing has findings that could fail to make sense. -/
lemma Task.grounded_of_mem_run (hΓ : YieldsValues Γ.lookup) {t : Task}
    (hsome : (t.run Γ).result.isSome) (hd : d ∈ (t.run Γ).diagnostics) :
    d.Grounded Γ.lookup t.examined := by
  cases t with
  | missing => cases hd
  | value e =>
      rw [run, Expr.examine, diagnostics_bind_pure] at hd
      exact Expr.grounded_of_mem_infer hΓ ((Expr.isSome_examine Γ e).mp hsome) hd
  | condition e =>
      have he : e.Examinable := (Expr.isSome_expect_iff Γ _ e).mp hsome
      rw [run, Expr.diagnostics_expect he, List.mem_append] at hd
      rcases hd with hinside | hfault
      · exact Expr.grounded_of_mem_infer hΓ he hinside
      · exact Expr.grounded_of_mem_fault (Expectation.proper_exactly (by decide))
          (Expr.inferred_ne_unit hΓ e) hfault
  | key | standalone | tables | columns =>
      exact Diagnostic.grounded_of_aboutTypes_eq_false (aboutTypes_of_mem_run hsome hd)

namespace Program

variable {P : Program} {f : String}

/-- The nodes that the tasks of a program look at are nodes of the program. -/
lemma examined_tasks_subset {t : Task} (ht : t ∈ P.tasks) : t.examined ⊆ P.nodes := by
  intro n hn
  have htasks : n ∈ P.tasks.flatMap Task.examined := List.mem_flatMap.mpr ⟨t, ht, hn⟩
  exact P.examined_subset_nodes (subset_of_countP P.countP_tasks htasks)

/-- A name that stands for something is that of a built-in function or of one that is defined. -/
lemma isSome_resolve (h : (P.resolve f).isSome) :
    (Env.builtins.lookup f).isSome ∨ ∃ d, some (.function d) ∈ P ∧ d.name = f := by
  obtain ⟨σ, hσ⟩ := Option.isSome_iff_exists.mp h
  rw [resolve, Option.or_eq_some_iff, Option.map_eq_some_iff] at hσ
  obtain ⟨d, hd, -⟩ | ⟨-, hbuiltin⟩ := hσ
  · have hname : d.name = f := by simpa using List.find?_some hd
    have hmem : d ∈ P.functions := List.mem_reverse.mp (List.mem_of_find?_eq_some hd)
    exact Or.inr ⟨d, mem_functions.mp hmem, hname⟩
  · exact Or.inl (by rw [hbuiltin]; rfl)

/-- All findings about a program make sense for its functions and its nodes. -/
lemma grounded_of_mem_analyze {ds : List Diagnostic} (h : P.analyze = some ds) (hd : d ∈ ds) :
    d.Grounded P.resolve P.nodes := by
  rw [analyze, complete?_eq_some_iff, diagnose, check_eq_forM, isSome_forM] at h
  obtain ⟨hsome, rfl⟩ := h
  rw [diagnostics_forM fun t ht => Option.eq_some_of_isSome (hsome t ht)] at hd
  obtain ⟨t, ht, hdt⟩ := List.mem_flatMap.mp hd
  have hgrounded := Task.grounded_of_mem_run P.yieldsValues_env (hsome t ht) hdt
  rw [lookup_env] at hgrounded
  exact hgrounded.mono (examined_tasks_subset ht)

/-- **Findings are meaningful.** Let the analysis have an answer for a program. With the functions
of the program in scope, no expression has the type that marks the absence of a value. A mismatch is
between two different types, of which the expected one is that of a value, and so is the other one,
unless it marks the absence of a value; and this is only so where truth values are expected and a
case without branches stands. A bad call is that of a built-in function or of one that the program
defines, at the place of such a call. -/
theorem analyze_meaningful {ds : List Diagnostic} (h : P.analyze = some ds) :
    (∀ e : Expr, (e.infer (P.env (some .builtins))).result ≠ some .unit) ∧
      (∀ expected found p, .typeMismatch expected found p ∈ ds →
        expected ∈ [Ty.numeric, .boolean, .string] ∧
          found ∈ [Ty.unit, .numeric, .boolean, .string] ∧ expected ≠ found ∧
          (found = .unit → expected = .boolean ∧ ∃ s d, .case p s [] d ∈ P.nodes)) ∧
      ∀ f p, .badCall f p ∈ ds →
        ((Env.builtins.lookup f).isSome ∨ ∃ d, some (.function d) ∈ P ∧ d.name = f) ∧
          ∃ args, .call p f args ∈ P.nodes := by
  refine ⟨fun e => ?_, fun expected found p hd => ?_, fun f p hd => ?_⟩
  · exact Expr.result_infer_ne_unit P.yieldsValues_env e
  · obtain ⟨hexpected, hfound, hne⟩ | ⟨rfl, rfl, hcase⟩ := grounded_of_mem_analyze h hd
    · refine ⟨hexpected, List.mem_cons_of_mem _ hfound, hne, fun hunit => ?_⟩
      exact absurd hunit (Ty.mem_values_iff.mp hfound).1
    · exact ⟨by decide, by decide, by decide, fun _ => ⟨rfl, hcase⟩⟩
  · obtain ⟨hf, hcall⟩ := grounded_of_mem_analyze h hd
    exact ⟨isSome_resolve hf, hcall⟩

/-- A query with a comparison of a text and a number, a case without branches and a call without the
argument that the function takes. -/
def volumeAlert : Program :=
  [some (.function ⟨"limit", ["share"], []⟩),
    some (.query ⟨[], .filter (.scan ⟨"trades", none, ⟨1, 1⟩⟩)
      [.binary ⟨2, 1⟩ .equal (.literal ⟨2, 2⟩ .string "high")
        (.each ⟨2, 3⟩ (.call ⟨2, 4⟩ "sum" [.column ⟨2, 5⟩ "trades" "size"])),
        .case ⟨3, 1⟩ .hole [] .hole, .call ⟨4, 1⟩ "limit" []]⟩)]

/-- The three findings are of the three kinds that can come up: two types of values that differ, a
case without branches in the place of a truth value, and a call of a function that the program
defines. -/
theorem volumeAlert_meaningful :
    volumeAlert.analyze = some [.typeMismatch .string .numeric ⟨2, 3⟩,
        .typeMismatch .boolean .unit ⟨3, 1⟩, .badCall "limit" ⟨4, 1⟩] ∧
      (∃ s d, .case ⟨3, 1⟩ s [] d ∈ volumeAlert.nodes) ∧
      ((Env.builtins.lookup "limit").isSome ∨
        ∃ d, some (.function d) ∈ volumeAlert ∧ d.name = "limit") ∧
      ∃ args, .call ⟨4, 1⟩ "limit" args ∈ volumeAlert.nodes := by
  have h : volumeAlert.analyze = some [.typeMismatch .string .numeric ⟨2, 3⟩,
      .typeMismatch .boolean .unit ⟨3, 1⟩, .badCall "limit" ⟨4, 1⟩] := by decide
  obtain ⟨-, hmismatch, hcall⟩ := analyze_meaningful h
  have hcase := (hmismatch .boolean .unit ⟨3, 1⟩ (by decide)).2.2.2 rfl
  exact ⟨h, hcase.2, hcall "limit" ⟨4, 1⟩ (by decide)⟩

end Program

end QueryAnalysis
