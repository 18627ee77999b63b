import QueryAnalysis.Proofs.Agreement

/-!
Programs that are put together, and programs that are put in another order. The environment of a
program is made from all of its statements, so in principle each of them matters for every other
one, also for those before it.

* `Program.Separate`: neither of two programs calls a function that the other one defines.
* `Program.analyze_append`: the analysis of separate programs, one behind the other, is that of the
  two on their own.
* `Program.Reordered`: the statements in another order, in which the definitions of any one function
  follow each other as before.
* `Program.analyze_reorder`: each statement has its own block of findings, and another order of the
  statements is another order of the blocks.
-/

namespace QueryAnalysis

open Diagnosis

/-- Two checks in sequence have an answer if both have one. -/
lemma Diagnosis.complete?_then (x y : Diagnosis Unit) :
    (x >>= fun _ => y).complete? = x.complete?.bind fun ds => y.complete?.map (ds ++ ·) := by
  rw [complete?, complete?, complete?, result_bind, diagnostics_bind]
  cases x.result with
  | none => rfl
  | some => cases y.result <;> rfl

namespace Program

variable {P P' Q : Program} {f : String}

/-! ### Programs one behind the other -/

/-- Somewhere in the program the function is called. -/
def Calls (P : Program) (f : String) : Prop :=
  ∃ n ∈ P.nodes, n.callee? = some f

instance (P : Program) (f : String) : Decidable (P.Calls f) :=
  inferInstanceAs (Decidable (∃ n ∈ P.nodes, n.callee? = some f))

/-- Neither program calls a function that the other one defines. -/
structure Separate (P Q : Program) : Prop where
  left : ∀ d ∈ Q.functions, ¬ P.Calls d.name
  right : ∀ d ∈ P.functions, ¬ Q.Calls d.name

/-- What follows does not matter for a function that is not defined there. -/
lemma resolve_append_left (hQ : ∀ d ∈ Q.functions, d.name ≠ f) :
    (P ++ Q).resolve f = P.resolve f := by
  rw [resolve, resolve, functions_append, List.reverse_append, List.find?_append,
    find?_functions_eq_none hQ, Option.none_or]

/-- What comes before does not matter for a function that is not defined there. -/
lemma resolve_append_right (hP : ∀ d ∈ P.functions, d.name ≠ f) :
    (P ++ Q).resolve f = Q.resolve f := by
  rw [resolve, resolve, functions_append, List.reverse_append, List.find?_append,
    find?_functions_eq_none hP, Option.or_none]

/-- What the first of two separate programs calls means the same without the second one. -/
lemma Separate.agreeOn_left (h : P.Separate Q) :
    ((P ++ Q).env (some .builtins)).AgreeOn (P.env (some .builtins)) P.nodes := by
  intro n hn f hf
  rw [lookup_env, lookup_env]
  refine resolve_append_left fun d hd hname => h.left d hd ⟨n, hn, ?_⟩
  rw [hname]
  exact hf

/-- What the second of two separate programs calls means the same without the first one. -/
lemma Separate.agreeOn_right (h : P.Separate Q) :
    ((P ++ Q).env (some .builtins)).AgreeOn (Q.env (some .builtins)) Q.nodes := by
  intro n hn f hf
  rw [lookup_env, lookup_env]
  refine resolve_append_right fun d hd hname => h.right d hd ⟨n, hn, ?_⟩
  rw [hname]
  exact hf

/-- Separate programs are diagnosed one after the other, each with its own functions. -/
lemma Separate.diagnose_append (h : P.Separate Q) :
    (P ++ Q).diagnose = P.diagnose >>= fun _ => Q.diagnose := by
  have hP : P.check ((P ++ Q).env (some .builtins)) = P.diagnose :=
    check_agree (h.agreeOn_left.mono P.examined_subset_nodes)
  have hQ : Q.check ((P ++ Q).env (some .builtins)) = Q.diagnose :=
    check_agree (h.agreeOn_right.mono Q.examined_subset_nodes)
  calc (P ++ Q).diagnose
      = P.check ((P ++ Q).env (some .builtins)) >>= fun _ =>
          Q.check ((P ++ Q).env (some .builtins)) := List.forM_append
    _ = P.diagnose >>= fun _ => Q.diagnose := by rw [hP, hQ]

/-- **The analysis is modular.** No check, of whatever tree, can tell two environments apart that
give the same signatures to the functions called in the tree. So if neither of two programs calls a
function that the other one defines, there is no answer for the two together exactly if there is
none for one of them; and otherwise the answer is that for the first one, followed by that for the
second one. -/
theorem analyze_append :
    (∀ (c : Check) (Γ Γ' : Env), Γ.AgreeOn Γ' c.nodes → c.run Γ = c.run Γ') ∧
      ∀ P Q : Program, P.Separate Q →
        ((P ++ Q).analyze = none ↔ P.analyze = none ∨ Q.analyze = none) ∧
          ∀ ds es, P.analyze = some ds → Q.analyze = some es →
            (P ++ Q).analyze = some (ds ++ es) := by
  refine ⟨fun c Γ Γ' h => Check.run_agree h, fun P Q h => ?_⟩
  have happend : (P ++ Q).analyze =
      P.analyze.bind fun ds => Q.analyze.map (ds ++ ·) := by
    rw [analyze, h.diagnose_append, complete?_then]
    rfl
  rw [happend]
  refine ⟨?_, fun ds es hP hQ => by rw [hP, hQ]; rfl⟩
  cases P.analyze with
  | none => simp
  | some ds => simp

/-- A program with a bad call of a function of its own. -/
def spreadReport : Program :=
  [some (.function ⟨"mid", ["bid", "ask"], []⟩), some (.function ⟨"log", ["level"], []⟩),
    some (.query ⟨[], .project (.scan ⟨"quotes", none, ⟨1, 1⟩⟩)
      [.call ⟨2, 1⟩ "mid" [.column ⟨2, 2⟩ "quotes" "bid"]]⟩)]

/-- A bad call of a built-in function. -/
def noteCleanup : Statement :=
  .delete ⟨"orders", .rows [.call ⟨3, 1⟩ "like" [.ident ⟨3, 2⟩ "note"]], [], [], []⟩

/-- A program that defines a function under a name that `spreadReport` defines as well. -/
def orderCleanup : Program :=
  [some noteCleanup, some (.function ⟨"log", ["level", "text"], []⟩)]

/-- The two programs define a function of the same name, `log`, but neither calls it. So the bad
call of each one is found in the two together, and nothing else; and the removal is judged alike
under the built-in functions and under those of its own program. -/
theorem spreadReport_orderCleanup_separate :
    (Env.builtins.AgreeOn (orderCleanup.env (some .builtins)) (Check.statement noteCleanup).nodes ∧
      (Check.statement noteCleanup).run .builtins =
        (Check.statement noteCleanup).run (orderCleanup.env (some .builtins))) ∧
      spreadReport.Separate orderCleanup ∧
      (spreadReport ++ orderCleanup).analyze =
        some ([.badCall "mid" ⟨2, 1⟩] ++ [.badCall "like" ⟨3, 1⟩]) := by
  have hagree : Env.builtins.AgreeOn (orderCleanup.env (some .builtins))
      (Check.statement noteCleanup).nodes := by decide
  have hseparate : spreadReport.Separate orderCleanup := ⟨by decide, by decide⟩
  have hreport : spreadReport.analyze = some [.badCall "mid" ⟨2, 1⟩] := by decide
  have hcleanup : orderCleanup.analyze = some [.badCall "like" ⟨3, 1⟩] := by decide
  exact ⟨⟨hagree, analyze_append.1 _ _ _ hagree⟩, hseparate,
    (analyze_append.2 _ _ hseparate).2 _ _ hreport hcleanup⟩

/-! ### Statements in another order -/

/-- The definitions of a function, in the order of the program. -/
def definitionsOf (P : Program) (f : String) : List FunctionDef :=
  P.functions.filter fun d => d.name = f

/-- The same statements in another order, in which the definitions of any one function follow each
other as before. -/
structure Reordered (P P' : Program) : Prop where
  perm : P'.Perm P
  definitions : ∀ f, P'.definitionsOf f = P.definitionsOf f

/-- What a name stands for is decided by the definitions of that name, the last of which counts. -/
lemma resolve_eq (P : Program) (f : String) :
    P.resolve f =
      ((P.definitionsOf f).getLast?.map fun d => .userDefined d.params.length).or
        (Env.builtins.lookup f) := by
  rw [resolve, ← List.head?_filter, List.filter_reverse, List.head?_reverse, definitionsOf]

/-- The last definition of a name stays the last one. -/
lemma Reordered.lookup_env_eq (h : P.Reordered P') :
    (P'.env (some .builtins)).lookup = (P.env (some .builtins)).lookup := by
  rw [lookup_env, lookup_env]
  funext f
  rw [resolve_eq, resolve_eq, h.definitions]

/-- Every statement is judged alike, wherever the functions that it calls are defined. -/
lemma Reordered.checkRequired_eq (h : P.Reordered P') (s : Option Statement) :
    Statement.checkRequired (P'.env (some .builtins)) s =
      Statement.checkRequired (P.env (some .builtins)) s := by
  cases s with
  | none => rfl
  | some s => exact Statement.check_agree (.of_lookup_eq h.lookup_env_eq s.examined)

/-- The analysis has an answer if every statement is complete, and then it is made of what is found
in the statements one by one. -/
lemma analyze_eq_some_iff {ds : List Diagnostic} :
    P.analyze = some ds ↔
      (∀ s ∈ P, (Statement.checkRequired (P.env (some .builtins)) s).result = some ()) ∧
        (P.flatMap fun s => (Statement.checkRequired (P.env (some .builtins)) s).diagnostics) =
          ds := by
  have hunit (r : Option Unit) : r.isSome = true ↔ r = some () := by cases r <;> simp
  rw [analyze, complete?_eq_some_iff, diagnose, check, hunit, result_forM]
  refine and_congr_right fun hcomplete => ?_
  rw [diagnostics_forM hcomplete]

/-- **The order of statements only permutes the diagnosis.** Let the statements of a program that
the analysis has an answer for be put in another order, in which the definitions of any one function
follow each other as before. Then the analysis has an answer again, and there is one block of
findings for each statement, the same before and after, such that both answers are made of these
blocks, in the order of the statements. -/
theorem analyze_reorder (h : P.Reordered P') {ds : List Diagnostic} (hP : P.analyze = some ds) :
    ∃ (ds' : List Diagnostic) (block : Option Statement → List Diagnostic),
      P'.analyze = some ds' ∧
        (∀ s, (Statement.checkRequired (P.env (some .builtins)) s).diagnostics = block s ∧
          (Statement.checkRequired (P'.env (some .builtins)) s).diagnostics = block s) ∧
        ds = P.flatMap block ∧ ds' = P'.flatMap block ∧ ds'.Perm ds := by
  obtain ⟨hcomplete, hds⟩ := analyze_eq_some_iff.mp hP
  have hcomplete' : ∀ s ∈ P',
      (Statement.checkRequired (P'.env (some .builtins)) s).result = some () := by
    intro s hs
    rw [h.checkRequired_eq]
    exact hcomplete s (h.perm.mem_iff.mp hs)
  have hP' : P'.analyze = some (P'.flatMap fun s =>
      (Statement.checkRequired (P'.env (some .builtins)) s).diagnostics) :=
    analyze_eq_some_iff.mpr ⟨hcomplete', rfl⟩
  simp only [h.checkRequired_eq] at hP' ⊢
  refine ⟨_, _, hP', fun s => ⟨rfl, rfl⟩, hds.symm, rfl, ?_⟩
  rw [← hds]
  exact h.perm.flatMap_right _

/-- A call of a function with two arguments. -/
def stepCall : Statement :=
  .update ⟨"trades",
    [⟨"price", .call ⟨1, 1⟩ "step" [.ident ⟨1, 2⟩ "price", .ident ⟨1, 3⟩ "size"]⟩], [], [], [], []⟩

/-- A definition of the function that fits the call, but refers to a row. -/
def binaryStep : FunctionDef :=
  ⟨"step", ["x", "y"], [⟨none, .wildcard ⟨2, 1⟩⟩]⟩

/-- A definition of the function that does not fit the call. -/
def unaryStep : FunctionDef :=
  ⟨"step", ["x"], []⟩

/-- Another meaning for a built-in function. -/
def binaryRoot : FunctionDef :=
  ⟨"sqrt", ["x", "y"], []⟩

/-- The call comes before both definitions. -/
def callFirst : Program :=
  [some stepCall, some (.function binaryStep), some (.function binaryRoot),
    some (.function unaryStep)]

/-- The same statements, with the call behind both definitions. -/
def callLast : Program :=
  [some (.function binaryRoot), some (.function binaryStep), some (.function unaryStep),
    some stepCall]

/-- The call is held to the second definition of `step` wherever it stands, and so it is a bad call
both before the definitions and behind them. -/
theorem callFirst_reordered :
    callFirst.Reordered callLast ∧
      callFirst.analyze = some [.badCall "step" ⟨1, 1⟩, .illegalExpression "*" ⟨2, 1⟩] ∧
      ∃ ds, callLast.analyze = some ds ∧
        ds.Perm [.badCall "step" ⟨1, 1⟩, .illegalExpression "*" ⟨2, 1⟩] := by
  have hswap : callLast.Perm [some (.function binaryStep), some (.function binaryRoot),
      some (.function unaryStep), some stepCall] := List.Perm.swap _ _ _
  have hperm : callLast.Perm callFirst :=
    hswap.trans (List.perm_append_singleton (some stepCall) [_, _, _])
  have hdefinitions (f : String) : callLast.definitionsOf f = callFirst.definitionsOf f := by
    have hlast : callLast.functions = [binaryRoot, binaryStep, unaryStep] := rfl
    have hfirst : callFirst.functions = [binaryStep, binaryRoot, unaryStep] := rfl
    rw [definitionsOf, definitionsOf, hlast, hfirst]
    by_cases hroot : binaryRoot.name = f
    · subst hroot
      rfl
    · simp [List.filter_cons, hroot]
  have hanalyze : callFirst.analyze =
      some [.badCall "step" ⟨1, 1⟩, .illegalExpression "*" ⟨2, 1⟩] := by decide
  obtain ⟨ds, -, hds, -, -, -, hds'⟩ := analyze_reorder ⟨hperm, hdefinitions⟩ hanalyze
  exact ⟨⟨hperm, hdefinitions⟩, hanalyze, ds, hds, hds'⟩

end Program

end QueryAnalysis
