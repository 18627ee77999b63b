import Mathlib.Data.List.Perm.Basic
import QueryAnalysis.Proofs.Expr.Examined
import QueryAnalysis.Proofs.Expr.HasType

/-!
What the typing finds, node by node. An operand can be of the wrong type for its place, a call can
be one that the signature does not allow, and a case can be without branches. Each of these is seen
at a single node, once the types of its parts are known.

* `Expr.violations`: what is wrong at a single node, by the kind of node.
* `Expr.demands`: the same from the side of the parts. Every part that the typing looks into is held
  to one expectation; `demands_parts` says that none is left out, and none is held to two.
* `Expr.diagnostics_infer_step`: the findings in an expression are those at its root and those in
  its parts, each part held to what is demanded of it.
* `Expr.diagnostics_infer_perm`: up to order, the typing finds the violations at all nodes that it
  looks at, each of them once.
-/

namespace QueryAnalysis

/-! ### Calls that a signature does not allow -/

/-- The function cannot be called with arguments of these types: no overload accepts them, or their
number is not that of the parameters. -/
def Signature.Rejects : Signature → List Ty → Prop
  | builtin os, ts => ∀ o ∈ os, ¬ o.Accepts ts
  | userDefined n, ts => ts.length ≠ n

/-- A signature has no result for the types that it rejects. -/
lemma Signature.result?_eq_none_iff {σ : Signature} {ts : List Ty} :
    σ.result? ts = none ↔ σ.Rejects ts := by
  cases σ with
  | builtin os => simp [result?, Rejects, Overload.fits_iff_accepts]
  | userDefined n => simp [result?, Rejects]

instance (σ : Signature) (ts : List Ty) : Decidable (σ.Rejects ts) :=
  decidable_of_iff (σ.result? ts = none) Signature.result?_eq_none_iff

namespace Expr

open Diagnosis
open scoped List

/-! ### Violations -/

/-- The finding about a part that is held to the type `t`, or else to one of the others: its type is
known, and it is none of these. If `t` itself is not known, then nothing is asked. -/
def mistyped (ty : Expr → Ty) (t : Ty) (others : List Ty) (c : Expr) : List Diagnostic :=
  if t = .unknown ∨ ty c = .unknown ∨ ty c ∈ t :: others then []
  else [.typeMismatch t (ty c) c.pos]

/-- The finding about a call that the signature of the function does not allow. Of a function that
nothing is known about, every call is allowed. -/
def refused (R : String → Option Signature) (ty : Expr → Ty) (p : Pos) (f : String)
    (args : List Expr) : List Diagnostic :=
  match R f with
  | some σ => if σ.Rejects (args.map ty) then [.badCall f p] else []
  | none => []

/-- The type that the conditions of a case are held to. -/
def subjectType (ty : Expr → Ty) (s : Expr) : Ty :=
  if s.isHole then .boolean else ty s

/-- **What is wrong at a single node**, given the signatures that function names stand for and the
types of all expressions. -/
def violations (R : String → Option Signature) (ty : Expr → Ty) : Expr → List Diagnostic
  | unary _ .not a => mistyped ty .boolean [] a
  | unary _ .negate a => mistyped ty .numeric [] a
  | binary _ op l r =>
    match op with
    | .and | .or => mistyped ty .boolean [] l ++ mistyped ty .boolean [] r
    | .less | .lessOrEqual | .greater | .greaterOrEqual =>
      mistyped ty .numeric [] l ++ mistyped ty .numeric [] r
    | .equal | .notEqual => mistyped ty (ty l) [] r
    | .plus | .minus | .times | .divide | .power =>
      mistyped ty .numeric [.boolean] l ++ mistyped ty .numeric [.boolean] r
  | call p f args => refused R ty p f args
  | case p s bs d =>
    bs.flatMap (fun b => mistyped ty (subjectType ty s) [] b.condition) ++
      match bs with
      | [] => [.typeMismatch .boolean .unit p]
      | b :: bs => (bs.map Branch.result ++ d.given).flatMap (mistyped ty (ty b.result) [])
  | _ => []

/-! ### What a node demands of its parts -/

/-- The type that the results of a case are held to: that of the first one. -/
def resultType (ty : Expr → Ty) : List (Branch Expr) → Ty
  | [] => .unknown
  | b :: _ => ty b.result

/-- The parts of a node that the typing looks into, each one with what it is held to. A part that
may be of any type is held to the unknown one. -/
def demands (ty : Expr → Ty) : Expr → List (Expr × Expectation)
  | hole | literal _ _ _ | ident _ _ | rowId _ | wildcard _ | column _ _ _ => []
  | unary _ op a => [(a, op.operand)]
  | binary _ op l r =>
    match op.operand? with
    | some S => [(l, S), (r, S)]
    | none => [(l, .exactly .unknown), (r, .exactly (ty l))]
  | call _ _ args => args.map fun a => (a, .exactly .unknown)
  | index _ a _ => [(a, .exactly .unknown)]
  -- the first result is held to its own type, which asks for nothing
  | case _ s bs d =>
    s.given.map (fun s => (s, .exactly .unknown)) ++
      bs.map (fun b => (b.condition, .exactly (subjectType ty s))) ++
      bs.map (fun b => (b.result, .exactly (resultType ty bs))) ++
      d.given.map fun d => (d, .exactly (resultType ty bs))
  | each _ a => [(a, .exactly .unknown)]

/-- The finding about a part that does not meet what it is held to. -/
def fault (ty : Expr → Ty) (c : Expr) (S : Expectation) : List Diagnostic :=
  if S.Admits (ty c) then [] else [.typeMismatch S.primary (ty c) c.pos]

/-- What is wrong at a node apart from the types of its parts. -/
def ownFindings (R : String → Option Signature) (ty : Expr → Ty) : Expr → List Diagnostic
  | call p f args => refused R ty p f args
  | case p _ [] _ => [.typeMismatch .boolean .unit p]
  | _ => []

variable {R : String → Option Signature} {ty : Expr → Ty} {e : Expr}

/-- Conditions and results can be taken apart from each other. -/
lemma perm_branches (bs : List (Branch Expr)) :
    (bs.map Branch.condition ++ bs.map Branch.result).Perm
      (bs.flatMap fun b => [b.condition, b.result]) := by
  rw [List.map_eq_flatMap, List.map_eq_flatMap]
  exact List.flatMap_append_perm bs _ _

/-- Every part that the typing looks into is held to something, and to one thing only. -/
lemma demands_parts (ty : Expr → Ty) (e : Expr) :
    ((e.demands ty).map Prod.fst).Perm e.examinedParts := by
  cases e with
  | binary p op l r => cases hop : op.operand? <;> simp [demands, hop, examinedParts, children]
  | case p s bs d =>
      have hparts : ((case p s bs d).demands ty).map Prod.fst =
          s.given ++ (bs.map Branch.condition ++ bs.map Branch.result) ++ d.given := by
        simp [demands, Function.comp_def]
      rw [hparts]
      exact ((perm_branches bs).append_left _).append_right _
  | _ => simp [demands, examinedParts, children, Function.comp_def]

lemma mem_examinedParts_of_mem_demands {q : Expr × Expectation} (hq : q ∈ e.demands ty) :
    q.1 ∈ e.examinedParts :=
  (demands_parts ty e).mem_iff.mp (List.mem_map_of_mem hq)

/-- Whoever takes any type finds no fault. -/
lemma fault_unknown (ty : Expr → Ty) (c : Expr) : fault ty c (.exactly .unknown) = [] := by
  rw [fault, if_pos (Expectation.admits_of_unknown_mem (by simp) _)]

lemma flatMap_fault_unknown (ty : Expr → Ty) (cs : List Expr) :
    (cs.flatMap fun c => fault ty c (.exactly .unknown)) = [] :=
  List.flatMap_eq_nil_iff.mpr fun c _ => fault_unknown ty c

/-- Nothing is at fault with respect to its own type. -/
lemma fault_own_type (ty : Expr → Ty) (c : Expr) : fault ty c (.exactly (ty c)) = [] := by
  rw [fault, if_pos (Expectation.admits_exactly.mpr (Or.inl rfl))]

/-- The rule for operands of a wrong type says the same as an expectation. -/
lemma mistyped_eq_fault {others : List Ty} (h : Ty.unknown ∉ others) (ty : Expr → Ty) (t : Ty)
    (c : Expr) : mistyped ty t others c = fault ty c ⟨t :: others⟩ := by
  have hadmits : Expectation.Admits ⟨t :: others⟩ (ty c) ↔
      t = .unknown ∨ ty c = .unknown ∨ ty c ∈ t :: others := by
    have hmem : Ty.unknown ∈ (⟨t :: others⟩ : Expectation) ↔ t = .unknown := by
      simp [Expectation.mem_iff, h, eq_comm]
    rw [Expectation.Admits, hmem, Expectation.mem_iff]
    tauto
  simp only [mistyped, fault, hadmits, Expectation.primary, List.headD_cons]

lemma mistyped_eq_fault_exactly (ty : Expr → Ty) (t : Ty) :
    mistyped ty t [] = fun c => fault ty c (.exactly t) :=
  funext (mistyped_eq_fault List.not_mem_nil ty t)

lemma mistyped_eq_fault_arithmetic (ty : Expr → Ty) (c : Expr) :
    mistyped ty .numeric [.boolean] c = fault ty c .arithmetic :=
  mistyped_eq_fault (by decide) ty .numeric c

/-- The violations at a node are its own findings and the parts that do not meet its demands. -/
lemma violations_eq (R : String → Option Signature) (ty : Expr → Ty) (e : Expr) :
    e.violations R ty =
      e.ownFindings R ty ++ (e.demands ty).flatMap fun q => fault ty q.1 q.2 := by
  cases e with
  | unary p op a =>
      cases op <;> simp [violations, ownFindings, demands, UnaryOp.operand, Expectation.boolean,
        Expectation.numeric, mistyped_eq_fault_exactly]
  | binary p op l r =>
      cases op <;> simp [violations, ownFindings, demands, BinaryOp.operand?, Expectation.boolean,
        Expectation.numeric, mistyped_eq_fault_exactly, mistyped_eq_fault_arithmetic,
        fault_unknown]
  | call p f args =>
      simp only [violations, ownFindings, demands, List.flatMap_map, flatMap_fault_unknown,
        List.append_nil]
  | case p s bs d =>
      cases bs with
      | nil =>
          simp [violations, ownFindings, demands, List.flatMap_map, resultType,
            flatMap_fault_unknown]
      | cons b bs =>
          simp [violations, ownFindings, demands, List.flatMap_map, resultType,
            mistyped_eq_fault_exactly, flatMap_fault_unknown, fault_own_type]
  | _ => simp [violations, ownFindings, demands, fault_unknown]

/-! ### The findings of the typing -/

/-- The type that an expression gets. -/
def inferred (Γ : Env) (e : Expr) : Ty :=
  (e.infer Γ).result.getD .unknown

variable {Γ : Env}

/-- The typing yields a type for whatever has all that it needs. -/
lemma result_infer (he : e.Examinable) : (e.infer Γ).result = some (e.inferred Γ) := by
  obtain ⟨t, ht⟩ := Option.isSome_iff_exists.mp ((isSome_infer_iff Γ e).mpr he)
  rw [inferred, ht, Option.getD_some]

lemma result_expect (he : e.Examinable) (S : Expectation) : (e.expect Γ S).result = some () := by
  rw [expect, result_expecting, result_infer he, Option.map_some]

/-- A finding about the type of a part comes after those inside of it. -/
lemma diagnostics_expect (he : e.Examinable) (S : Expectation) :
    (e.expect Γ S).diagnostics = (e.infer Γ).diagnostics ++ fault (inferred Γ) e S :=
  diagnostics_expecting (result_infer he) S e.pos

/-- Whoever takes any type, finds what is wrong inside of the expression. -/
lemma diagnostics_expect_unknown (he : e.Examinable) :
    (e.expect Γ (.exactly .unknown)).diagnostics = (e.infer Γ).diagnostics := by
  rw [diagnostics_expect he, fault_unknown, List.append_nil]

/-- The subject of a case may have any type, and it sets that of the conditions. -/
lemma inferSubject_eq (h : ∀ c ∈ e.given, c.Examinable) :
    e.inferSubject Γ =
      ⟨e.given.flatMap fun c => (c.expect Γ (.exactly .unknown)).diagnostics,
        some (subjectType (inferred Γ) e)⟩ := by
  rw [inferSubject, subjectType]
  cases he : e.isHole with
  | true => simp [given, he]; rfl
  | false =>
      have hexam : e.Examinable := forall_mem_given_iff.mp h he
      ext1
      · simp [given, he, diagnostics_expect_unknown hexam]
      · simp [result_infer hexam]

lemma diagnostics_expectDefault (S : Expectation) :
    (e.expectDefault Γ S).diagnostics = e.given.flatMap fun c => (c.expect Γ S).diagnostics := by
  cases he : e.isHole <;> simp [expectDefault, given, he]

/-- The results of a case are all held to the type of the first one, and a case without branches is
a finding of its own. -/
lemma inferResults_eq (p : Pos) (s d : Expr) {bs : List (Branch Expr)}
    (h : ∀ b ∈ bs, b.result.Examinable) :
    inferResults Γ p bs =
      ⟨(case p s bs d).ownFindings Γ.lookup (inferred Γ) ++ bs.flatMap fun b =>
          (b.result.expect Γ (.exactly (resultType (inferred Γ) bs))).diagnostics,
        some (resultType (inferred Γ) bs)⟩ := by
  cases bs with
  | nil => rw [inferResults_nil]; rfl
  | cons b bs =>
      obtain ⟨hb, hbs⟩ := List.forall_mem_cons.mp h
      have hfirst := result_infer (Γ := Γ) hb
      have hlater : ∀ b' ∈ bs,
          (b'.result.expect Γ (.exactly (b.result.inferred Γ))).result = some () :=
        fun b' hb' => result_expect (hbs b' hb') _
      rw [inferResults_cons]
      ext1
      · rw [diagnostics_bind_of_some hfirst, diagnostics_bind_pure, diagnostics_forM hlater,
          List.flatMap_cons, resultType, diagnostics_expect hb, fault_own_type, List.append_nil]
        rfl
      · rw [result_bind_of_some hfirst, result_bind_of_some ((result_forM _ _).mpr hlater)]
        rfl

/-- A call finds what its arguments find, and maybe that it is not allowed itself. -/
lemma diagnostics_infer_call {p : Pos} {f : String} {args : List Expr}
    (h : ∀ a ∈ args, a.Examinable) :
    (infer Γ (call p f args)).diagnostics =
      refused Γ.lookup (inferred Γ) p f args ++ args.flatMap fun a => (a.infer Γ).diagnostics := by
  have hargs := mapM_eq_of_forall (f := infer Γ) fun a ha => result_infer (h a ha)
  cases hf : Γ.lookup f with
  | none =>
      rw [infer_call_of_none Γ p hf, diagnostics_bind_pure, hargs, refused, hf, List.nil_append]
  | some σ =>
      simp only [infer_call_of_some Γ p hf, hargs, Signature.applied, refused, hf,
        ← Signature.result?_eq_none_iff]
      cases σ.result? (args.map (inferred Γ)) <;> simp

/-- **The findings in an expression** are those at its root and those in its parts, where each part
is held to what the root demands of it. -/
lemma diagnostics_infer_step (he : e.Examinable) :
    (e.infer Γ).diagnostics.Perm
      (e.ownFindings Γ.lookup (inferred Γ) ++
        (e.demands (inferred Γ)).flatMap fun q => (q.1.expect Γ q.2).diagnostics) := by
  have hparts : ∀ c ∈ e.examinedParts, c.Examinable := (examinable_iff.mp he).2
  cases e with
  | unary p op a =>
      rw [infer_unary, diagnostics_bind_pure]
      simp [ownFindings, demands]
  | binary p op l r =>
      obtain ⟨hl, hr⟩ : l.Examinable ∧ r.Examinable := by
        simpa [examinedParts, children] using hparts
      cases hop : op.operand? with
      | some S =>
          rw [infer_binary_of_some Γ p hop, diagnostics_bind_of_some (result_expect hl S),
            diagnostics_bind_pure]
          simp [ownFindings, demands, hop]
      | none =>
          rw [infer_binary_of_none Γ p hop, diagnostics_bind_of_some (result_infer hl),
            diagnostics_bind_pure]
          simp [ownFindings, demands, hop, diagnostics_expect_unknown hl]
  | call p f args =>
      have hargs : ∀ a ∈ args, a.Examinable := hparts
      have hdemands : ((call p f args).demands (inferred Γ)).flatMap
          (fun q => (q.1.expect Γ q.2).diagnostics) =
            args.flatMap fun a => (a.infer Γ).diagnostics := by
        rw [demands, List.flatMap_map]
        exact List.flatMap_congr fun a ha => diagnostics_expect_unknown (hargs a ha)
      rw [diagnostics_infer_call hargs, hdemands, ownFindings]
  | index p a i =>
      have hi : i.isHole = false := (examinable_iff.mp he).1.2 i rfl
      have ha : a.Examinable := List.forall_mem_singleton.mp hparts
      rw [infer_index, hi, if_neg Bool.false_ne_true, diagnostics_bind_pure]
      simp [ownFindings, demands, diagnostics_expect_unknown ha]
  | case p s bs d =>
      obtain ⟨hs, hconditions, hresults, hd⟩ := forall_mem_examinedParts_case_iff.mp hparts
      have hsubject := inferSubject_eq (Γ := Γ) (forall_mem_given_iff.mpr hs)
      have hforM : ∀ b ∈ bs, (b.condition.expect Γ
          (.exactly (subjectType (inferred Γ) s))).result = some () :=
        fun b hb => result_expect (hconditions b hb) _
      rw [infer_case, hsubject, diagnostics_bind_of_some rfl,
        diagnostics_bind_of_some ((result_forM _ _).mpr hforM), diagnostics_forM hforM,
        inferResults_eq p s d hresults, diagnostics_bind_of_some rfl, diagnostics_bind_pure,
        diagnostics_expectDefault]
      -- a case without branches is reported behind its subject
      rw [List.perm_iff_count]
      intro x
      simp only [demands, List.flatMap_append, List.flatMap_map, List.count_append]
      omega
  | each p a =>
      have ha : a.Examinable := List.forall_mem_singleton.mp hparts
      rw [infer_each]
      simp [ownFindings, demands, diagnostics_expect_unknown ha]
  | _ => simp [infer, ownFindings, demands]

/-- The findings in an expression are the violations at its root and the findings in its parts. -/
lemma diagnostics_infer_violations (he : e.Examinable) :
    (e.infer Γ).diagnostics.Perm
      (e.violations Γ.lookup (inferred Γ) ++
        e.examinedParts.flatMap fun c => (c.infer Γ).diagnostics) := by
  have hexpect : (e.demands (inferred Γ)).flatMap (fun q => (q.1.expect Γ q.2).diagnostics) =
      (e.demands (inferred Γ)).flatMap fun q =>
        (q.1.infer Γ).diagnostics ++ fault (inferred Γ) q.1 q.2 :=
    List.flatMap_congr fun q hq =>
      diagnostics_expect ((examinable_iff.mp he).2 _ (mem_examinedParts_of_mem_demands hq)) q.2
  have hparts : ((e.demands (inferred Γ)).flatMap fun q => (q.1.infer Γ).diagnostics).Perm
      (e.examinedParts.flatMap fun c => (c.infer Γ).diagnostics) := by
    have h := (demands_parts (inferred Γ) e).flatMap_right fun c => (c.infer Γ).diagnostics
    rwa [List.flatMap_map] at h
  calc (e.infer Γ).diagnostics
      ~ e.ownFindings Γ.lookup (inferred Γ) ++
          (e.demands (inferred Γ)).flatMap fun q =>
            (q.1.infer Γ).diagnostics ++ fault (inferred Γ) q.1 q.2 :=
        hexpect ▸ diagnostics_infer_step he
    _ ~ e.ownFindings Γ.lookup (inferred Γ) ++
          (((e.demands (inferred Γ)).flatMap fun q => (q.1.infer Γ).diagnostics) ++
            (e.demands (inferred Γ)).flatMap fun q => fault (inferred Γ) q.1 q.2) :=
        (List.flatMap_append_perm _ _ _).symm.append_left _
    _ ~ e.ownFindings Γ.lookup (inferred Γ) ++
          (((e.demands (inferred Γ)).flatMap fun q => fault (inferred Γ) q.1 q.2) ++
            e.examinedParts.flatMap fun c => (c.infer Γ).diagnostics) :=
        (List.perm_append_comm.trans (hparts.append_left _)).append_left _
    _ ~ e.violations Γ.lookup (inferred Γ) ++
          e.examinedParts.flatMap fun c => (c.infer Γ).diagnostics := by
        rw [violations_eq, List.append_assoc]

/-- Up to order, the findings are the violations at all nodes that are looked at. -/
lemma diagnostics_infer_perm (he : e.Examinable) :
    (e.infer Γ).diagnostics ~ e.examined.flatMap (violations Γ.lookup (inferred Γ)) := by
  induction e using induct_children with
  | _ e ih =>
    have hparts : ∀ c ∈ e.examinedParts, (c.infer Γ).diagnostics ~
        c.examined.flatMap (violations Γ.lookup (inferred Γ)) := fun c hc =>
      ih c (mem_children_iff.mpr (Or.inl hc)) ((examinable_iff.mp he).2 c hc)
    rw [examined_eq, List.flatMap_cons, List.flatMap_assoc]
    exact (diagnostics_infer_violations he).trans
      ((List.Perm.flatMap_left _ hparts).append_left _)

/-- **Every finding is a violation at a single node.** If the typing of an expression runs to its
end, then every node that it looks at gets a type; and what it finds are, up to order, the
violations at these nodes with respect to these types, so that none is lost and none comes up
twice. -/
theorem infer_finds_violations (Γ : Env) (e : Expr) (h : (e.infer Γ).result.isSome) :
    (∀ n ∈ e.examined, (n.infer Γ).result = some (n.inferred Γ)) ∧
      (e.infer Γ).diagnostics ~ e.examined.flatMap (violations Γ.lookup (inferred Γ)) := by
  have he : e.Examinable := (isSome_infer_iff Γ e).mp h
  exact ⟨fun n hn => result_infer (he.of_mem_examined hn), diagnostics_infer_perm he⟩

/-- A condition in which the call of a known function, an operand, a condition and a result of a
case and the case itself are wrong. Inside of the default there is a case without branches, and the
subscript is not looked into. -/
def orderCondition : Expr :=
  .binary ⟨1, 1⟩ .and
    (.binary ⟨1, 2⟩ .equal (.call ⟨1, 3⟩ "sum" [.literal ⟨1, 4⟩ .string "price"])
      (.unary ⟨1, 5⟩ .negate (.literal ⟨1, 6⟩ .boolean "true")))
    (.case ⟨2, 1⟩ (.rowId ⟨2, 2⟩)
      [⟨.literal ⟨2, 3⟩ .string "buy", .literal ⟨2, 4⟩ .integer "1"⟩,
        ⟨.column ⟨3, 1⟩ "t" "side", .each ⟨3, 2⟩ (.literal ⟨3, 3⟩ .string "sell")⟩]
      (.index ⟨4, 1⟩ (.case ⟨4, 2⟩ .hole [] .hole) (.call ⟨4, 3⟩ "sum" [])))

/-- There are six violations, all of them at nodes outside of the subscript. The call in the
subscript, which is wrong as well, is not among them. -/
theorem orderCondition_violations :
    (orderCondition.infer .builtins).result.isSome ∧
      (orderCondition.infer .builtins).diagnostics ~
        [.typeMismatch .boolean .numeric ⟨2, 1⟩, .badCall "sum" ⟨1, 3⟩,
          .typeMismatch .numeric .boolean ⟨1, 6⟩, .typeMismatch .numeric .string ⟨2, 3⟩,
          .typeMismatch .numeric .string ⟨3, 2⟩, .typeMismatch .boolean .unit ⟨4, 2⟩] := by
  have h : (orderCondition.infer .builtins).result.isSome := by decide
  have hviolations : orderCondition.examined.flatMap
      (violations Env.builtins.lookup (inferred .builtins)) =
        [.typeMismatch .boolean .numeric ⟨2, 1⟩, .badCall "sum" ⟨1, 3⟩,
          .typeMismatch .numeric .boolean ⟨1, 6⟩, .typeMismatch .numeric .string ⟨2, 3⟩,
          .typeMismatch .numeric .string ⟨3, 2⟩, .typeMismatch .boolean .unit ⟨4, 2⟩] := by
    decide
  exact ⟨h, hviolations ▸ (infer_finds_violations .builtins orderCondition h).2⟩

end Expr

end QueryAnalysis
