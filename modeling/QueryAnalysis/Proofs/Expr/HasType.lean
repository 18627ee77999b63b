import QueryAnalysis.Proofs.Expr.Nodes
import QueryAnalysis.Proofs.RelatedLists

/-!
The soft typing as a judgement. The rules say what type an expression has if nothing is wrong with
it, given the signatures that function names stand for.

* `Ty.Consistent`: two types agree as far as they are known.
* `Overload.Accepts`, `FirstAccepting`: the overload that decides about a call.
* `Expr.HasType`: the judgement, with a rule for each way to build an expression. There is no rule
  for an empty place, nor for a case without branches.
* `Expr.infer_eq_pure_iff`: the typing finds nothing wrong with an expression and yields the type
  `t` exactly if the expression has the type `t` by the rules.
-/

namespace QueryAnalysis

/-- The types agree as far as they are known. -/
def Ty.Consistent (s t : Ty) : Prop :=
  s = t ∨ s = .unknown ∨ t = .unknown

instance (s t : Ty) : Decidable (s.Consistent t) :=
  inferInstanceAs (Decidable (s = t ∨ s = .unknown ∨ t = .unknown))

/-- The overload takes arguments of these types, one for each of its expectations. -/
def Overload.Accepts (o : Overload) (ts : List Ty) : Prop :=
  List.Forall₂ Expectation.Admits o.args ts

/-- The first overload in the list that takes arguments of the given types. -/
def FirstAccepting (os : List Overload) (ts : List Ty) (o : Overload) : Prop :=
  ∃ before after, os = before ++ o :: after ∧ o.Accepts ts ∧ ∀ o' ∈ before, ¬ o'.Accepts ts

/-- **The soft typing judgement**: under the signatures `R`, the expression has the type. An operand
of a known type has to be of the type that its place asks for, and one of an unknown type fits
everywhere. -/
inductive Expr.HasType (R : String → Option Signature) : Expr → Ty → Prop
  | number {p : Pos} {k : LiteralKind} {x : String}
      (hk : k ∈ [.integer, .float, .date, .timestamp]) : HasType R (.literal p k x) .numeric
  | text {p : Pos} {x : String} : HasType R (.literal p .string x) .string
  | truth {p : Pos} {x : String} : HasType R (.literal p .boolean x) .boolean
  | ident {p : Pos} {n : String} : HasType R (.ident p n) .unknown
  | rowId {p : Pos} : HasType R (.rowId p) .numeric
  | wildcard {p : Pos} : HasType R (.wildcard p) .unknown
  | column {p : Pos} {t c : String} : HasType R (.column p t c) .unknown
  | not {p : Pos} {a : Expr} {t : Ty} (ha : HasType R a t) (ht : t.Consistent .boolean) :
      HasType R (.unary p .not a) .boolean
  | negate {p : Pos} {a : Expr} {t : Ty} (ha : HasType R a t) (ht : t.Consistent .numeric) :
      HasType R (.unary p .negate a) .numeric
  | logic {p : Pos} {op : BinaryOp} {l r : Expr} {s t : Ty} (hop : op ∈ [.and, .or])
      (hl : HasType R l s) (hr : HasType R r t)
      (hs : s.Consistent .boolean) (ht : t.Consistent .boolean) :
      HasType R (.binary p op l r) .boolean
  | comparison {p : Pos} {op : BinaryOp} {l r : Expr} {s t : Ty}
      (hop : op ∈ [.less, .lessOrEqual, .greater, .greaterOrEqual])
      (hl : HasType R l s) (hr : HasType R r t)
      (hs : s.Consistent .numeric) (ht : t.Consistent .numeric) :
      HasType R (.binary p op l r) .boolean
  | equality {p : Pos} {op : BinaryOp} {l r : Expr} {s t : Ty} (hop : op ∈ [.equal, .notEqual])
      (hl : HasType R l s) (hr : HasType R r t) (hst : t.Consistent s) :
      HasType R (.binary p op l r) .boolean
  | arithmetic {p : Pos} {op : BinaryOp} {l r : Expr} {s t : Ty}
      (hop : op ∈ [.plus, .minus, .times, .divide, .power])
      (hl : HasType R l s) (hr : HasType R r t)
      (hs : s.Consistent .numeric ∨ s.Consistent .boolean)
      (ht : t.Consistent .numeric ∨ t.Consistent .boolean) :
      HasType R (.binary p op l r) .numeric
  -- a function that nothing is known about
  | freeCall {p : Pos} {f : String} {args : List Expr} {ts : List Ty} (hf : R f = none)
      (hargs : List.Forall₂ (HasType R) args ts) : HasType R (.call p f args) .unknown
  | definedCall {p : Pos} {f : String} {args : List Expr} {ts : List Ty} {n : Nat}
      (hf : R f = some (.userDefined n)) (hargs : List.Forall₂ (HasType R) args ts)
      (hn : args.length = n) : HasType R (.call p f args) .unknown
  | builtinCall {p : Pos} {f : String} {args : List Expr} {ts : List Ty} {os : List Overload}
      {o : Overload} (hf : R f = some (.builtin os)) (hargs : List.Forall₂ (HasType R) args ts)
      (ho : FirstAccepting os ts o) : HasType R (.call p f args) o.result
  -- the subscript has to be there, and may be anything
  | index {p : Pos} {a i : Expr} {t : Ty} (ha : HasType R a t) (hi : i.isHole = false) :
      HasType R (.index p a i) .unknown
  -- `c` is what the conditions are compared with, `t` the type of the first result
  | case {p : Pos} {s d : Expr} {b : Branch Expr} {bs : List (Branch Expr)} {c t u : Ty}
      {cs rs : List Ty} (hnone : s.isHole = true → c = .boolean)
      (hsome : s.isHole = false → HasType R s c)
      (hconditions : List.Forall₂ (HasType R) ((b :: bs).map Branch.condition) cs)
      (hcs : ∀ v ∈ cs, v.Consistent c)
      (hfirst : HasType R b.result t)
      (hresults : List.Forall₂ (HasType R) (bs.map Branch.result) rs)
      (hrs : ∀ v ∈ rs, v.Consistent t)
      (hdefault : d.isHole = false → HasType R d u) (hu : d.isHole = false → u.Consistent t) :
      HasType R (.case p s (b :: bs) d) t
  | each {p : Pos} {a : Expr} {t : Ty} (ha : HasType R a t) : HasType R (.each p a) t

/-! ### Expectations and overloads in terms of consistency -/

namespace Expectation

/-- To expect a type is to ask for a consistent one. -/
lemma admits_exactly_iff {s t : Ty} : (exactly s).Admits t ↔ t.Consistent s :=
  admits_exactly

/-- Arithmetic takes numbers and truth values. -/
lemma admits_arithmetic_iff {t : Ty} :
    arithmetic.Admits t ↔ t.Consistent .numeric ∨ t.Consistent .boolean := by
  cases t <;> decide

end Expectation

/-- An overload fits if it accepts the types one by one. -/
lemma Overload.fits_iff_accepts {o : Overload} {ts : List Ty} : o.Fits ts ↔ o.Accepts ts := by
  rw [Fits, Accepts, List.forall₂_iff_zip]
  simp

/-- The search for an overload stops at the first one that accepts the types. -/
lemma find?_fits_eq_some_iff {os : List Overload} {ts : List Ty} {o : Overload} :
    (os.find? fun o => o.Fits ts) = some o ↔ FirstAccepting os ts o := by
  rw [List.find?_eq_some_iff_append, FirstAccepting]
  simp only [decide_eq_true_eq, Bool.not_eq_true', decide_eq_false_iff_not,
    Overload.fits_iff_accepts]
  constructor
  · rintro ⟨ho, before, after, hos, hbefore⟩
    exact ⟨before, after, hos, ho, hbefore⟩
  · rintro ⟨before, after, hos, ho, hbefore⟩
    exact ⟨ho, before, after, hos, hbefore⟩

/-- A call is accepted if its arguments are, and if the signature has a result for their types. -/
lemma Signature.applied_eq_pure_iff {σ : Signature} {f : String} {p : Pos}
    {x : Diagnosis (List Ty)} {t : Ty} :
    σ.applied f p x = pure t ↔ ∃ ts, x = pure ts ∧ σ.result? ts = some t := by
  simp only [applied, Diagnosis.eq_pure_iff]
  cases x.result with
  | none => simp
  | some ts => cases hσ : σ.result? ts <;> simp [hσ]

/-! ### The four groups of operations with two operands -/

namespace BinaryOp

variable {op : BinaryOp}

/-- Every operation is in one of the four groups. -/
lemma mem_groups (op : BinaryOp) :
    op ∈ [and, or] ∨ op ∈ [less, lessOrEqual, greater, greaterOrEqual] ∨
      op ∈ [equal, notEqual] ∨ op ∈ [plus, minus, times, divide, power] := by
  cases op <;> decide

/-- Logic is about truth values. -/
lemma of_mem_logic (h : op ∈ [and, or]) :
    op.operand? = some (.exactly .boolean) ∧ op.type = .boolean := by
  cases op <;> simp_all [operand?, type, Expectation.boolean]

/-- An order is there for numbers only. -/
lemma of_mem_comparison (h : op ∈ [less, lessOrEqual, greater, greaterOrEqual]) :
    op.operand? = some (.exactly .numeric) ∧ op.type = .boolean := by
  cases op <;> simp_all [operand?, type, Expectation.numeric]

/-- A test for equality expects no type in particular. -/
lemma of_mem_equality (h : op ∈ [equal, notEqual]) :
    op.operand? = none ∧ op.type = .boolean := by
  cases op <;> simp_all [operand?, type]

/-- Arithmetic is about numbers, and admits truth values. -/
lemma of_mem_arithmetic (h : op ∈ [plus, minus, times, divide, power]) :
    op.operand? = some .arithmetic ∧ op.type = .numeric := by
  cases op <;> simp_all [operand?, type]

end BinaryOp

/-! ### The typing follows the rules -/

namespace Expr

open Diagnosis

lemma expect_eq_pure_iff {Γ : Env} {S : Expectation} {e : Expr} :
    e.expect Γ S = pure () ↔ ∃ t, e.infer Γ = pure t ∧ S.Admits t :=
  expecting_eq_pure_iff

/-- An operation before its operand is accepted if the operand is as expected. -/
lemma infer_unary_eq_pure_iff {Γ : Env} {p : Pos} {op : UnaryOp} {a : Expr} {t : Ty} :
    infer Γ (unary p op a) = pure t ↔
      (∃ u, a.infer Γ = pure u ∧ op.operand.Admits u) ∧ op.type = t := by
  rw [infer_unary, then_eq_pure_iff, expect_eq_pure_iff, pure_eq_pure_iff]

/-- Two operands that are held to the same expectation. -/
lemma infer_binary_eq_pure_iff {Γ : Env} {p : Pos} {op : BinaryOp} {S : Expectation} {l r : Expr}
    {t : Ty} (hop : op.operand? = some S) :
    infer Γ (binary p op l r) = pure t ↔
      (∃ u, l.infer Γ = pure u ∧ S.Admits u) ∧ (∃ v, r.infer Γ = pure v ∧ S.Admits v) ∧
        op.type = t := by
  rw [infer_binary_of_some Γ p hop, then_eq_pure_iff, then_eq_pure_iff, expect_eq_pure_iff,
    expect_eq_pure_iff, pure_eq_pure_iff]

/-- Two operands that are compared with each other. -/
lemma infer_equality_eq_pure_iff {Γ : Env} {p : Pos} {op : BinaryOp} {l r : Expr} {t : Ty}
    (hop : op.operand? = none) :
    infer Γ (binary p op l r) = pure t ↔
      ∃ u, l.infer Γ = pure u ∧ (∃ v, r.infer Γ = pure v ∧ v.Consistent u) ∧ op.type = t := by
  rw [infer_binary_of_none Γ p hop, bind_eq_pure_iff]
  simp only [then_eq_pure_iff, expect_eq_pure_iff, pure_eq_pure_iff,
    Expectation.admits_exactly_iff]

/-- The conditions or results of a case are held to a type. -/
lemma forM_expect_eq_pure_iff {Γ : Env} {c : Ty} {bs : List (Branch Expr)}
    {part : Branch Expr → Expr} :
    forM bs (fun b => (part b).expect Γ (.exactly c)) = pure () ↔
      ∃ ts, List.Forall₂ (fun e t => e.infer Γ = pure t) (bs.map part) ts ∧
        ∀ t ∈ ts, t.Consistent c := by
  rw [← forall_exists_iff_exists_forall₂, forM_eq_pure_iff]
  simp only [expect_eq_pure_iff, Expectation.admits_exactly_iff, List.forall_mem_map]

/-- The type for the conditions of a case comes from the subject, if there is one. -/
lemma inferSubject_eq_pure_iff {Γ : Env} {s : Expr} {c : Ty} :
    s.inferSubject Γ = pure c ↔
      (s.isHole = true → c = .boolean) ∧ (s.isHole = false → s.infer Γ = pure c) := by
  cases h : s.isHole <;> simp [inferSubject, h, eq_comm]

/-- A default that is not given is accepted. -/
lemma expectDefault_eq_pure_iff {Γ : Env} {d : Expr} {t : Ty} :
    d.expectDefault Γ (.exactly t) = pure () ↔
      ∃ u, (d.isHole = false → d.infer Γ = pure u) ∧ (d.isHole = false → u.Consistent t) := by
  cases h : d.isHole with
  | true => simpa [expectDefault, h] using ⟨Ty.unknown⟩
  | false => simp [expectDefault, h, expect_eq_pure_iff, Expectation.admits_exactly_iff]

/-- A case has to have a branch, and the first one gives the type of the results. -/
lemma inferResults_eq_pure_iff {Γ : Env} {p : Pos} {bs : List (Branch Expr)} {t : Ty} :
    inferResults Γ p bs = pure t ↔
      ∃ b bs', bs = b :: bs' ∧ b.result.infer Γ = pure t ∧
        forM bs' (fun b : Branch Expr => b.result.expect Γ (.exactly t)) = pure () := by
  cases bs with
  | nil => simp [inferResults_nil, then_eq_pure_iff, -bind_pure_comp]
  | cons b bs =>
      rw [inferResults_cons, bind_eq_pure_iff]
      simp only [then_eq_pure_iff, pure_eq_pure_iff, List.cons.injEq]
      constructor
      · rintro ⟨u, hu, hbs, rfl⟩
        exact ⟨b, bs, ⟨rfl, rfl⟩, hu, hbs⟩
      · rintro ⟨_, _, ⟨rfl, rfl⟩, hu, hbs⟩
        exact ⟨t, hu, hbs, rfl⟩

/-- A case is accepted if its conditions fit the subject, and its results and its default each
other. -/
lemma infer_case_eq_pure_iff {Γ : Env} {p : Pos} {s : Expr} {bs : List (Branch Expr)} {d : Expr}
    {t : Ty} :
    infer Γ (case p s bs d) = pure t ↔
      ∃ c, s.inferSubject Γ = pure c ∧
        forM bs (fun b : Branch Expr => b.condition.expect Γ (.exactly c)) = pure () ∧
          inferResults Γ p bs = pure t ∧ d.expectDefault Γ (.exactly t) = pure () := by
  rw [infer_case, bind_eq_pure_iff]
  refine exists_congr fun c => and_congr_right fun _ => ?_
  rw [then_eq_pure_iff, bind_eq_pure_iff]
  refine and_congr_right fun _ => ?_
  simp only [then_eq_pure_iff, pure_eq_pure_iff]
  constructor
  · rintro ⟨u, hu, hd, rfl⟩
    exact ⟨hu, hd⟩
  · rintro ⟨hu, hd⟩
    exact ⟨t, hu, hd, rfl⟩

/-- The rules are followed: what has a type by the rules gets that type. -/
lemma HasType.infer_eq {Γ : Env} {e : Expr} {t : Ty} (h : e.HasType Γ.lookup t) :
    e.infer Γ = pure t := by
  induction e generalizing t with
  | hole => cases h
  | literal p k x =>
      rw [infer, pure_eq_pure_iff]
      cases h with
      | number hk => cases k <;> simp_all [LiteralKind.type]
      | text => rfl
      | truth => rfl
  | ident p n => cases h; rw [infer]
  | rowId p => cases h; rw [infer]
  | wildcard p => cases h; rw [infer]
  | column p n c => cases h; rw [infer]
  | unary p op a iha =>
      rw [infer_unary_eq_pure_iff]
      cases h with
      | not ha ht => exact ⟨⟨_, iha ha, Expectation.admits_exactly_iff.mpr ht⟩, rfl⟩
      | negate ha ht => exact ⟨⟨_, iha ha, Expectation.admits_exactly_iff.mpr ht⟩, rfl⟩
  | binary p op l r ihl ihr =>
      cases h with
      | logic hop hl hr hs ht =>
          obtain ⟨hS, htype⟩ := BinaryOp.of_mem_logic hop
          exact (infer_binary_eq_pure_iff hS).mpr
            ⟨⟨_, ihl hl, Expectation.admits_exactly_iff.mpr hs⟩,
              ⟨_, ihr hr, Expectation.admits_exactly_iff.mpr ht⟩, htype⟩
      | comparison hop hl hr hs ht =>
          obtain ⟨hS, htype⟩ := BinaryOp.of_mem_comparison hop
          exact (infer_binary_eq_pure_iff hS).mpr
            ⟨⟨_, ihl hl, Expectation.admits_exactly_iff.mpr hs⟩,
              ⟨_, ihr hr, Expectation.admits_exactly_iff.mpr ht⟩, htype⟩
      | equality hop hl hr hst =>
          obtain ⟨hS, htype⟩ := BinaryOp.of_mem_equality hop
          exact (infer_equality_eq_pure_iff hS).mpr ⟨_, ihl hl, ⟨_, ihr hr, hst⟩, htype⟩
      | arithmetic hop hl hr hs ht =>
          obtain ⟨hS, htype⟩ := BinaryOp.of_mem_arithmetic hop
          exact (infer_binary_eq_pure_iff hS).mpr
            ⟨⟨_, ihl hl, Expectation.admits_arithmetic_iff.mpr hs⟩,
              ⟨_, ihr hr, Expectation.admits_arithmetic_iff.mpr ht⟩, htype⟩
  | call p f args ihargs =>
      cases h with
      | freeCall hf hargs =>
          rw [infer_call_of_none Γ p hf, bind_eq_pure_iff]
          exact ⟨_, mapM_eq_pure_iff.mpr (forall₂_imp_of_mem hargs ihargs), rfl⟩
      | definedCall hf hargs hn =>
          rw [infer_call_of_some Γ p hf, Signature.applied_eq_pure_iff]
          refine ⟨_, mapM_eq_pure_iff.mpr (forall₂_imp_of_mem hargs ihargs), ?_⟩
          simp [Signature.result?, ← hargs.length_eq, hn]
      | builtinCall hf hargs ho =>
          rw [infer_call_of_some Γ p hf, Signature.applied_eq_pure_iff]
          refine ⟨_, mapM_eq_pure_iff.mpr (forall₂_imp_of_mem hargs ihargs), ?_⟩
          rw [Signature.result?, find?_fits_eq_some_iff.mpr ho, Option.map_some]
  | index p a i iha =>
      cases h with
      | index ha hi =>
          rw [infer_index, hi, if_neg Bool.false_ne_true, bind_eq_pure_iff]
          exact ⟨_, iha ha, rfl⟩
  | case p s bs d ihs ihbs ihd =>
      cases h with
      | @case _ _ _ b bs c _ _ _ _ hnone hsome hconditions hcs hfirst hresults hrs hdefault hu =>
          obtain ⟨ihb, ihtail⟩ := List.forall_mem_cons.mp ihbs
          refine infer_case_eq_pure_iff.mpr ⟨c, ?_, ?_, ?_, ?_⟩
          · exact inferSubject_eq_pure_iff.mpr ⟨hnone, fun h => ihs (hsome h)⟩
          · refine forM_expect_eq_pure_iff.mpr ⟨_, forall₂_imp_of_mem hconditions ?_, hcs⟩
            exact List.forall_mem_map.mpr fun b hb => (ihbs b hb).1
          · refine inferResults_eq_pure_iff.mpr ⟨b, bs, rfl, ihb.2 hfirst, ?_⟩
            refine forM_expect_eq_pure_iff.mpr ⟨_, forall₂_imp_of_mem hresults ?_, hrs⟩
            exact List.forall_mem_map.mpr fun b hb => (ihtail b hb).2
          · exact expectDefault_eq_pure_iff.mpr ⟨_, fun h => ihd (hdefault h), hu⟩
  | each p a iha =>
      cases h with
      | each ha => rw [infer_each, iha ha]

/-- What the typing accepts has its type by the rules. -/
lemma hasType_of_infer_eq {Γ : Env} {e : Expr} {t : Ty} (h : e.infer Γ = pure t) :
    e.HasType Γ.lookup t := by
  induction e generalizing t with
  | hole => simp [infer] at h
  | literal p k x =>
      rw [infer, pure_eq_pure_iff] at h
      subst h
      cases k with
      | string => exact .text
      | boolean => exact .truth
      | _ => exact .number (by decide)
  | ident p n =>
      rw [infer, pure_eq_pure_iff] at h
      exact h ▸ .ident
  | rowId p =>
      rw [infer, pure_eq_pure_iff] at h
      exact h ▸ .rowId
  | wildcard p =>
      rw [infer, pure_eq_pure_iff] at h
      exact h ▸ .wildcard
  | column p n c =>
      rw [infer, pure_eq_pure_iff] at h
      exact h ▸ .column
  | unary p op a iha =>
      obtain ⟨⟨u, ha, hu⟩, rfl⟩ := infer_unary_eq_pure_iff.mp h
      cases op with
      | not => exact .not (iha ha) (Expectation.admits_exactly_iff.mp hu)
      | negate => exact .negate (iha ha) (Expectation.admits_exactly_iff.mp hu)
  | binary p op l r ihl ihr =>
      rcases op.mem_groups with hop | hop | hop | hop
      · obtain ⟨hS, htype⟩ := BinaryOp.of_mem_logic hop
        obtain ⟨⟨u, hl, hu⟩, ⟨v, hr, hv⟩, rfl⟩ := (infer_binary_eq_pure_iff hS).mp h
        rw [Expectation.admits_exactly_iff] at hu hv
        exact htype ▸ .logic hop (ihl hl) (ihr hr) hu hv
      · obtain ⟨hS, htype⟩ := BinaryOp.of_mem_comparison hop
        obtain ⟨⟨u, hl, hu⟩, ⟨v, hr, hv⟩, rfl⟩ := (infer_binary_eq_pure_iff hS).mp h
        rw [Expectation.admits_exactly_iff] at hu hv
        exact htype ▸ .comparison hop (ihl hl) (ihr hr) hu hv
      · obtain ⟨hS, htype⟩ := BinaryOp.of_mem_equality hop
        obtain ⟨u, hl, ⟨v, hr, huv⟩, rfl⟩ := (infer_equality_eq_pure_iff hS).mp h
        exact htype ▸ .equality hop (ihl hl) (ihr hr) huv
      · obtain ⟨hS, htype⟩ := BinaryOp.of_mem_arithmetic hop
        obtain ⟨⟨u, hl, hu⟩, ⟨v, hr, hv⟩, rfl⟩ := (infer_binary_eq_pure_iff hS).mp h
        rw [Expectation.admits_arithmetic_iff] at hu hv
        exact htype ▸ .arithmetic hop (ihl hl) (ihr hr) hu hv
  | call p f args ihargs =>
      cases hf : Γ.lookup f with
      | none =>
          rw [infer_call_of_none Γ p hf, bind_eq_pure_iff] at h
          obtain ⟨ts, hargs, ht⟩ := h
          rw [pure_eq_pure_iff] at ht
          exact ht ▸ .freeCall hf (forall₂_imp_of_mem (mapM_eq_pure_iff.mp hargs) ihargs)
      | some σ =>
          rw [infer_call_of_some Γ p hf, Signature.applied_eq_pure_iff] at h
          obtain ⟨ts, hargs, hσ⟩ := h
          have htypes := forall₂_imp_of_mem (mapM_eq_pure_iff.mp hargs) ihargs
          cases σ with
          | userDefined n =>
              rw [Signature.result?, ← htypes.length_eq, Option.ite_none_right_eq_some] at hσ
              exact Option.some.inj hσ.2 ▸ .definedCall hf htypes hσ.1
          | builtin os =>
              rw [Signature.result?, Option.map_eq_some_iff] at hσ
              obtain ⟨o, ho, rfl⟩ := hσ
              exact .builtinCall hf htypes (find?_fits_eq_some_iff.mp ho)
  | index p a i iha =>
      rw [infer_index] at h
      cases hi : i.isHole with
      | true => simp [hi] at h
      | false =>
          rw [hi, if_neg Bool.false_ne_true, bind_eq_pure_iff] at h
          obtain ⟨u, ha, ht⟩ := h
          rw [pure_eq_pure_iff] at ht
          exact ht ▸ .index (iha ha) hi
  | case p s bs d ihs ihbs ihd =>
      obtain ⟨c, hs, hconditions, hresults, hd⟩ := infer_case_eq_pure_iff.mp h
      obtain ⟨b, bs, rfl, hfirst, hlater⟩ := inferResults_eq_pure_iff.mp hresults
      obtain ⟨hnone, hsome⟩ := inferSubject_eq_pure_iff.mp hs
      obtain ⟨cs, hcs, hcsc⟩ := forM_expect_eq_pure_iff.mp hconditions
      obtain ⟨rs, hrs, hrst⟩ := forM_expect_eq_pure_iff.mp hlater
      obtain ⟨u, hdu, hut⟩ := expectDefault_eq_pure_iff.mp hd
      obtain ⟨ihb, ihtail⟩ := List.forall_mem_cons.mp ihbs
      refine .case hnone (fun h => ihs (hsome h)) (forall₂_imp_of_mem hcs ?_) hcsc (ihb.2 hfirst)
        (forall₂_imp_of_mem hrs ?_) hrst (fun h => ihd (hdu h)) hut
      · exact List.forall_mem_map.mpr fun b hb => (ihbs b hb).1
      · exact List.forall_mem_map.mpr fun b hb => (ihtail b hb).2
  | each p a iha =>
      rw [infer_each] at h
      exact .each (iha h)

/-- **The typing decides the judgement**: nothing is wrong with an expression, and it gets the type
`t`, exactly if it has the type `t` by the rules. -/
theorem infer_eq_pure_iff {Γ : Env} {e : Expr} {t : Ty} :
    e.infer Γ = pure t ↔ e.HasType Γ.lookup t :=
  ⟨hasType_of_infer_eq, HasType.infer_eq⟩

end Expr

end QueryAnalysis
