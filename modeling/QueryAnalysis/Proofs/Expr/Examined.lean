import QueryAnalysis.Proofs.Expr.Nodes
import QueryAnalysis.Proofs.TreeNodes

/-!
Which parts of an expression have to be there. The whole tree is complete if no required part is
missing at any depth. The typing of an expression needs less, since it does not look into the
subscripts of arrays.

* `Expr.examined`: the nodes that the typing looks at, which are all nodes that do not belong to a
  subscript.
* `Expr.Complete`, `Expr.Examinable`: nothing is missing at all, or nothing that the typing needs.
* `isSome_infer_iff`: the typing yields a type exactly for examinable expressions.
* `Complete.examinable`, `Examinable.complete`: the two notions agree once the subscripts that are
  given are complete.
-/

namespace QueryAnalysis.Expr

/-! ### The nodes that are looked at -/

mutual

/-- The nodes of an expression without those of its subscripts, each one before its parts. -/
def examined : Expr → List Expr
  | hole => [hole]
  | literal p k t => [literal p k t]
  | ident p n => [ident p n]
  | rowId p => [rowId p]
  | wildcard p => [wildcard p]
  | column p t c => [column p t c]
  | unary p op a => unary p op a :: examined a
  | binary p op l r => binary p op l r :: (examined l ++ examined r)
  | call p f args => call p f args :: examinedAll args
  | index p a i => index p a i :: examined a
  | case p s bs d =>
    case p s bs d :: ((if s.isHole then [] else examined s) ++ examinedBranches bs ++
      (if d.isHole then [] else examined d))
  | each p a => each p a :: examined a

/-- The nodes of a list of expressions without those of subscripts. -/
def examinedAll : List Expr → List Expr
  | [] => []
  | e :: es => examined e ++ examinedAll es

/-- The nodes of the branches of a case without those of subscripts. -/
def examinedBranches : List (Branch Expr) → List Expr
  | [] => []
  | ⟨c, r⟩ :: bs => examined c ++ examined r ++ examinedBranches bs

end

@[simp] lemma examinedAll_eq (es : List Expr) : examinedAll es = es.flatMap examined := by
  induction es with
  | nil => rfl
  | cons e es ih => simp [examinedAll, ih]

@[simp] lemma examinedBranches_eq (bs : List (Branch Expr)) :
    examinedBranches bs = bs.flatMap fun b => examined b.condition ++ examined b.result := by
  induction bs with
  | nil => rfl
  | cons b bs ih => simp [examinedBranches, ih]

/-- The subscript of an array access. -/
def subscript? : Expr → Option Expr
  | index _ _ i => some i
  | _ => none

/-- The parts of a node that the typing looks into: all of them but a subscript. -/
def examinedParts : Expr → List Expr
  | index _ a _ => [a]
  | e => e.children

/-- A node comes first, then the nodes of the parts that are looked into. -/
lemma examined_eq (e : Expr) : e.examined = e :: e.examinedParts.flatMap examined := by
  cases e with
  | case p s bs d =>
      have hg (x : Expr) :
          (if x.isHole then [] else x.examined) = x.given.flatMap examined := by
        rw [given]
        split <;> simp
      simp [examined, examinedParts, children, hg, List.flatMap_assoc]
  | _ => simp [examined, examinedParts, children]

/-- The parts of a node are those that the typing looks into, and the subscript. -/
lemma mem_children_iff {e c : Expr} :
    c ∈ e.children ↔ c ∈ e.examinedParts ∨ e.subscript? = some c := by
  cases e <;> simp [children, examinedParts, subscript?, eq_comm]

/-- An optional part counts only if it is given. -/
lemma forall_mem_given_iff {e : Expr} {P : Expr → Prop} :
    (∀ c ∈ e.given, P c) ↔ (e.isHole = false → P e) := by
  cases h : e.isHole <;> simp [given, h]

/-- The parts of a case: its subject and its default, if they are given, and its branches. -/
lemma forall_mem_examinedParts_case_iff {p : Pos} {s d : Expr} {bs : List (Branch Expr)}
    {P : Expr → Prop} :
    (∀ c ∈ (case p s bs d).examinedParts, P c) ↔
      (s.isHole = false → P s) ∧ (∀ b ∈ bs, P b.condition) ∧ (∀ b ∈ bs, P b.result) ∧
        (d.isHole = false → P d) := by
  simp only [examinedParts, children, List.forall_mem_append, List.forall_mem_flatMap,
    List.forall_mem_cons, List.not_mem_nil, false_imp_iff, implies_true, and_true, forall_and,
    forall_mem_given_iff, and_assoc]

/-- Induction over the parts of a node, whatever kind of node it is. -/
lemma induct_children {motive : Expr → Prop}
    (h : ∀ e, (∀ c ∈ e.children, motive c) → motive e) (e : Expr) : motive e := by
  have hgiven {x : Expr} (hx : motive x) : ∀ c ∈ x.given, motive c := by
    intro c hc
    rw [given] at hc
    split at hc <;> simp_all
  induction e with
  | unary p op a ha => exact h _ (by simpa [children] using ha)
  | binary p op l r hl hr => exact h _ (by simpa [children] using ⟨hl, hr⟩)
  | call p f args hargs => exact h _ hargs
  | index p a i ha hi => exact h _ (by simpa [children] using ⟨ha, hi⟩)
  | case p s bs d hs hbs hd =>
      refine h _ fun c hc => ?_
      simp only [children, List.mem_append, List.mem_flatMap, List.mem_cons, List.not_mem_nil,
        or_false] at hc
      rcases hc with (hc | ⟨b, hb, rfl | rfl⟩) | hc
      · exact hgiven hs c hc
      · exact (hbs b hb).1
      · exact (hbs b hb).2
      · exact hgiven hd c hc
  | each p a ha => exact h _ (by simpa [children] using ha)
  | _ => exact h _ (by simp [children])

/-! ### Missing parts -/

lemma eq_hole_of_isHole {e : Expr} (h : e.isHole = true) : e = hole := by
  cases e with
  | hole => rfl
  | _ => cases h

/-- No required part is missing, at any depth. -/
def Complete (e : Expr) : Prop :=
  ∀ n ∈ e.preorder, n.isHole = false

instance : DecidablePred Complete := fun e =>
  inferInstanceAs (Decidable (∀ n ∈ e.preorder, n.isHole = false))

/-- No required part is missing outside of subscripts, and the subscripts themselves are there. -/
def Examinable (e : Expr) : Prop :=
  ∀ n ∈ e.examined, n.isHole = false ∧ ∀ i ∈ n.subscript?, i.isHole = false

/-- The subscripts anywhere in the expression. -/
def subscripts (e : Expr) : List Expr :=
  e.preorder.filterMap subscript?

/-- The subscripts that are given are complete. -/
def SubscriptsComplete (e : Expr) : Prop :=
  ∀ i ∈ e.subscripts, i.isHole = true ∨ i.Complete

instance : DecidablePred SubscriptsComplete := fun e =>
  inferInstanceAs (Decidable (∀ i ∈ e.subscripts, i.isHole = true ∨ i.Complete))

/-- A tree is complete if its root is there and its parts are complete. -/
lemma complete_iff {e : Expr} : e.Complete ↔ e.isHole = false ∧ ∀ c ∈ e.children, c.Complete :=
  forall_mem_nodes_iff preorder_eq

/-- The typing needs the node, its subscript, and what it needs of the parts that it looks into. -/
lemma examinable_iff {e : Expr} :
    e.Examinable ↔ (e.isHole = false ∧ ∀ i ∈ e.subscript?, i.isHole = false) ∧
      ∀ c ∈ e.examinedParts, c.Examinable :=
  forall_mem_nodes_iff examined_eq

/-- What the typing looks at has all that the typing needs. -/
lemma Examinable.of_mem_examined {e n : Expr} (h : e.Examinable) (hn : n ∈ e.examined) :
    n.Examinable :=
  fun m hm => h m (nodes_subset_of_mem_nodes examined_eq hn hm)

/-- The subscripts of a part are among those of the whole. -/
lemma SubscriptsComplete.of_mem_children {e c : Expr} (h : e.SubscriptsComplete)
    (hc : c ∈ e.children) : c.SubscriptsComplete := by
  intro i hi
  obtain ⟨n, hn, hni⟩ := List.mem_filterMap.mp hi
  exact h i (List.mem_filterMap.mpr ⟨n, nodes_subset_of_mem_parts preorder_eq hc hn, hni⟩)

/-- The subscript of a node is among those of the expression. -/
lemma SubscriptsComplete.subscript {e i : Expr} (h : e.SubscriptsComplete)
    (hi : e.subscript? = some i) : i.isHole = true ∨ i.Complete :=
  h i (List.mem_filterMap.mpr ⟨e, mem_nodes_self preorder_eq e, hi⟩)

/-- The typing needs no more than what is there in a complete tree. -/
lemma Complete.examinable {e : Expr} (h : e.Complete) : e.Examinable := by
  induction e using induct_children with
  | _ e ih =>
    obtain ⟨hroot, hparts⟩ := complete_iff.mp h
    refine examinable_iff.mpr ⟨⟨hroot, fun i hi => ?_⟩, fun c hc => ?_⟩
    · exact (complete_iff.mp (hparts i (mem_children_iff.mpr (Or.inr hi)))).1
    · have hmem := mem_children_iff.mpr (Or.inl hc)
      exact ih c hmem (hparts c hmem)

/-- If the subscripts that are given are complete, then nothing is missing at all as soon as nothing
is missing that the typing needs. -/
lemma Examinable.complete {e : Expr} (h : e.Examinable) (hs : e.SubscriptsComplete) :
    e.Complete := by
  induction e using induct_children with
  | _ e ih =>
    obtain ⟨⟨hroot, hsub⟩, hparts⟩ := examinable_iff.mp h
    refine complete_iff.mpr ⟨hroot, fun c hc => ?_⟩
    rcases mem_children_iff.mp hc with hp | hi
    · exact ih c hc (hparts c hp) (hs.of_mem_children hc)
    · have hgiven := hsub c hi
      exact (hs.subscript hi).resolve_left (by simp [hgiven])

/-! ### The typing yields a type -/

open Diagnosis

/-- A call that is not allowed has a type all the same, which is unknown. -/
lemma isSome_applied (σ : Signature) (f : String) (p : Pos) (x : Diagnosis (List Ty)) :
    (σ.applied f p x).result.isSome = x.result.isSome := by
  rw [Signature.applied]
  cases x.result with
  | none => rfl
  | some ts =>
      dsimp only
      cases σ.result? ts <;> rfl

@[simp] lemma isSome_expect (Γ : Env) (S : Expectation) (e : Expr) :
    (e.expect Γ S).result.isSome = (e.infer Γ).result.isSome :=
  isSome_expecting _ _ _

lemma isSome_inferSubject {Γ : Env} {s : Expr} :
    (s.inferSubject Γ).result.isSome ↔ ∀ c ∈ s.given, (c.infer Γ).result.isSome := by
  by_cases h : s.isHole <;> simp [inferSubject, given, h]

lemma isSome_expectDefault {Γ : Env} {S : Expectation} {d : Expr} :
    (d.expectDefault Γ S).result.isSome ↔ ∀ c ∈ d.given, (c.infer Γ).result.isSome := by
  by_cases h : d.isHole <;> simp [expectDefault, given, h]

/-- All results of a case have to have a type. A case without results has one as well. -/
lemma isSome_inferResults {Γ : Env} {p : Pos} {bs : List (Branch Expr)} :
    (inferResults Γ p bs).result.isSome ↔ ∀ b ∈ bs, (b.result.infer Γ).result.isSome := by
  cases bs with
  | nil => simp [inferResults_nil]
  | cons b bs =>
      rw [inferResults_cons, List.forall_mem_cons]
      refine isSome_bind_of_forall fun t => ?_
      simp [isSome_forM]

/-- The typing of a node yields a type if the node and its subscript are there, and if the typing of
the parts that are looked into does. -/
lemma isSome_infer_step (Γ : Env) (e : Expr) :
    (e.infer Γ).result.isSome ↔
      (e.isHole = false ∧ ∀ i ∈ e.subscript?, i.isHole = false) ∧
        ∀ c ∈ e.examinedParts, (c.infer Γ).result.isSome := by
  cases e with
  | unary p op a => simp [infer_unary, isHole, subscript?, examinedParts, children]
  | binary p op l r =>
      cases hop : op.operand? with
      | some S =>
          rw [infer_binary_of_some Γ p hop, isSome_then, isSome_then]
          simp [isHole, subscript?, examinedParts, children]
      | none =>
          rw [infer_binary_of_none Γ p hop,
            isSome_bind_of_forall (q := (r.infer Γ).result.isSome) fun t => by simp]
          simp [isHole, subscript?, examinedParts, children]
  | call p f args =>
      cases hf : Γ.lookup f with
      | some σ =>
          rw [infer_call_of_some Γ p hf, isSome_applied, isSome_mapM]
          simp [isHole, subscript?, examinedParts, children]
      | none =>
          rw [infer_call_of_none Γ p hf, isSome_then, isSome_mapM]
          simp [isHole, subscript?, examinedParts, children]
  | index p a i =>
      rw [infer_index]
      cases hi : i.isHole with
      | true => simp [hi, subscript?]
      | false =>
          rw [if_neg Bool.false_ne_true, isSome_then]
          simp [hi, subscript?, examinedParts, show (index p a i).isHole = false from rfl]
  | case p s bs d =>
      have hrest (c : Ty) :
          (forM bs (fun b => b.condition.expect Γ (.exactly c)) >>= fun _ =>
            inferResults Γ p bs >>= fun t =>
              d.expectDefault Γ (.exactly t) >>= fun _ => pure t).result.isSome ↔
            (∀ b ∈ bs, (b.condition.infer Γ).result.isSome) ∧
              (∀ b ∈ bs, (b.result.infer Γ).result.isSome) ∧
                ∀ x ∈ d.given, (x.infer Γ).result.isSome := by
        rw [isSome_then, isSome_forM, isSome_bind_of_forall fun t => isSome_then.trans
          (and_iff_left rfl |>.trans isSome_expectDefault), isSome_inferResults]
        simp only [isSome_expect]
      rw [infer_case, isSome_bind_of_forall hrest, isSome_inferSubject]
      simp only [examinedParts, children, subscript?, List.forall_mem_append,
        List.forall_mem_flatMap, List.forall_mem_cons, forall_and]
      simp [and_assoc, show (case p s bs d).isHole = false from rfl]
  | each p a => simp [infer_each, isHole, subscript?, examinedParts, children]
  | hole => simp [infer, isHole]
  | _ => simp [infer, isHole, subscript?, examinedParts, children]

/-- **What the typing needs.** An expression gets a type exactly if no required part is missing
outside of its subscripts, and the subscripts themselves are there. The functions in scope do not
matter. -/
lemma isSome_infer_iff (Γ : Env) (e : Expr) : (e.infer Γ).result.isSome ↔ e.Examinable := by
  induction e using induct_children with
  | _ e ih =>
    rw [isSome_infer_step, examinable_iff]
    refine and_congr_right fun _ => forall₂_congr fun c hc => ?_
    exact ih c (mem_children_iff.mpr (Or.inl hc))

end QueryAnalysis.Expr
