import Mathlib.Data.List.Lex
import Mathlib.Data.List.Sort
import Mathlib.Order.WithBot
import QueryAnalysis.Proofs.Expr.Examined

/-!
Addresses in an expression. A part of a node stands at a slot of it, and the slots that lead from
the root to a node are its address. Two nodes may be equal, but they never have the same address.

* `Expr.Slot`: the slots of all kinds of nodes. `Slot.rank` orders those of one node as they stand
  in the text, and `Slot.IsRequired` says which of them have to be filled.
* `Expr.part?`, `Expr.at?`: what stands at a slot, and at an address.
* `Expr.Precedes`: the order of the text on addresses, with a node before its parts.
* `Expr.Listing`: all addresses of an expression in this order. There is one such list, and read
  along it, the nodes are those of `Expr.preorder`: `Expr.Listing.unique`, `Expr.exists_listing`.
* `mem_preorder_iff_at?`, `mem_examined_iff_at?`: the nodes, and the nodes that the typing looks at,
  are what stands at an address, and at an address that does not lead through a subscript.
-/

namespace QueryAnalysis.Expr

/-! ### Slots -/

/-- A place for a part of a node. Arguments and branches are counted from zero. -/
inductive Slot where
  | operand
  | left
  | right
  | argument (i : Nat)
  | array
  | subscript
  | subject
  | condition (i : Nat)
  | result (i : Nat)
  | default
  | body
deriving DecidableEq

/-- An address: the slots on the way from the root to a node. -/
abbrev Address := List Slot

namespace Slot

/-- A node of the right kind is incomplete without a part at this slot. -/
def IsRequired : Slot → Prop
  | subject | default => False
  | _ => True

/-- Where the slot comes in the text, among the slots of the same node. The default of a case comes
after all branches. -/
def rank : Slot → WithTop ℕ
  | operand | left | array | subject | body => WithTop.some 0
  | right | subscript => WithTop.some 1
  | argument i => WithTop.some i
  | condition i => WithTop.some (2 * i + 1)
  | result i => WithTop.some (2 * i + 2)
  | default => ⊤

end Slot

/-- What stands at a slot of the node. A required part that is missing shows as `hole`; an optional
one that is not given is no part. -/
def part? : Expr → Slot → Option Expr
  | unary _ _ a, .operand => some a
  | binary _ _ l _, .left => some l
  | binary _ _ _ r, .right => some r
  | call _ _ args, .argument i => args[i]?
  | index _ a _, .array => some a
  | index _ _ i, .subscript => some i
  | case _ s _ _, .subject => if s.isHole then none else some s
  | case _ _ bs _, .condition i => bs[i]?.map Branch.condition
  | case _ _ bs _, .result i => bs[i]?.map Branch.result
  | case _ _ _ d, .default => if d.isHole then none else some d
  | each _ a, .body => some a
  | _, _ => none

/-- What stands at an address. -/
def at? : Expr → Address → Option Expr
  | e, [] => some e
  | e, s :: a => (e.part? s).bind fun c => c.at? a

@[simp] lemma at?_nil (e : Expr) : e.at? [] = some e := rfl

@[simp] lemma at?_cons (e : Expr) (s : Slot) (a : Address) :
    e.at? (s :: a) = (e.part? s).bind fun c => c.at? a := rfl

/-- The first address comes before the second one in the text. A node comes before its parts. -/
def Precedes : Address → Address → Prop :=
  List.Lex fun s t => s.rank < t.rank

/-! ### The parts of a node by their slots -/

/-- Arguments with their slots, where `k` other ones come before them. -/
def placedArguments (k : Nat) : List Expr → List (Slot × Expr)
  | [] => []
  | a :: as => (.argument k, a) :: placedArguments (k + 1) as

/-- The parts of branches with their slots, where `k` other branches come before them. -/
def placedBranches (k : Nat) : List (Branch Expr) → List (Slot × Expr)
  | [] => []
  | b :: bs => (.condition k, b.condition) :: (.result k, b.result) :: placedBranches (k + 1) bs

/-- The parts of a node with their slots, in the order of the text. -/
def placed : Expr → List (Slot × Expr)
  | hole | literal _ _ _ | ident _ _ | rowId _ | wildcard _ | column _ _ _ => []
  | unary _ _ a => [(.operand, a)]
  | binary _ _ l r => [(.left, l), (.right, r)]
  | call _ _ args => placedArguments 0 args
  | index _ a i => [(.array, a), (.subscript, i)]
  | case _ s bs d =>
    s.given.map (Prod.mk .subject) ++ placedBranches 0 bs ++ d.given.map (Prod.mk .default)
  | each _ a => [(.body, a)]

lemma map_snd_placedArguments (k : Nat) (as : List Expr) :
    (placedArguments k as).map Prod.snd = as := by
  induction as generalizing k with
  | nil => rfl
  | cons a as ih => rw [placedArguments, List.map_cons, ih]

lemma map_snd_placedBranches (k : Nat) (bs : List (Branch Expr)) :
    (placedBranches k bs).map Prod.snd = bs.flatMap fun b => [b.condition, b.result] := by
  induction bs generalizing k with
  | nil => rfl
  | cons b bs ih => rw [placedBranches, List.map_cons, List.map_cons, ih]; rfl

/-- The slots of a node hold its parts. -/
lemma map_snd_placed (e : Expr) : e.placed.map Prod.snd = e.children := by
  have hgiven (x : Expr) (s : Slot) : (x.given.map (Prod.mk s)).map Prod.snd = x.given := by
    rw [List.map_map]
    exact List.map_id _
  cases e with
  | call p f args => exact map_snd_placedArguments 0 args
  | case p s bs d =>
      rw [placed, children, List.map_append, List.map_append, hgiven, hgiven,
        map_snd_placedBranches]
  | _ => rfl

/-- The arguments stand at the slots from `k` on. -/
lemma mem_placedArguments {k : Nat} {as : List Expr} {x : Slot × Expr} :
    x ∈ placedArguments k as ↔ ∃ i, x.1 = .argument (k + i) ∧ as[i]? = some x.2 := by
  induction as generalizing k with
  | nil => simp [placedArguments]
  | cons a as ih =>
      rw [placedArguments, List.mem_cons, ih]
      constructor
      · rintro (rfl | ⟨i, hslot, hi⟩)
        · exact ⟨0, rfl, rfl⟩
        · exact ⟨i + 1, by rw [hslot, Nat.add_right_comm, Nat.add_assoc], hi⟩
      · rintro ⟨_ | i, hslot, hi⟩
        · exact Or.inl (Prod.ext hslot (Option.some.inj hi).symm)
        · exact Or.inr ⟨i, by rw [hslot, Nat.add_right_comm, Nat.add_assoc], hi⟩

/-- The branches stand at the slots from `k` on, each with a condition and a result. -/
lemma mem_placedBranches {k : Nat} {bs : List (Branch Expr)} {x : Slot × Expr} :
    x ∈ placedBranches k bs ↔ ∃ i,
      (x.1 = .condition (k + i) ∧ bs[i]?.map Branch.condition = some x.2) ∨
        (x.1 = .result (k + i) ∧ bs[i]?.map Branch.result = some x.2) := by
  induction bs generalizing k with
  | nil => simp [placedBranches]
  | cons b bs ih =>
      have hk (i : Nat) : k + 1 + i = k + (i + 1) := by omega
      rw [placedBranches, List.mem_cons, List.mem_cons, ih]
      constructor
      · rintro (rfl | rfl | ⟨i, hi⟩)
        · exact ⟨0, Or.inl ⟨rfl, rfl⟩⟩
        · exact ⟨0, Or.inr ⟨rfl, rfl⟩⟩
        · exact ⟨i + 1, by rwa [hk] at hi⟩
      · rintro ⟨_ | i, hi⟩
        · rcases hi with ⟨hslot, hi⟩ | ⟨hslot, hi⟩
          · exact Or.inl (Prod.ext hslot (Option.some.inj hi).symm)
          · exact Or.inr (Or.inl (Prod.ext hslot (Option.some.inj hi).symm))
        · exact Or.inr (Or.inr ⟨i, by rwa [hk]⟩)

/-- A part is listed with the slot that it stands at. -/
lemma mem_placed {e c : Expr} {s : Slot} : (s, c) ∈ e.placed ↔ e.part? s = some c := by
  have hgiven (x : Expr) (t : Slot) :
      (s, c) ∈ x.given.map (Prod.mk t) ↔ s = t ∧ (if x.isHole then none else some x) = some c := by
    by_cases hx : x.isHole <;> simp [given, hx, eq_comm]
  cases e with
  | call p f args =>
      rw [placed, mem_placedArguments]
      cases s <;> simp [part?]
  | case p x bs d =>
      rw [placed, List.mem_append, List.mem_append, hgiven, hgiven, mem_placedBranches]
      cases s <;> simp [part?]
  | _ => cases s <;> simp [placed, part?, eq_comm]

/-- The parts of a node are what stands at its slots. -/
lemma mem_children_iff_part? {e c : Expr} : c ∈ e.children ↔ ∃ s, e.part? s = some c := by
  simp only [← map_snd_placed, List.mem_map, ← mem_placed, Prod.exists, exists_eq_right]

/-- The slot of the first part comes before that of the second one. -/
def PlacedBefore (x y : Slot × Expr) : Prop :=
  x.1.rank < y.1.rank

/-- Arguments are listed in the order of their slots. -/
lemma pairwise_placedArguments (k : Nat) (as : List Expr) :
    (placedArguments k as).Pairwise PlacedBefore := by
  induction as generalizing k with
  | nil => exact .nil
  | cons a as ih =>
      refine .cons (fun y hy => ?_) (ih (k + 1))
      obtain ⟨i, hslot, -⟩ := mem_placedArguments.mp hy
      rw [PlacedBefore, hslot]
      exact WithTop.coe_lt_coe.mpr (by omega)

/-- The slots of branches come after those of earlier branches, and before the default. -/
lemma rank_of_mem_placedBranches {k : Nat} {bs : List (Branch Expr)} {x : Slot × Expr}
    (h : x ∈ placedBranches k bs) :
    WithTop.some (2 * k) < x.1.rank ∧ x.1.rank < Slot.default.rank := by
  obtain ⟨i, ⟨hslot, -⟩ | ⟨hslot, -⟩⟩ := mem_placedBranches.mp h
  · rw [hslot]
    exact ⟨WithTop.coe_lt_coe.mpr (by omega), WithTop.coe_lt_top _⟩
  · rw [hslot]
    exact ⟨WithTop.coe_lt_coe.mpr (by omega), WithTop.coe_lt_top _⟩

/-- Branches are listed in the order of their slots, and each condition before its result. -/
lemma pairwise_placedBranches (k : Nat) (bs : List (Branch Expr)) :
    (placedBranches k bs).Pairwise PlacedBefore := by
  induction bs generalizing k with
  | nil => exact .nil
  | cons b bs ih =>
      have hresult : Slot.rank (.condition k) < Slot.rank (.result k) :=
        WithTop.coe_lt_coe.mpr (Nat.lt_succ_self _)
      have hlater : ∀ y ∈ placedBranches (k + 1) bs, Slot.rank (.result k) < y.1.rank :=
        fun y hy => (rank_of_mem_placedBranches hy).1
      refine .cons (List.forall_mem_cons.mpr ⟨hresult, fun y hy => ?_⟩) (.cons hlater (ih (k + 1)))
      exact hresult.trans (hlater y hy)

lemma pairwise_map_given (x : Expr) (s : Slot) :
    (x.given.map (Prod.mk s)).Pairwise PlacedBefore := by
  by_cases hx : x.isHole <;> simp [given, hx]

/-- The parts of a node are listed in the order of their slots. -/
lemma pairwise_placed (e : Expr) : e.placed.Pairwise PlacedBefore := by
  have hgiven {x : Expr} {s : Slot} {y : Slot × Expr} (hy : y ∈ x.given.map (Prod.mk s)) :
      y.1 = s := by
    obtain ⟨_, -, rfl⟩ := List.mem_map.mp hy
    rfl
  cases e with
  | binary p op l r => exact List.pairwise_pair.mpr (WithTop.coe_lt_coe.mpr Nat.zero_lt_one)
  | call p f args => exact pairwise_placedArguments 0 args
  | index p a i => exact List.pairwise_pair.mpr (WithTop.coe_lt_coe.mpr Nat.zero_lt_one)
  | case p x bs d =>
      refine List.pairwise_append.mpr ⟨List.pairwise_append.mpr ⟨pairwise_map_given x _,
        pairwise_placedBranches 0 bs, fun y hy z hz => ?_⟩, pairwise_map_given d _,
        fun y hy z hz => ?_⟩
      · rw [PlacedBefore, hgiven hy]
        exact (rank_of_mem_placedBranches hz).1
      · rw [PlacedBefore, hgiven hz]
        rcases List.mem_append.mp hy with hy | hy
        · rw [hgiven hy]
          exact WithTop.coe_lt_top 0
        · exact (rank_of_mem_placedBranches hy).2
  | unary p op a => exact List.pairwise_singleton _ _
  | each p a => exact List.pairwise_singleton _ _
  | _ => exact .nil

/-- The typing looks into all slots but that of a subscript. -/
lemma mem_examinedParts_iff_part? {e c : Expr} :
    c ∈ e.examinedParts ↔ ∃ s, s ≠ .subscript ∧ e.part? s = some c := by
  cases e with
  | index p a i =>
      constructor
      · intro hc
        exact ⟨.array, by decide, by rw [List.mem_singleton.mp hc]; rfl⟩
      · rintro ⟨s, hs, hpart⟩
        cases s <;> simp_all [part?, examinedParts]
  | _ =>
      rw [examinedParts, mem_children_iff_part?]
      · refine exists_congr fun s => (and_iff_right_of_imp ?_).symm
        rintro hpart rfl
        cases hpart
      · intro p a i h
        cases h

/-! ### Nodes by their addresses -/

section

variable {nodes parts : Expr → List Expr} {P : Slot → Prop}
  (hnodes : ∀ e, nodes e = e :: (parts e).flatMap nodes)
  (hparts : ∀ {e c}, c ∈ parts e ↔ ∃ s, P s ∧ e.part? s = some c)

include hnodes hparts

/-- If nodes are listed through the parts at slots of some kind, then they are what stands at an
address that is made of such slots. -/
lemma mem_nodes_iff_at? {e n : Expr} :
    n ∈ nodes e ↔ ∃ a : Address, (∀ s ∈ a, P s) ∧ e.at? a = some n := by
  constructor
  · intro hn
    induction e using induct_children with
    | _ e ih =>
      rw [hnodes, List.mem_cons, List.mem_flatMap] at hn
      rcases hn with rfl | ⟨c, hc, hn⟩
      · exact ⟨[], List.forall_mem_nil _, rfl⟩
      · obtain ⟨s, hs, hpart⟩ := hparts.mp hc
        obtain ⟨a, ha, hat⟩ := ih c (mem_children_iff_part?.mpr ⟨s, hpart⟩) hn
        exact ⟨s :: a, List.forall_mem_cons.mpr ⟨hs, ha⟩, by rw [at?_cons, hpart]; exact hat⟩
  · rintro ⟨a, ha, hat⟩
    induction a generalizing e with
    | nil =>
        rw [← Option.some.inj hat]
        exact mem_nodes_self hnodes e
    | cons s a ih =>
        obtain ⟨hs, ha⟩ := List.forall_mem_cons.mp ha
        obtain ⟨c, hpart, hat⟩ := Option.bind_eq_some_iff.mp hat
        exact nodes_subset_of_mem_parts hnodes (hparts.mpr ⟨s, hs, hpart⟩) (ih ha hat)

end

/-- The nodes of an expression are what stands at its addresses. -/
lemma mem_preorder_iff_at? {e n : Expr} : n ∈ e.preorder ↔ ∃ a, e.at? a = some n := by
  have h := mem_nodes_iff_at? (P := fun _ => True) (n := n) (e := e) preorder_eq
    (by simp [mem_children_iff_part?])
  simpa using h

/-- In a complete tree, no address leads to a missing part. -/
lemma complete_iff_at? {e : Expr} : e.Complete ↔ ∀ a, e.at? a ≠ some hole := by
  constructor
  · intro h a ha
    cases h hole (mem_preorder_iff_at?.mpr ⟨a, ha⟩)
  · intro h n hn
    refine Bool.eq_false_iff.mpr fun hhole => ?_
    obtain ⟨a, ha⟩ := mem_preorder_iff_at?.mp hn
    exact h a (eq_hole_of_isHole hhole ▸ ha)

/-- The typing looks at a node if the way to it does not lead through a subscript. -/
lemma mem_examined_iff_at? {e n : Expr} :
    n ∈ e.examined ↔ ∃ a : Address, .subscript ∉ a ∧ e.at? a = some n := by
  rw [mem_nodes_iff_at? (P := (· ≠ .subscript)) examined_eq mem_examinedParts_iff_part?]
  refine exists_congr fun a => and_congr_left fun _ => ?_
  exact ⟨fun h hmem => h _ hmem rfl, fun h s hs heq => h (heq ▸ hs)⟩

/-! ### All addresses in order -/

/-- All addresses of an expression, in the order of the text. -/
structure Listing (e : Expr) (as : List Address) : Prop where
  sorted : as.Pairwise Precedes
  mem_iff : ∀ a, a ∈ as ↔ (e.at? a).isSome

/-- The order of the text leaves only one way to list the addresses. -/
lemma Listing.unique {e : Expr} {as bs : List Address} (has : e.Listing as) (hbs : e.Listing bs) :
    as = bs := by
  have hslots : Std.Asymm fun s t : Slot => s.rank < t.rank := ⟨fun _ _ h => lt_asymm h⟩
  have hasymm : Std.Asymm Precedes := List.Lex.asymm _
  exact has.sorted.eq_of_mem_iff hbs.sorted fun a => (has.mem_iff a).trans (hbs.mem_iff a).symm

/-- The addresses below a node, from those below its parts. -/
lemma Listing.node {e : Expr} {below : Expr → List Address}
    (h : ∀ c ∈ e.children, c.Listing (below c)) :
    e.Listing ([] :: e.placed.flatMap fun x => (below x.2).map (x.1 :: ·)) where
  sorted := by
    refine .cons (fun a ha => ?_) (List.pairwise_flatMap.mpr ⟨fun x hx => ?_, ?_⟩)
    · simp only [List.mem_flatMap, List.mem_map] at ha
      obtain ⟨x, -, b, -, rfl⟩ := ha
      exact .nil
    · have hc : x.2 ∈ e.children := map_snd_placed e ▸ List.mem_map_of_mem hx
      exact List.pairwise_map.mpr ((h x.2 hc).sorted.imp .cons)
    · refine (pairwise_placed e).imp fun hxy a ha b hb => ?_
      obtain ⟨a, -, rfl⟩ := List.mem_map.mp ha
      obtain ⟨b, -, rfl⟩ := List.mem_map.mp hb
      exact .rel hxy
  mem_iff := by
    intro a
    cases a with
    | nil => simp
    | cons s a =>
        have hbelow {c : Expr} (hc : e.part? s = some c) : a ∈ below c ↔ (c.at? a).isSome :=
          (h c (mem_children_iff_part?.mpr ⟨s, hc⟩)).mem_iff a
        simp only [List.mem_cons, reduceCtorEq, false_or, List.mem_flatMap, List.mem_map, at?_cons,
          Option.isSome_iff_exists, Option.bind_eq_some_iff]
        constructor
        · rintro ⟨⟨_, c⟩, hx, _, ha, rfl, rfl⟩
          obtain ⟨n, hn⟩ := Option.isSome_iff_exists.mp ((hbelow (mem_placed.mp hx)).mp ha)
          exact ⟨n, c, mem_placed.mp hx, hn⟩
        · rintro ⟨n, c, hc, hn⟩
          exact ⟨(s, c), mem_placed.mpr hc, a, (hbelow hc).mpr (by rw [hn]; rfl), rfl⟩

/-- Every expression has a listing of its addresses, and read along it, its nodes are in preorder.
-/
lemma exists_listing (e : Expr) :
    ∃ as, e.Listing as ∧ as.map e.at? = e.preorder.map some := by
  induction e using induct_children with
  | _ e ih =>
    choose! below hbelow hnodes using ih
    refine ⟨_, .node hbelow, ?_⟩
    have hpart {x : Slot × Expr} (hx : x ∈ e.placed) :
        ((below x.2).map (x.1 :: ·)).map e.at? = x.2.preorder.map some := by
      have hc : e.part? x.1 = some x.2 := mem_placed.mp hx
      rw [← hnodes x.2 (mem_children_iff_part?.mpr ⟨x.1, hc⟩), List.map_map]
      exact List.map_congr_left fun a _ => by rw [Function.comp_apply, at?_cons, hc]; rfl
    rw [preorder_eq, ← map_snd_placed, List.map_cons, List.map_cons, List.flatMap_map,
      List.map_flatMap, List.map_flatMap]
    exact congrArg _ (List.flatMap_congr fun x hx => hpart hx)

end QueryAnalysis.Expr
