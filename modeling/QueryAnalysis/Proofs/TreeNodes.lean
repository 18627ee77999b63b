import Mathlib.Data.List.Basic

/-!
Trees as lists of their nodes, where the list starts with the root and goes on with the nodes of its
parts. The nodes of an expression, those of them that the typing looks at and the operators of a
plan are listed in this way.

* `mem_nodes_iff`: every node but the root is a part of another one, and every part of a node is a
  node.
* `nodes_subset_of_mem_nodes`: the nodes below a node are nodes of the tree.
* `forall_mem_nodes_iff`, `forall_mem_nodes_iff_parts`: to hold of all nodes is to hold of the root
  and of all nodes of its parts, or else of the root and of the parts of all nodes.
-/

namespace QueryAnalysis

variable {τ : Type} {nodes parts : τ → List τ} (h : ∀ t, nodes t = t :: (parts t).flatMap nodes)

include h

lemma mem_nodes_self (t : τ) : t ∈ nodes t := by
  rw [h t]
  exact List.mem_cons_self

/-- The nodes of a part are nodes of the tree. -/
lemma nodes_subset_of_mem_parts {t c : τ} (hc : c ∈ parts t) : nodes c ⊆ nodes t := by
  intro n hn
  rw [h t]
  exact List.mem_cons_of_mem _ (List.mem_flatMap.mpr ⟨c, hc, hn⟩)

/-- A part has fewer nodes. -/
lemma length_nodes_lt_of_mem_parts {t c : τ} (hc : c ∈ parts t) :
    (nodes c).length < (nodes t).length := by
  have hsub : (nodes c).Sublist ((parts t).flatMap nodes) :=
    List.sublist_flatten_of_mem (List.mem_map_of_mem hc)
  rw [h t, List.length_cons]
  exact Nat.lt_succ_of_le hsub.length_le

/-- Every node of a tree is its root or a part of another node. -/
lemma mem_nodes_iff {t n : τ} : n ∈ nodes t ↔ n = t ∨ ∃ m ∈ nodes t, n ∈ parts m := by
  -- by induction on the number of nodes, which is smaller in a part
  induction hk : (nodes t).length using Nat.strongRecOn generalizing t with
  | _ k ih =>
    subst hk
    have hpart {c : τ} (hc : c ∈ parts t) : n ∈ nodes c ↔ n = c ∨ ∃ m ∈ nodes c, n ∈ parts m :=
      ih _ (length_nodes_lt_of_mem_parts h hc) rfl
    constructor
    · intro hn
      rw [h t, List.mem_cons, List.mem_flatMap] at hn
      rcases hn with rfl | ⟨c, hc, hn⟩
      · exact Or.inl rfl
      · rcases (hpart hc).mp hn with rfl | ⟨m, hm, hnm⟩
        · exact Or.inr ⟨t, mem_nodes_self h t, hc⟩
        · exact Or.inr ⟨m, nodes_subset_of_mem_parts h hc hm, hnm⟩
    · rintro (rfl | ⟨m, hm, hnm⟩)
      · exact mem_nodes_self h n
      · rw [h t, List.mem_cons, List.mem_flatMap] at hm
        rcases hm with rfl | ⟨c, hc, hm⟩
        · exact nodes_subset_of_mem_parts h hnm (mem_nodes_self h n)
        · exact nodes_subset_of_mem_parts h hc ((hpart hc).mpr (Or.inr ⟨m, hm, hnm⟩))

/-- The nodes below a node are nodes of the whole tree. -/
lemma nodes_subset_of_mem_nodes {t n : τ} (hn : n ∈ nodes t) : nodes n ⊆ nodes t := by
  -- by induction on the number of nodes again
  induction hk : (nodes t).length using Nat.strongRecOn generalizing t with
  | _ k ih =>
    subst hk
    rw [h t, List.mem_cons, List.mem_flatMap] at hn
    rcases hn with rfl | ⟨c, hc, hn⟩
    · exact List.Subset.refl _
    · have hc' : nodes n ⊆ nodes c := ih _ (length_nodes_lt_of_mem_parts h hc) hn rfl
      exact List.Subset.trans hc' (nodes_subset_of_mem_parts h hc)

variable {t : τ} {P : τ → Prop}

/-- To hold of all nodes is to hold of the root and of all nodes of its parts. -/
lemma forall_mem_nodes_iff : (∀ n ∈ nodes t, P n) ↔ P t ∧ ∀ c ∈ parts t, ∀ n ∈ nodes c, P n := by
  rw [h t, List.forall_mem_cons, List.forall_mem_flatMap]

/-- To hold of all nodes is to hold of the root and of the parts of all nodes. -/
lemma forall_mem_nodes_iff_parts :
    (∀ n ∈ nodes t, P n) ↔ P t ∧ ∀ n ∈ nodes t, ∀ c ∈ parts n, P c := by
  constructor
  · intro hP
    exact ⟨hP t (mem_nodes_self h t),
      fun n hn c hc => hP c ((mem_nodes_iff h).mpr (Or.inr ⟨n, hn, hc⟩))⟩
  · rintro ⟨hroot, hparts⟩ n hn
    rcases (mem_nodes_iff h).mp hn with rfl | ⟨m, hm, hnm⟩
    · exact hroot
    · exact hparts m hm n hnm

end QueryAnalysis
