import QueryAnalysis.Proofs.Collecting
import QueryAnalysis.Proofs.Expr.Address

/-!
What is reported of an expression that no table is in scope for: one finding for each node that
refers to a row, in the order of the text and up to the first missing part.

* `Expr.rowFinding?`: what is said of a single node, by its kind.
* `forM_checkStandaloneNode`, `forM_checkStandaloneNode_hole`: the findings along a list of nodes,
  to its end and up to a missing one.
* `Expr.collectStandalone_reports`: the same along the addresses of an expression.
-/

namespace QueryAnalysis.Expr

open Diagnosis

/-- What is said of a node if it refers to a row: where it stands, and how it is written. -/
def rowFinding? : Expr → Option Diagnostic
  | wildcard p => some (.illegalExpression "*" p)
  | column p t c => some (.illegalExpression (t ++ "." ++ c) p)
  | rowId p => some (.illegalExpression "ROWID" p)
  | _ => none

/-- What is said of the node at an address. -/
def rowFindingAt? (e : Expr) (a : Address) : Option Diagnostic :=
  (e.at? a).bind rowFinding?

/-! ### Along a list of nodes -/

lemma checkStandaloneNode_of_given {n : Expr} (hn : n.isHole = false) :
    n.checkStandaloneNode = reportAll n.rowFinding?.toList := by
  cases n with
  | hole => cases hn
  | _ => rfl

/-- If no node is missing, all that refer to a row are reported. -/
lemma forM_checkStandaloneNode {ns : List Expr} (h : ∀ n ∈ ns, n.isHole = false) :
    forM ns checkStandaloneNode = reportAll (ns.filterMap rowFinding?) := by
  induction ns with
  | nil => rfl
  | cons n ns ih =>
      obtain ⟨hn, hns⟩ := List.forall_mem_cons.mp h
      rw [List.forM_cons, checkStandaloneNode_of_given hn, ih hns, ← reportAll_append]
      cases hfinding : n.rowFinding? <;> simp [hfinding]

/-- At a missing node the check ends, with those reported that come before it. -/
lemma forM_checkStandaloneNode_hole {before : List Expr} (h : ∀ n ∈ before, n.isHole = false)
    (after : List Expr) :
    forM (before ++ hole :: after) checkStandaloneNode =
      ⟨before.filterMap rowFinding?, none⟩ := by
  rw [List.forM_append, forM_checkStandaloneNode h, List.forM_cons]
  ext1
  · rw [diagnostics_bind_of_some (result_reportAll _), diagnostics_reportAll]
    exact List.append_nil _
  · rfl

/-! ### Along the addresses of an expression -/

variable {e : Expr}

/-- Along addresses and along the nodes at them, the same is found. -/
lemma filterMap_rowFindingAt? {as : List Address} {ns : List Expr}
    (h : as.map e.at? = ns.map some) :
    as.filterMap e.rowFindingAt? = ns.filterMap rowFinding? := by
  calc as.filterMap e.rowFindingAt?
      = (as.map e.at?).filterMap fun n => n.bind rowFinding? := by
        rw [List.filterMap_map]; rfl
    _ = (ns.map some).filterMap fun n => n.bind rowFinding? := by rw [h]
    _ = ns.filterMap rowFinding? := List.filterMap_map

/-- If one of several addresses leads to a missing part, then there is a first one that does. -/
lemma exists_first_missing {as : List Address} (h : ∃ a ∈ as, e.at? a = some hole) :
    ∃ before m after, as = before ++ m :: after ∧ e.at? m = some hole ∧
      ∀ a ∈ before, e.at? a ≠ some hole := by
  have hmissing {a : Address} : (e.at? a).any isHole = true ↔ e.at? a = some hole := by
    rw [Option.any_eq_true]
    constructor
    · rintro ⟨n, hn, hhole⟩
      rw [hn, eq_hole_of_isHole hhole]
    · intro ha
      exact ⟨hole, ha, rfl⟩
  obtain ⟨a, ha, hhole⟩ := h
  have hfound : (as.find? fun a => (e.at? a).any isHole).isSome :=
    List.find?_isSome.mpr ⟨a, ha, hmissing.mpr hhole⟩
  obtain ⟨m, hm⟩ := Option.isSome_iff_exists.mp hfound
  obtain ⟨hm, before, after, hsplit, hbefore⟩ := List.find?_eq_some_iff_append.mp hm
  refine ⟨before, m, after, hsplit, hmissing.mp hm, fun b hb hhole => ?_⟩
  simpa [hmissing.mpr hhole] using hbefore b hb

/-- **Exactly the nodes that refer to a row are reported.** There is one list of the addresses of an
expression in the order of the text. If there is no missing part at any of them, then the check runs
to its end, and reports one by one the wildcards, column accesses and row numbers along the list,
each as it is written and where it stands. If there is a missing part, then the check fails, and
reports those of them that stand before the first missing part. -/
theorem collectStandalone_reports (e : Expr) :
    ∃ as, e.Listing as ∧ (∀ bs, e.Listing bs → bs = as) ∧
      ((∀ a, e.at? a ≠ some hole) → ∀ L,
        e.collectStandalone.runFrom L = (some (), L ++ as.filterMap e.rowFindingAt?)) ∧
      ((∃ a, e.at? a = some hole) →
        ∃ before m after, as = before ++ m :: after ∧ e.at? m = some hole ∧
          (∀ a ∈ before, e.at? a ≠ some hole) ∧
          ∀ L, e.collectStandalone.runFrom L = (none, L ++ before.filterMap e.rowFindingAt?)) := by
  obtain ⟨as, has, hnodes⟩ := exists_listing e
  -- along equal lists of nodes, a missing node is one at an address of a missing part
  have hgiven {bs : List Address} {ns : List Expr} (h : bs.map e.at? = ns.map some)
      (hbs : ∀ a ∈ bs, e.at? a ≠ some hole) : ∀ n ∈ ns, n.isHole = false := by
    intro n hn
    have hmem : some n ∈ bs.map e.at? := h ▸ List.mem_map_of_mem hn
    obtain ⟨a, ha, hat⟩ := List.mem_map.mp hmem
    refine Bool.eq_false_iff.mpr fun hhole => hbs a ha ?_
    rw [hat, eq_hole_of_isHole hhole]
  refine ⟨as, has, fun bs hbs => hbs.unique has, fun hcomplete L => ?_, fun ⟨a, ha⟩ => ?_⟩
  · rw [collectStandalone_eq, runFrom_replay, checkStandalone,
      forM_checkStandaloneNode (hgiven hnodes fun a _ => hcomplete a),
      filterMap_rowFindingAt? hnodes]
    rfl
  · have hmem : a ∈ as := (has.mem_iff a).mpr (by rw [ha]; rfl)
    obtain ⟨before, m, after, rfl, hm, hbefore⟩ := exists_first_missing ⟨a, hmem, ha⟩
    refine ⟨before, m, after, rfl, hm, hbefore, fun L => ?_⟩
    rw [List.map_append, List.map_cons, hm, eq_comm, List.map_eq_append_iff] at hnodes
    obtain ⟨ns, _, hpreorder, hns, hrest⟩ := hnodes
    obtain ⟨n, rest, rfl, hn, -⟩ := List.map_eq_cons_iff.mp hrest
    obtain rfl := Option.some.inj hn
    rw [collectStandalone_eq, runFrom_replay, checkStandalone, hpreorder,
      forM_checkStandaloneNode_hole (hgiven hns.symm hbefore), filterMap_rowFindingAt? hns.symm]

/-- A value that refers to a row in a subscript, in an argument, and in the subject and the default
of a case. -/
def netPrice (fee : Expr) : Expr :=
  .case ⟨1, 1⟩ (.rowId ⟨1, 2⟩)
    [⟨.index ⟨2, 1⟩ (.ident ⟨2, 2⟩ "days") (.column ⟨2, 3⟩ "t" "day"),
      .call ⟨3, 1⟩ "max" [.wildcard ⟨3, 2⟩, fee]⟩]
    (.column ⟨4, 1⟩ "t" "price")

/-- With the fee, there are four findings in the order of the text, the one in the subscript among
them. Without it, the check stops behind the wildcard, and does not come to the default. -/
theorem netPrice_reports :
    (∃ as, (netPrice (.ident ⟨3, 3⟩ "fee")).Listing as ∧
      as.filterMap (netPrice (.ident ⟨3, 3⟩ "fee")).rowFindingAt? =
        [.illegalExpression "ROWID" ⟨1, 2⟩, .illegalExpression "t.day" ⟨2, 3⟩,
          .illegalExpression "*" ⟨3, 2⟩, .illegalExpression "t.price" ⟨4, 1⟩]) ∧
      ∃ before m after, (netPrice .hole).Listing (before ++ m :: after) ∧
        (netPrice .hole).at? m = some .hole ∧
        before.filterMap (netPrice .hole).rowFindingAt? =
          [.illegalExpression "ROWID" ⟨1, 2⟩, .illegalExpression "t.day" ⟨2, 3⟩,
            .illegalExpression "*" ⟨3, 2⟩] := by
  constructor
  · obtain ⟨as, has, -, hall, -⟩ := collectStandalone_reports (netPrice (.ident ⟨3, 3⟩ "fee"))
    have hrun := hall (complete_iff_at?.mp (by decide)) []
    refine ⟨as, has, (congrArg Prod.snd hrun).symm.trans ?_⟩
    decide +kernel
  · obtain ⟨_, has, -, -, hsome⟩ := collectStandalone_reports (netPrice .hole)
    obtain ⟨before, m, after, rfl, hm, -, hrun⟩ := hsome ⟨[.result 0, .argument 1], rfl⟩
    refine ⟨before, m, after, has, hm, (congrArg Prod.snd (hrun [])).symm.trans ?_⟩
    decide +kernel

end QueryAnalysis.Expr
