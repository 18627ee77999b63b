import QueryAnalysis.Proofs.Edit
import QueryAnalysis.Proofs.Expr.Address
import QueryAnalysis.Proofs.Missing

/-!
When the checks of a single expression fail.

* `Expr.LacksAt`: a node, given by its address, lacks a part that it needs.
* `Edit.omission`, with `Edited.lacksAt_omission`: leaving out an optional part makes no node lack
  anything.
* `Expr.collect_fails_iff_lacksAt`: the typing fails exactly if a node outside of all subscripts
  lacks a part, and the check of an expression without a table fails exactly if any node does.
-/

namespace QueryAnalysis

/-- Omission: the subject or the default of a case is left out. -/
def Edit.omission : Edit where
  expr e e' := ∃ p s s' bs d d', e = .case p s bs d ∧ e' = .case p s' bs d' ∧
    (s' = s ∨ s' = .hole) ∧ (d' = d ∨ d' = .hole)
  plan _ _ := False
  query _ := False

namespace Expr

variable {e e' : Expr}

/-- The node at an address lacks the part that has to stand at a slot of it. -/
def LacksAt (e : Expr) (a : Address) (s : Slot) : Prop :=
  s.IsRequired ∧ ∃ n, e.at? a = some n ∧ n.part? s = some hole

/-- A part only counts as missing where it is required. -/
lemma isRequired_of_part?_eq_hole {s : Slot} (h : e.part? s = some hole) : s.IsRequired := by
  -- an optional part that is not given is no part
  have hgiven {x : Expr} : (if x.isHole then none else some x) ≠ some hole := by
    cases x <;> simp [isHole]
  cases e with
  | case p x bs d =>
      cases s with
      | subject => exact absurd h hgiven
      | default => exact absurd h hgiven
      | _ => trivial
  | _ => cases s <;> trivial

/-- A part is lacking where a node has an empty one. -/
lemma exists_lacksAt_iff {e : Expr} {P : Address → Prop} :
    (∃ a s, P a ∧ e.LacksAt a s) ↔
      ∃ n, (∃ a, P a ∧ e.at? a = some n) ∧ ∃ c ∈ n.children, c.isHole = true := by
  constructor
  · rintro ⟨a, s, ha, -, n, hn, hs⟩
    exact ⟨n, ⟨a, ha, hn⟩, hole, mem_children_iff_part?.mpr ⟨s, hs⟩, rfl⟩
  · rintro ⟨n, ⟨a, ha, hn⟩, c, hc, hhole⟩
    obtain rfl := eq_hole_of_isHole hhole
    obtain ⟨s, hs⟩ := mem_children_iff_part?.mp hc
    exact ⟨a, s, ha, isRequired_of_part?_eq_hole hs, n, hn, hs⟩

/-! ### Optional parts -/

/-- An expression that is empty after an omission was empty before. -/
lemma Edited.eq_hole_of_omission (h : e.Edited .omission hole) : e = hole := by
  cases h with
  | here h =>
      obtain ⟨p, s, s', bs, d, d', -, hcase, -⟩ := h
      cases hcase
  | same => rfl

/-- An optional part that is edited itself is given before and after. -/
lemma exists_optional_omission (hgiven : e'.isHole = e.isHole) (h : e.Edited .omission e')
    {c' : Expr} (hc : (if e'.isHole then none else some e') = some c') :
    ∃ c, (if e.isHole then none else some e) = some c ∧ c.Edited .omission c' := by
  rw [hgiven] at hc
  cases he : e.isHole with
  | true => simp [he] at hc
  | false =>
      simp only [he, Bool.false_eq_true, if_false, Option.some.injEq] at hc
      exact ⟨e, rfl, hc ▸ h⟩

/-- Where there is a part after an omission, there was one before, and it has been edited in the
same way. -/
lemma Edited.part?_omission (h : e.Edited .omission e') {s : Slot} {c' : Expr}
    (hc : e'.part? s = some c') : ∃ c, e.part? s = some c ∧ c.Edited .omission c' := by
  cases h with
  | here h =>
      obtain ⟨p, x, x', bs, d, d', rfl, rfl, hx, hd⟩ := h
      -- the slots that are filled after the omission have kept what they held
      refine ⟨c', ?_, .same c'⟩
      cases s with
      | subject =>
          obtain rfl | rfl := hx
          · exact hc
          · cases hc
      | default =>
          obtain rfl | rfl := hd
          · exact hc
          · cases hc
      | _ => exact hc
  | same => exact ⟨c', hc, .same c'⟩
  | call hargs =>
      cases s with
      | argument i => exact exists_getElem?_of_forall₂ hargs hc
      | _ => cases hc
  | case hsubject hs hconditions hresults hdefault hd =>
      cases s with
      | subject => exact exists_optional_omission hsubject hs hc
      | condition i =>
          rw [part?, ← List.getElem?_map] at hc ⊢
          exact exists_getElem?_of_forall₂ hconditions hc
      | result i =>
          rw [part?, ← List.getElem?_map] at hc ⊢
          exact exists_getElem?_of_forall₂ hresults hc
      | default => exact exists_optional_omission hdefault hd hc
      | _ => cases hc
  | unary ha =>
      cases s with
      | operand => exact ⟨_, rfl, Option.some.inj hc ▸ ha⟩
      | _ => cases hc
  | binary hl hr =>
      cases s with
      | left => exact ⟨_, rfl, Option.some.inj hc ▸ hl⟩
      | right => exact ⟨_, rfl, Option.some.inj hc ▸ hr⟩
      | _ => cases hc
  | index ha hi =>
      cases s with
      | array => exact ⟨_, rfl, Option.some.inj hc ▸ ha⟩
      | subscript => exact ⟨_, rfl, Option.some.inj hc ▸ hi⟩
      | _ => cases hc
  | each ha =>
      cases s with
      | body => exact ⟨_, rfl, Option.some.inj hc ▸ ha⟩
      | _ => cases hc

/-- What stands at an address after an omission stood there before, up to omissions in it. -/
lemma Edited.at?_omission (h : e.Edited .omission e') {a : Address} {n' : Expr}
    (hn : e'.at? a = some n') : ∃ n, e.at? a = some n ∧ n.Edited .omission n' := by
  induction a generalizing e e' with
  | nil =>
      obtain rfl := Option.some.inj hn
      exact ⟨e, rfl, h⟩
  | cons s a ih =>
      obtain ⟨c', hc', hn⟩ := Option.bind_eq_some_iff.mp hn
      obtain ⟨c, hc, hedit⟩ := h.part?_omission hc'
      obtain ⟨n, hn, hedit⟩ := ih hedit hn
      exact ⟨n, by rw [at?_cons, hc]; exact hn, hedit⟩

/-- What is lacking after an omission was lacking before. -/
lemma Edited.lacksAt_omission (h : e.Edited .omission e') {a : Address} {s : Slot}
    (hlacks : e'.LacksAt a s) : e.LacksAt a s := by
  obtain ⟨hs, n', hn', hhole⟩ := hlacks
  obtain ⟨n, hn, hedit⟩ := h.at?_omission hn'
  obtain ⟨c, hc, hedit⟩ := hedit.part?_omission hhole
  obtain rfl := hedit.eq_hole_of_omission
  exact ⟨hs, n, hn, hc⟩

/-! ### When a check fails -/

/-- The typing fails if a part is lacking that it comes to. -/
lemma result_infer_eq_none_iff (he : e.isHole = false) {Γ : Env} :
    (e.infer Γ).result = none ↔ ∃ a s, Slot.subscript ∉ a ∧ e.LacksAt a s := by
  rw [← Option.not_isSome_iff_eq_none, isSome_infer_iff, examinable_iff_parts, exists_lacksAt_iff]
  simp only [← mem_examined_iff_at?, he, true_and, not_forall, exists_prop, Bool.not_eq_false]

/-- The check of an expression without a table comes to all parts. -/
lemma result_checkStandalone_eq_none_iff (he : e.isHole = false) :
    e.checkStandalone.result = none ↔ ∃ a s, e.LacksAt a s := by
  have hnodes := exists_lacksAt_iff (e := e) (P := fun _ => True)
  simp only [true_and, ← mem_preorder_iff_at?] at hnodes
  rw [← Option.not_isSome_iff_eq_none, isSome_checkStandalone, complete_iff_parts, hnodes]
  simp only [he, true_and, not_forall, exists_prop, Bool.not_eq_false]

/-- The typing in place fails if the typing does, whatever was found before. -/
lemma runFrom_collect_eq_none_iff {Γ : Env} {L : List Diagnostic} :
    ((e.collect Γ).runFrom L).1 = none ↔ (e.infer Γ).result = none := by
  rw [collect_eq, Diagnosis.runFrom_replay]

/-- An expectation has no influence on whether the typing fails. -/
lemma runFrom_collectExpected_eq_none_iff {Γ : Env} {S : Expectation} {L : List Diagnostic} :
    ((e.collectExpected Γ S).runFrom L).1 = none ↔ (e.infer Γ).result = none := by
  rw [collectExpected_eq, Diagnosis.runFrom_replay, expect, Diagnosis.result_expecting,
    Option.map_eq_none_iff]

/-- The check in place fails if the check does, whatever was found before. -/
lemma runFrom_collectStandalone_eq_none_iff {L : List Diagnostic} :
    (e.collectStandalone.runFrom L).1 = none ↔ e.checkStandalone.result = none := by
  rw [collectStandalone_eq, Diagnosis.runFrom_replay]

/-- **When the checks of an expression fail.** Let an expression be there. Whatever functions are in
scope, whatever is expected of it and whatever was found before, its typing fails exactly if some
node lacks a part that it needs and the way to this node does not lead through a subscript; the
subscript of such a node is one of these parts, but its own parts are not. The check of an
expression without a table fails exactly if any node lacks a part. A check that fails after the
subject or the default of a case has been left out, wherever that is done, failed before. And if the
check without a table succeeds, then the typing yields a type. -/
theorem collect_fails_iff_lacksAt (he : e.isHole = false) :
    (∀ Γ L, ((e.collect Γ).runFrom L).1 = none ↔ ∃ a s, Slot.subscript ∉ a ∧ e.LacksAt a s) ∧
      (∀ Γ S L, ((e.collectExpected Γ S).runFrom L).1 = none ↔
        ∃ a s, Slot.subscript ∉ a ∧ e.LacksAt a s) ∧
      (∀ L, (e.collectStandalone.runFrom L).1 = none ↔ ∃ a s, e.LacksAt a s) ∧
      (∀ e', e.Edited .omission e' →
        (∀ Γ L, ((e'.collect Γ).runFrom L).1 = none → ((e.collect Γ).runFrom L).1 = none) ∧
        (∀ Γ S L, ((e'.collectExpected Γ S).runFrom L).1 = none →
          ((e.collectExpected Γ S).runFrom L).1 = none) ∧
        ∀ L, (e'.collectStandalone.runFrom L).1 = none → (e.collectStandalone.runFrom L).1 = none) ∧
      ∀ Γ L L', (e.collectStandalone.runFrom L).1 = some () →
        ∃ t, ((e.collect Γ).runFrom L').1 = some t := by
  simp only [← Option.ne_none_iff_exists', ne_eq]
  simp only [runFrom_collect_eq_none_iff, runFrom_collectExpected_eq_none_iff,
    runFrom_collectStandalone_eq_none_iff]
  refine ⟨fun _ _ => result_infer_eq_none_iff he, fun _ _ _ => result_infer_eq_none_iff he,
    fun _ => result_checkStandalone_eq_none_iff he, fun e' hedit => ?_,
    fun Γ L _ hdone hfails => ?_⟩
  · have he' : e'.isHole = false := by
      refine Bool.eq_false_iff.mpr fun hhole => ?_
      obtain rfl := eq_hole_of_isHole hhole
      rw [hedit.eq_hole_of_omission] at he
      cases he
    have htyping (Γ : Env) : (e'.infer Γ).result = none → (e.infer Γ).result = none := by
      rw [result_infer_eq_none_iff he, result_infer_eq_none_iff he']
      rintro ⟨a, s, ha, hlacks⟩
      exact ⟨a, s, ha, hedit.lacksAt_omission hlacks⟩
    refine ⟨fun Γ _ => htyping Γ, fun Γ _ _ => htyping Γ, fun _ => ?_⟩
    rw [result_checkStandalone_eq_none_iff he, result_checkStandalone_eq_none_iff he']
    rintro ⟨a, s, hlacks⟩
    exact ⟨a, s, hedit.lacksAt_omission hlacks⟩
  · obtain ⟨a, s, -, hlacks⟩ := (result_infer_eq_none_iff he).mp hfails
    have hnone := (result_checkStandalone_eq_none_iff he).mpr ⟨a, s, hlacks⟩
    rw [runFrom_collectStandalone_eq_none_iff.mpr hnone] at hdone
    cases hdone

/-- A case without subject and default. An operand is missing in a subscript, and nothing else. -/
def openingPrice : Expr :=
  .case ⟨1, 1⟩ .hole
    [⟨.index ⟨1, 2⟩ (.ident ⟨1, 3⟩ "open") (.unary ⟨1, 4⟩ .negate .hole),
      .call ⟨2, 1⟩ "abs" [.column ⟨2, 2⟩ "t" "price"]⟩] .hole

/-- The part that is lacking is in a subscript. So the typing yields a type, but the check without a
table fails. -/
theorem openingPrice_lacks :
    openingPrice.isHole = false ∧
      ((openingPrice.collect .builtins).runFrom []).1 = some .numeric ∧
      (openingPrice.collectStandalone.runFrom []).1 = none ∧
      (∃ a s, openingPrice.LacksAt a s) ∧
      ¬∃ a s, Slot.subscript ∉ a ∧ openingPrice.LacksAt a s := by
  have htype : ((openingPrice.collect .builtins).runFrom []).1 = some .numeric := by decide
  have hfails : (openingPrice.collectStandalone.runFrom []).1 = none := by decide
  obtain ⟨htyping, -, hstandalone, -⟩ := collect_fails_iff_lacksAt (e := openingPrice) rfl
  refine ⟨rfl, htype, hfails, (hstandalone []).mp hfails, fun hlacks => ?_⟩
  rw [(htyping .builtins []).mpr hlacks] at htype
  cases htype

end Expr

end QueryAnalysis
