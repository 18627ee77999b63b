import QueryAnalysis.Proofs.Edit
import QueryAnalysis.Proofs.WellFormed

/-!
The typing is gradual: to know less about a program never makes it worse. A plain name stands for a
value that nothing is known about, so to forget a part of a program is to put a plain name in its
place.

* `Edit.forget`: plain names in place of expressions.
* `Ty.Forgets`: the second type says the same as the first one, or nothing.
* `Expr.HasType.forget`: an expression with a type still has one after parts of it are forgotten,
  and that type says no more than the first one did.
* `Program.analyze_eq_nil_of_forget`: a program without findings has none after any parts of it are
  forgotten.
-/

namespace QueryAnalysis

open Diagnosis

/-- Forgetting: a plain name in place of any expression. -/
def Edit.forget : Edit where
  expr _ e' := ∃ p n, e' = .ident p n
  plan _ _ := False
  query _ := False

/-! ### Types that say less -/

/-- The second type says the same as the first one, or nothing at all. -/
def Ty.Forgets (t t' : Ty) : Prop :=
  t' = t ∨ t' = .unknown

namespace Ty

variable {s s' t t' : Ty}

lemma Forgets.refl (t : Ty) : t.Forgets t :=
  Or.inl rfl

lemma Forgets.unknown (t : Ty) : t.Forgets .unknown :=
  Or.inr rfl

/-- Types stay consistent if less is known about them. -/
lemma Consistent.forget (h : s.Consistent t) (hs : s.Forgets s') (ht : t.Forgets t') :
    s'.Consistent t' := by
  obtain rfl | rfl := hs
  · obtain rfl | rfl := ht
    · exact h
    · exact Or.inr (Or.inr rfl)
  · exact Or.inr (Or.inl rfl)

/-- Types that are all consistent with one type stay so if less is known about any of them. -/
lemma Consistent.forget_all {ts ts' : List Ty} (h : ∀ v ∈ ts, v.Consistent t)
    (hts : List.Forall₂ Forgets ts ts') (ht : t.Forgets t') : ∀ v ∈ ts', v.Consistent t' :=
  forall_mem_of_forall₂ hts fun v hv _ hforget => (h v hv).forget hforget ht

end Ty

/-- A type that is admitted still is if less is known about it. -/
lemma Expectation.Admits.forget {S : Expectation} {t t' : Ty} (h : S.Admits t)
    (ht : t.Forgets t') : S.Admits t' := by
  obtain rfl | rfl := ht
  · exact h
  · exact S.admits_unknown

/-! ### Overloads with different numbers of arguments -/

/-- Arguments that an overload accepts are still accepted if less is known about them. -/
lemma Overload.Accepts.forget {o : Overload} {ts ts' : List Ty} (h : o.Accepts ts)
    (hts : List.Forall₂ Ty.Forgets ts ts') : o.Accepts ts' := by
  rw [Accepts] at h ⊢
  generalize o.args = Ss at h ⊢
  induction h generalizing ts' with
  | nil =>
      cases hts
      exact .nil
  | cons hS _ ih =>
      obtain _ | ⟨ht, hts⟩ := hts
      exact .cons (hS.forget ht) (ih hts)

/-- The overloads of a function differ in the number of arguments, so that this number alone decides
which one a call can be of. -/
def DistinctArities (os : List Overload) : Prop :=
  (os.map fun o => o.args.length).Nodup

instance : DecidablePred DistinctArities := fun os =>
  inferInstanceAs (Decidable (os.map fun o => o.args.length).Nodup)

/-- With less knowledge of the arguments, a call does not go to an earlier overload. -/
lemma FirstAccepting.forget {os : List Overload} {o : Overload} {ts ts' : List Ty}
    (hos : DistinctArities os) (h : FirstAccepting os ts o)
    (hts : List.Forall₂ Ty.Forgets ts ts') : FirstAccepting os ts' o := by
  obtain ⟨before, after, rfl, ho, -⟩ := h
  have ho' := ho.forget hts
  refine ⟨before, after, rfl, ho', fun o' hmem hacc => ?_⟩
  rw [DistinctArities, List.map_append, List.map_cons, List.nodup_append] at hos
  refine hos.2.2 _ (List.mem_map_of_mem hmem) _ List.mem_cons_self ?_
  rw [hacc.length_eq, ho'.length_eq]

/-- All functions with overloads have them by the number of arguments. -/
def Unambiguous (R : String → Option Signature) : Prop :=
  ∀ f os, R f = some (.builtin os) → DistinctArities os

/-- No built-in function has two overloads with the same number of arguments. -/
lemma Env.unambiguous_builtins : Unambiguous Env.builtins.lookup := by
  have hown : ∀ d ∈ Env.builtins.own, ∀ os ∈ d.2.overloads?, DistinctArities os := by decide
  intro f os h
  exact Env.forall_builtins (Q := fun σ => ∀ os ∈ σ.overloads?, DistinctArities os) hown h os rfl

/-- Neither has any function in a program, since those that it defines have no overloads. -/
lemma Program.unambiguous_resolve (P : Program) : Unambiguous P.resolve := by
  intro f os h
  rw [resolve, Option.or_eq_some_iff] at h
  obtain h | ⟨-, h⟩ := h
  · simp at h
  · exact Env.unambiguous_builtins f os h

/-! ### Expressions that say less -/

namespace Expr

variable {R : String → Option Signature} {e e' : Expr}

lemma Edited.isHole_forget (h : e.Edited .forget e') (he : e.isHole = false) :
    e'.isHole = false := by
  obtain ⟨p, n, rfl⟩ | rfl | ⟨-, hplain, -⟩ := h.step
  · rfl
  · exact he
  · exact hplain.1

/-- A plain name is a sort key like any other. -/
lemma Edited.isSortable_forget (h : e.Edited .forget e') (he : e.isSortable = true) :
    e'.isSortable = true := by
  cases h with
  | here h =>
      obtain ⟨p, n, rfl⟩ := h
      rfl
  | same => exact he
  | _ => cases he

/-- If forgetting keeps each member of a list typed, then it does so for the list. -/
lemma forall₂_hasType_forget {es es' : List Expr} {ts : List Ty}
    (hes : List.Forall₂ (fun e e' => ∀ t, e.HasType R t → ∃ t', e'.HasType R t' ∧ t.Forgets t')
      es es') (h : List.Forall₂ (HasType R) es ts) :
    ∃ ts', List.Forall₂ (HasType R) es' ts' ∧ List.Forall₂ Ty.Forgets ts ts' := by
  induction hes generalizing ts with
  | nil =>
      cases h
      exact ⟨[], .nil, .nil⟩
  | cons he _ ih =>
      obtain _ | ⟨ht, hts⟩ := h
      obtain ⟨t', ht', hforget⟩ := he _ ht
      obtain ⟨ts', hts', hforgets⟩ := ih hts
      exact ⟨t' :: ts', .cons ht' hts', .cons hforget hforgets⟩

/-- Without a subject a case still compares with truth values; with one, with what is left of its
type. -/
lemma subject_forget {s s' : Expr} {c : Ty} (hsubject : s'.isHole = s.isHole)
    (hs : ∀ t, s.HasType R t → ∃ t', s'.HasType R t' ∧ t.Forgets t')
    (hnone : s.isHole = true → c = .boolean) (hsome : s.isHole = false → s.HasType R c) :
    ∃ c', (s'.isHole = true → c' = .boolean) ∧ (s'.isHole = false → s'.HasType R c') ∧
      c.Forgets c' := by
  rw [hsubject]
  cases hgiven : s.isHole with
  | true => exact ⟨c, fun _ => hnone hgiven, Bool.noConfusion, .refl c⟩
  | false =>
      obtain ⟨c', hc', hforget⟩ := hs c (hsome hgiven)
      exact ⟨c', Bool.noConfusion, fun _ => hc', hforget⟩

/-- If there is a default, then it still agrees with the first result. -/
lemma default_forget {d d' : Expr} {t t' u : Ty} (hdefault : d'.isHole = d.isHole)
    (hd : ∀ t, d.HasType R t → ∃ t', d'.HasType R t' ∧ t.Forgets t') (ht : t.Forgets t')
    (htype : d.isHole = false → d.HasType R u) (hut : d.isHole = false → u.Consistent t) :
    ∃ u', (d'.isHole = false → d'.HasType R u') ∧ (d'.isHole = false → u'.Consistent t') := by
  rw [hdefault]
  cases hgiven : d.isHole with
  | true => exact ⟨u, Bool.noConfusion, Bool.noConfusion⟩
  | false =>
      obtain ⟨u', hu', hforget⟩ := hd u (htype hgiven)
      exact ⟨u', fun _ => hu', fun _ => (hut hgiven).forget hforget ht⟩

/-- **The typing is gradual**: an expression with a type still has one after parts of it are
forgotten, and that type says no more than the first one. -/
theorem HasType.forget (hR : Unambiguous R) (hedit : e.Edited .forget e') {t : Ty}
    (h : e.HasType R t) : ∃ t', e'.HasType R t' ∧ t.Forgets t' := by
  induction hedit using Edited.induct generalizing t with
  | here e e' he =>
      obtain ⟨p, n, rfl⟩ := he
      exact ⟨.unknown, .ident, .unknown t⟩
  | same e => exact ⟨t, h, .refl t⟩
  | unary p op a a' _ ih =>
      cases h with
      | not ha ht =>
          obtain ⟨t', ha', hforget⟩ := ih ha
          exact ⟨.boolean, .not ha' (ht.forget hforget (.refl _)), .refl _⟩
      | negate ha ht =>
          obtain ⟨t', ha', hforget⟩ := ih ha
          exact ⟨.numeric, .negate ha' (ht.forget hforget (.refl _)), .refl _⟩
  | binary p op l l' r r' _ _ ihl ihr =>
      cases h with
      | logic hop hl hr hs ht =>
          obtain ⟨s', hl', hforget⟩ := ihl hl
          obtain ⟨t', hr', hforget'⟩ := ihr hr
          exact ⟨.boolean, .logic hop hl' hr' (hs.forget hforget (.refl _))
            (ht.forget hforget' (.refl _)), .refl _⟩
      | comparison hop hl hr hs ht =>
          obtain ⟨s', hl', hforget⟩ := ihl hl
          obtain ⟨t', hr', hforget'⟩ := ihr hr
          exact ⟨.boolean, .comparison hop hl' hr' (hs.forget hforget (.refl _))
            (ht.forget hforget' (.refl _)), .refl _⟩
      | equality hop hl hr hst =>
          obtain ⟨s', hl', hforget⟩ := ihl hl
          obtain ⟨t', hr', hforget'⟩ := ihr hr
          exact ⟨.boolean, .equality hop hl' hr' (hst.forget hforget' hforget), .refl _⟩
      | arithmetic hop hl hr hs ht =>
          obtain ⟨s', hl', hforget⟩ := ihl hl
          obtain ⟨t', hr', hforget'⟩ := ihr hr
          exact ⟨.numeric, .arithmetic hop hl' hr'
            (hs.imp (·.forget hforget (.refl _)) (·.forget hforget (.refl _)))
            (ht.imp (·.forget hforget' (.refl _)) (·.forget hforget' (.refl _))), .refl _⟩
  | call p f args args' hargs ih =>
      have hlength := hargs.length_eq
      replace ih := ih.imp fun a a' h t => h.2 (t := t)
      cases h with
      | freeCall hf hts =>
          obtain ⟨ts', hts', -⟩ := forall₂_hasType_forget ih hts
          exact ⟨.unknown, .freeCall hf hts', .refl _⟩
      | definedCall hf hts hn =>
          obtain ⟨ts', hts', -⟩ := forall₂_hasType_forget ih hts
          exact ⟨.unknown, .definedCall hf hts' (hlength ▸ hn), .refl _⟩
      | builtinCall hf hts ho =>
          obtain ⟨ts', hts', hforget⟩ := forall₂_hasType_forget ih hts
          exact ⟨_, .builtinCall hf hts' (ho.forget (hR _ _ hf) hforget), .refl _⟩
  | index p a a' i i' _ hi iha _ =>
      cases h with
      | index ha hgiven =>
          obtain ⟨t', ha', -⟩ := iha ha
          exact ⟨.unknown, .index ha' (hi.isHole_forget hgiven), .refl _⟩
  | case p s s' d d' bs bs' hsubject _ _ _ hdefault _ ihs ihc ihr ihd =>
      replace ihc := ihc.imp fun a a' h t => h.2 (t := t)
      replace ihr := ihr.imp fun a a' h t => h.2 (t := t)
      cases h with
      | @case _ _ _ b bs c _ u cs rs hnone hsome hcs hcsc hfirst hrs hrst hd hut =>
          obtain ⟨c', hnone', hsome', hc⟩ :=
            subject_forget hsubject (fun _ => ihs) hnone hsome
          obtain ⟨cs', hcs', hforgetc⟩ := forall₂_hasType_forget ihc hcs
          cases bs' with
          | nil => cases ihc
          | cons b' bs' =>
              obtain _ | ⟨ihb, ihbs⟩ := ihr
              obtain ⟨t', hfirst', ht⟩ := ihb _ hfirst
              obtain ⟨rs', hrs', hforgetr⟩ := forall₂_hasType_forget ihbs hrs
              obtain ⟨u', hd', hut'⟩ := default_forget hdefault (fun _ => ihd) ht hd hut
              exact ⟨t', .case hnone' hsome' hcs' (Ty.Consistent.forget_all hcsc hforgetc hc)
                hfirst' hrs' (Ty.Consistent.forget_all hrst hforgetr ht) hd' hut', ht⟩
  | each p a a' _ ih =>
      cases h with
      | each ha =>
          obtain ⟨t', ha', hforget⟩ := ih ha
          exact ⟨t', .each ha', hforget⟩

/-- Forgetting only brings in nodes that are there and do not refer to a row. -/
lemma Edited.forall_mem_preorder_forget {P : Expr → Prop} (hplain : ∀ n : Expr, n.IsPlain → P n)
    (h : e.Edited .forget e') (he : ∀ n ∈ e.preorder, P n) : ∀ n ∈ e'.preorder, P n := by
  induction e using induct_children generalizing e' with
  | _ e ih =>
    obtain ⟨p, n, rfl⟩ | rfl | ⟨-, hroot, hparts⟩ := h.step
    · exact List.forall_mem_singleton.mpr (hplain _ ⟨rfl, rfl⟩)
    · exact he
    · rw [preorder_eq, List.forall_mem_cons, List.forall_mem_flatMap] at he ⊢
      exact ⟨hplain e' hroot, forall_mem_of_forall₂ hparts fun c hc _ hcc' =>
        ih c hc hcc' (he.2 c hc)⟩

lemma IsPlain.columnRef?_eq_none {n : Expr} (h : n.IsPlain) : n.columnRef? = none := by
  cases n with
  | column => cases h.2
  | _ => rfl

/-- Forgetting adds no column access. -/
lemma mem_columnRefs_of_forget (h : e.Edited .forget e') :
    ∀ r ∈ e'.columnRefs, r ∈ e.columnRefs := by
  have hnode : ∀ n ∈ e'.preorder, ∀ r, n.columnRef? = some r → r ∈ e.columnRefs := by
    refine h.forall_mem_preorder_forget (fun n hn r hr => ?_) fun n hn r hr => ?_
    · rw [hn.columnRef?_eq_none] at hr
      cases hr
    · exact List.mem_filterMap.mpr ⟨n, hn, hr⟩
  intro r hr
  obtain ⟨n, hn, hr⟩ := List.mem_filterMap.mp hr
  exact hnode n hn r hr

/-- Forgetting adds no node that refers to a row, and leaves nothing empty. -/
lemma checkStandalone_forget (h : e.Edited .forget e') (he : e.checkStandalone = pure ()) :
    e'.checkStandalone = pure () := by
  rw [checkStandalone_eq_pure_iff, Complete, ← forall₂_and] at he ⊢
  exact h.forall_mem_preorder_forget (fun n hn => hn) he

end Expr

/-! ### Programs that say less -/

variable {R : String → Option Signature}

/-- Values keep a type, conditions one that can be a truth value, and sort keys a proper form. -/
lemma Clauses.WellTyped.forget {c c' : Clauses} (hR : Unambiguous R) (h : c.WellTyped R)
    (hedit : c.Edited .forget c') : c'.WellTyped R where
  values := forall_mem_of_forall₂ hedit.values fun e he _ hee' => by
    obtain ⟨t, ht⟩ := h.values e he
    obtain ⟨t', ht', -⟩ := ht.forget hR hee'
    exact ⟨t', ht'⟩
  conditions := forall_mem_of_forall₂ hedit.conditions fun e he _ hee' => by
    obtain ⟨t, ht, htrue⟩ := h.conditions e he
    obtain ⟨t', ht', rfl | rfl⟩ := ht.forget hR hee'
    · exact ⟨t', ht', htrue⟩
    · exact ⟨.unknown, ht', Or.inr rfl⟩
  order := forall_mem_of_forall₂ hedit.order fun k hk _ hkk' =>
    hkk'.value.isSortable_forget (h.order k hk)

namespace Plan

variable {p p' : Plan}

/-- Forgetting leaves the operators of a plan in place and edits their clauses. -/
lemma Edited.operators_forget (h : p.Edited .forget p') :
    List.Forall₂ (fun o o' => o'.isHole = o.isHole ∧ o'.table? = o.table? ∧
      o.clauses.Edited .forget o'.clauses) p.operators p'.operators := by
  induction h with
  | here h => exact h.elim
  | same p => exact List.forall₂_same.mpr fun o _ => ⟨rfl, rfl, .refl o.clauses⟩
  | project _ hes ih => exact .cons ⟨rfl, rfl, hes, .nil, .nil⟩ ih
  | filter _ hcs ih => exact .cons ⟨rfl, rfl, .nil, hcs, .nil⟩ ih
  | groupBy _ hgs hhs ih => exact .cons ⟨rfl, rfl, hgs, hhs, .nil⟩ ih
  | join _ _ hcs ihl ihr => exact .cons ⟨rfl, rfl, .nil, hcs, .nil⟩ (List.rel_append ihl ihr)
  | sort _ hks ih => exact .cons ⟨rfl, rfl, .nil, .nil, hks⟩ ih

/-- Forgetting does not touch the tables of a plan. -/
lemma tables_forget (h : p.Edited .forget p') : p'.tables = p.tables := by
  have hoperators := h.operators_forget
  rw [tables, tables]
  generalize p.operators = os, p'.operators = os' at hoperators ⊢
  induction hoperators with
  | nil => rfl
  | cons ho _ ih => rw [List.filterMap_cons, List.filterMap_cons, ho.2.1, ih]

lemma mem_columnRefs_of_forget (h : p.Edited .forget p') :
    ∀ r ∈ p'.columnRefs, r ∈ p.columnRefs := by
  rw [columnRefs, List.forall_mem_flatMap]
  refine forall_mem_of_forall₂ h.operators_forget fun o ho _ hoo' => ?_
  rw [List.forall_mem_flatMap, exprs_eq]
  refine forall_mem_of_forall₂ hoo'.2.2.exprs fun e he _ hee' r hr => ?_
  refine List.mem_flatMap.mpr ⟨o, ho, List.mem_flatMap.mpr ⟨e, ?_, ?_⟩⟩
  · rwa [exprs_eq]
  · exact Expr.mem_columnRefs_of_forget hee' r hr

/-- A plan stays well-formed if less is known about its expressions. -/
lemma WellFormed.forget (hR : Unambiguous R) (h : p.WellFormed R) (hedit : p.Edited .forget p') :
    p'.WellFormed R where
  clauses := forall_mem_of_forall₂ hedit.operators_forget fun o ho _ hoo' =>
    (h.clauses o ho).forget hR hoo'.2.2
  aliases := tables_forget hedit ▸ h.aliases
  names := tables_forget hedit ▸ h.names
  columns r hr := tables_forget hedit ▸ h.columns r (mem_columnRefs_of_forget hedit r hr)

lemma check_forget {Γ : Env} (hΓ : Unambiguous Γ.lookup) (hedit : p.Edited .forget p')
    (h : p.check Γ = pure ()) : p'.check Γ = pure () := by
  rw [check_eq_pure_iff] at h ⊢
  exact ⟨forall_mem_of_forall₂ hedit.operators_forget fun o ho _ hoo' => hoo'.1.trans (h.1 o ho),
    h.2.forget hΓ hedit⟩

end Plan

/-- A statement is still accepted if less is known about its expressions. -/
lemma Statement.check_forget {Γ : Env} {s s' : Statement} (hΓ : Unambiguous Γ.lookup)
    (hedit : s.Edited .forget s') (h : s.check Γ = pure ()) : s'.check Γ = pure () := by
  have hs := (check_iff stepwise_eq_pure).mp h
  obtain ⟨hquery, hplans⟩ := hedit.plans hs.query
  refine (check_iff stepwise_eq_pure).mpr ⟨hquery, ?_, ?_, ?_, ?_⟩
  · exact forall_mem_of_forall₂ hplans fun p hp _ hpp' => Plan.check_forget hΓ hpp' (hs.plans p hp)
  · rw [Clauses.pass_eq_pure_iff]
    exact (Clauses.pass_eq_pure_iff.mp hs.clauses).forget hΓ hedit.clauses
  · have hcolumns := columnFindings_eq_nil_iff.mp (reportAll_eq_pure_iff.mp hs.columns)
    rw [reportAll_eq_pure_iff, columnFindings_eq_nil_iff, hedit.target?_eq]
    intro t ht
    refine forall_mem_of_forall₂ hedit.clauses.exprs fun e he _ hee' r hr => ?_
    exact hcolumns t ht e he r (Expr.mem_columnRefs_of_forget hee' r hr)
  · exact forall_mem_of_forall₂ hedit.standaloneExprs fun e he _ hee' =>
      Expr.checkStandalone_forget hee' (hs.standalone e he)

namespace Program

/-- **To know less is never wrong**: if the analysis finds nothing in a program, then it finds
nothing after any expressions of the program, at any depth, are replaced by plain names. -/
theorem analyze_eq_nil_of_forget {P P' : Program} (hedit : P.Edited .forget P')
    (h : P.analyze = some []) : P'.analyze = some [] := by
  rw [analyze_eq_nil_iff_diagnose, diagnose, check, forM_eq_pure_iff] at h ⊢
  have hΓ : Unambiguous (P.env (some .builtins)).lookup := by
    rw [lookup_env]
    exact P.unambiguous_resolve
  rw [hedit.env_eq]
  refine forall_mem_of_forall₂ hedit fun s hs _ hss' => ?_
  cases hss' with
  | none => exact h none hs
  | some hedit => exact Statement.check_forget hΓ hedit (h _ hs)

/-- A grouping of trades, a change of their prices and a new trade, given three expressions of them:
one inside of a call, one inside of a case and one to sort by. -/
def closingPrices (size price key : Expr) : Program :=
  [some (.query ⟨[], .groupBy (.scan ⟨"trades", none, ⟨1, 1⟩⟩)
      [.call ⟨2, 1⟩ "abs" [size]]
      [.binary ⟨3, 1⟩ .greater (.call ⟨3, 2⟩ "count" [.wildcard ⟨3, 3⟩]) size]⟩),
    some (.update ⟨"trades",
      [⟨"price", .case ⟨4, 1⟩ .hole
        [⟨.literal ⟨4, 2⟩ .boolean "true", .index ⟨4, 3⟩ (.column ⟨4, 4⟩ "trades" "bids") price⟩]
        (.unary ⟨4, 5⟩ .negate price)⟩],
      [⟨key, true⟩], [], [], []⟩),
    some (.insert ⟨"trades", [], [],
      .values [.unary ⟨5, 1⟩ .negate (.literal ⟨5, 2⟩ .float "0.5")]⟩)]

/-- Nothing is found, neither with a row number, an integer and a column in the three places, nor
with plain names. -/
theorem closingPrices_forget :
    (closingPrices (.rowId ⟨6, 1⟩) (.literal ⟨6, 2⟩ .integer "1")
      (.column ⟨6, 3⟩ "trades" "day")).analyze = some [] ∧
    (closingPrices (.ident ⟨7, 1⟩ "x") (.ident ⟨7, 2⟩ "y") (.ident ⟨7, 3⟩ "z")).analyze =
      some [] := by
  have h : (closingPrices (.rowId ⟨6, 1⟩) (.literal ⟨6, 2⟩ .integer "1")
      (.column ⟨6, 3⟩ "trades" "day")).analyze = some [] := by decide
  refine ⟨h, analyze_eq_nil_of_forget (.cons (.some (.query ⟨.nil, ?_⟩)) (.cons (.some (.update ?_))
    (.cons (.some (.insert ?_)) .nil))) h⟩
  · have hx : Expr.Edited .forget (.rowId ⟨6, 1⟩) (.ident ⟨7, 1⟩ "x") := .here ⟨_, _, rfl⟩
    exact .groupBy (.same _) (.cons (.call (.cons hx .nil)) .nil)
      (.cons (.binary (.same _) hx) .nil)
  · have hy : Expr.Edited .forget (.literal ⟨6, 2⟩ .integer "1") (.ident ⟨7, 2⟩ "y") :=
      .here ⟨_, _, rfl⟩
    refine ⟨rfl, .cons ⟨rfl, ?_⟩ .nil, .cons ⟨.here ⟨_, _, rfl⟩, rfl⟩ .nil, .nil, .nil, .nil⟩
    exact .case rfl (.same _) (.cons (.same _) .nil) (.cons (.index (.same _) hy) .nil) rfl
      (.unary hy)
  · exact ⟨rfl, .nil, rfl, .values (.cons (.same _) .nil)⟩

end Program

end QueryAnalysis
