import QueryAnalysis.Plan.Analysis
import QueryAnalysis.Proofs.Complete

/-!
Traversals that take every part of a tree for granted. The tables, the expressions and the column
accesses of a plan are gathered, and expressions are written out, without a look at whether a part
is there. Here such a traversal is a function that has no value as soon as it comes to a missing
part, and the question is when it has one.

* `Expr.columnRefs?`, `Expr.text?`, `Plan.tables?`, `Plan.carried?`, `Plan.columnRefs?`: the
  traversals.
* `Expr.columnRefs?_eq_some_iff`, `Expr.text?_eq_some_iff`, `Plan.tables?_eq_some_iff`,
  `Plan.carried?_eq_some_iff`: a traversal has a value exactly if nothing is missing on its way, and
  then it is the one that the analysis uses.
-/

namespace QueryAnalysis

/-! ### Expressions -/

namespace Expr

mutual

/-- The column accesses in an expression. -/
def columnRefs? : Expr → Option (List ColumnRef)
  | hole => none
  | literal _ _ _ => some []
  | ident _ _ => some []
  | rowId _ => some []
  | wildcard _ => some []
  | column p t c => some [{ table := t, column := c, pos := p }]
  | unary _ _ a => columnRefs? a
  | binary _ _ l r => do
    let ls ← columnRefs? l
    let rs ← columnRefs? r
    some (ls ++ rs)
  | call _ _ args => columnRefsAll? args
  | index _ a i => do
    let as ← columnRefs? a
    let is ← columnRefs? i
    some (as ++ is)
  | case _ s bs d => do
    let ss ← (if s.isHole then some [] else columnRefs? s)
    let rs ← columnRefsBranches? bs
    let ds ← (if d.isHole then some [] else columnRefs? d)
    some (ss ++ rs ++ ds)
  | each _ a => columnRefs? a

/-- The column accesses in a list of expressions. -/
def columnRefsAll? : List Expr → Option (List ColumnRef)
  | [] => some []
  | e :: es => do
    let rs ← columnRefs? e
    let rest ← columnRefsAll? es
    some (rs ++ rest)

/-- The column accesses in the branches of a case. -/
def columnRefsBranches? : List (Branch Expr) → Option (List ColumnRef)
  | [] => some []
  | ⟨c, r⟩ :: bs => do
    let cs ← columnRefs? c
    let rs ← columnRefs? r
    let rest ← columnRefsBranches? bs
    some (cs ++ rs ++ rest)

end

mutual

/-- The expression as query text. -/
def text? : Expr → Option String
  | hole => none
  | literal _ k t => some (k.text t)
  | ident _ n => some n
  | rowId _ => some "ROWID"
  | wildcard _ => some "*"
  | column _ t c => some (Text.qualified t c)
  | unary _ op a => do
    let ta ← text? a
    some (op.text ++ a.enclose ta)
  | binary _ op l r => do
    let tl ← text? l
    let tr ← text? r
    some (l.enclose tl ++ " " ++ op.text ++ " " ++ r.enclose tr)
  | call _ f args => do
    let ts ← texts? args
    some (f ++ "(" ++ ", ".intercalate ts ++ ")")
  | index _ a i => do
    let ta ← text? a
    let ti ← text? i
    some (a.enclose ta ++ "[" ++ ti ++ "]")
  | case _ s bs d => do
    let ts ← (if s.isHole then some "" else (text? s).map fun t => " " ++ s.enclose t)
    let tb ← branchText? bs
    let td ← (if d.isHole then some "" else (text? d).map fun t => " ELSE " ++ t)
    some ("CASE" ++ ts ++ tb ++ td ++ " END")
  | each _ a => do
    let ta ← text? a
    some ("EACH(" ++ ta ++ ")")

/-- The texts of a list of expressions. -/
def texts? : List Expr → Option (List String)
  | [] => some []
  | e :: es => do
    let t ← text? e
    let ts ← texts? es
    some (t :: ts)

/-- The text of the branches of a case. -/
def branchText? : List (Branch Expr) → Option String
  | [] => some ""
  | ⟨c, r⟩ :: bs => do
    let tc ← text? c
    let tr ← text? r
    let tb ← branchText? bs
    some (" WHEN " ++ tc ++ " THEN " ++ tr ++ tb)

end

/-! ### When they have a value -/

/-- The accesses of an expression are its own one, if it is an access, and those of its parts. -/
lemma columnRefs_eq (e : Expr) :
    e.columnRefs = e.columnRef?.toList ++ e.children.flatMap columnRefs := by
  rw [columnRefs, preorder_eq, List.filterMap_cons, List.filterMap_flatMap]
  cases e.columnRef? <;> rfl

lemma columnRefsAll?_append (es es' : List Expr) :
    columnRefsAll? (es ++ es') =
      (columnRefsAll? es).bind fun rs => (columnRefsAll? es').bind fun rs' => some (rs ++ rs') := by
  induction es with
  | nil => simp [columnRefsAll?]
  | cons e es ih =>
      rw [List.cons_append, columnRefsAll?, columnRefsAll?, ih]
      cases columnRefs? e with
      | none => rfl
      | some rs => cases columnRefsAll? es <;> cases columnRefsAll? es' <;> simp

lemma columnRefsAll?_given (e : Expr) :
    columnRefsAll? e.given = if e.isHole then some [] else e.columnRefs? := by
  cases he : e.isHole with
  | true => simp [given, he, columnRefsAll?]
  | false => cases h : e.columnRefs? <;> simp [given, he, columnRefsAll?, h]

/-- The traversal of branches is that of their conditions and results in turn. -/
lemma columnRefsBranches?_eq (bs : List (Branch Expr)) :
    columnRefsBranches? bs = columnRefsAll? (bs.flatMap fun b => [b.condition, b.result]) := by
  induction bs with
  | nil => rfl
  | cons b bs ih =>
      rw [columnRefsBranches?, ih, List.flatMap_cons, columnRefsAll?_append]
      cases hc : columnRefs? b.condition <;> cases hr : columnRefs? b.result <;>
        simp [columnRefsAll?, hc, hr]

/-- The traversal of a node that is there goes through its parts, one after the other. -/
lemma columnRefs?_step {e : Expr} (h : e.isHole = false) :
    e.columnRefs? =
      (columnRefsAll? e.children).bind fun rs => some (e.columnRef?.toList ++ rs) := by
  cases e with
  | hole => cases h
  | case p s bs d =>
      simp only [columnRefs?, children, columnRefsAll?_append, columnRefsAll?_given,
        columnRefsBranches?_eq, columnRef?]
      simp [Option.bind_assoc]
  | _ =>
      simp [columnRefs?, children, columnRefsAll?, columnRef?]

lemma columnRefsAll?_eq_some_of_forall {es : List Expr} {rs : List ColumnRef}
    (h : ∀ e ∈ es, ∀ rs, e.columnRefs? = some rs ↔ e.Complete ∧ e.columnRefs = rs) :
    columnRefsAll? es = some rs ↔ (∀ e ∈ es, e.Complete) ∧ es.flatMap columnRefs = rs := by
  induction es generalizing rs with
  | nil => simp [columnRefsAll?]
  | cons e es ih =>
      obtain ⟨he, hes⟩ := List.forall_mem_cons.mp h
      simp [columnRefsAll?, Option.bind_eq_some_iff, he, ih hes, and_assoc]

/-- The accesses of an expression can be gathered if nothing is missing in it. -/
lemma columnRefs?_eq_some_iff {e : Expr} {rs : List ColumnRef} :
    e.columnRefs? = some rs ↔ e.Complete ∧ e.columnRefs = rs := by
  induction e using induct_children generalizing rs with
  | _ e ih =>
    rw [complete_iff, columnRefs_eq]
    cases he : e.isHole with
    | true =>
        rw [eq_hole_of_isHole he, columnRefs?]
        simp
    | false =>
        rw [columnRefs?_step he, Option.bind_eq_some_iff]
        simp [columnRefsAll?_eq_some_of_forall fun c hc rs => ih c hc, and_assoc]

/-- The column accesses of a list of expressions can be gathered if nothing is missing in them. -/
lemma columnRefsAll?_eq_some_iff {es : List Expr} {rs : List ColumnRef} :
    columnRefsAll? es = some rs ↔ (∀ e ∈ es, e.Complete) ∧ es.flatMap columnRefs = rs :=
  columnRefsAll?_eq_some_of_forall fun _ _ _ => columnRefs?_eq_some_iff

lemma texts?_eq_some_of_forall {es : List Expr} {ts : List String}
    (h : ∀ e ∈ es, ∀ t, e.text? = some t ↔ e.Complete ∧ e.text = t) :
    texts? es = some ts ↔ (∀ e ∈ es, e.Complete) ∧ es.map text = ts := by
  induction es generalizing ts with
  | nil => simp [texts?]
  | cons e es ih =>
      obtain ⟨he, hes⟩ := List.forall_mem_cons.mp h
      simp [texts?, Option.bind_eq_some_iff, he, ih hes, and_assoc]

lemma branchText?_eq_some_of_forall {bs : List (Branch Expr)} {t : String}
    (h : ∀ b ∈ bs, (∀ t, b.condition.text? = some t ↔ b.condition.Complete ∧ b.condition.text = t) ∧
      ∀ t, b.result.text? = some t ↔ b.result.Complete ∧ b.result.text = t) :
    branchText? bs = some t ↔
      (∀ b ∈ bs, b.condition.Complete ∧ b.result.Complete) ∧ branchText bs = t := by
  induction bs generalizing t with
  | nil => simp [branchText?, branchText]
  | cons b bs ih =>
      obtain ⟨⟨hc, hr⟩, hbs⟩ := List.forall_mem_cons.mp h
      simp [branchText?, branchText, Option.bind_eq_some_iff, hc, hr, ih hbs, and_assoc]

/-- What stands in an optional place is only written out if it is given. -/
lemma text?_given {e : Expr} {g : String → String} {t : String}
    (h : ∀ t, e.text? = some t ↔ e.Complete ∧ e.text = t) :
    (if e.isHole then some "" else e.text?.map g) = some t ↔
      (∀ c ∈ e.given, c.Complete) ∧ (if e.isHole then "" else g e.text) = t := by
  cases he : e.isHole <;> simp [given, he, h, and_assoc]

/-- An expression can be written out if nothing is missing in it. -/
lemma text?_eq_some_iff {e : Expr} {t : String} :
    e.text? = some t ↔ e.Complete ∧ e.text = t := by
  induction e generalizing t with
  | hole =>
      rw [complete_iff]
      simp [text?, isHole]
  | unary p op a ha =>
      rw [complete_iff]
      simp [text?, text, Option.bind_eq_some_iff, ha, children, isHole]
  | binary p op l r hl hr =>
      rw [complete_iff]
      simp [text?, text, Option.bind_eq_some_iff, hl, hr, children, isHole, and_assoc]
  | call p f args hargs =>
      have htexts {ts : List String} :
          texts? args = some ts ↔ (∀ a ∈ args, a.Complete) ∧ args.map text = ts :=
        texts?_eq_some_of_forall fun a ha t => hargs a ha
      rw [complete_iff]
      simp [text?, text, Option.bind_eq_some_iff, children, isHole, htexts]
  | index p a i ha hi =>
      rw [complete_iff]
      simp [text?, text, Option.bind_eq_some_iff, ha, hi, children, isHole, and_assoc]
  | case p s bs d hs hbs hd =>
      have hbranches {t : String} : branchText? bs = some t ↔
          (∀ b ∈ bs, b.condition.Complete ∧ b.result.Complete) ∧ branchText bs = t :=
        branchText?_eq_some_of_forall fun b hb => ⟨fun t => (hbs b hb).1, fun t => (hbs b hb).2⟩
      rw [complete_iff]
      simp only [text?, Option.bind_eq_bind, Option.bind_eq_some_iff, text?_given fun t => hs,
        text?_given fun t => hd, hbranches, children, List.forall_mem_append,
        List.forall_mem_flatMap, List.forall_mem_cons]
      simp [text, and_assoc, show (case p s bs d).isHole = false from rfl]
  | each p a ha =>
      rw [complete_iff]
      simp [text?, text, Option.bind_eq_some_iff, ha, children, isHole]
  | _ =>
      rw [complete_iff]
      simp [text?, text, children, isHole]

end Expr

/-! ### Plans -/

namespace Plan

/-- The tables of a plan, from left to right. -/
def tables? : Plan → Option (List TableRef)
  | hole => none
  | scan t => some [t]
  | project p _ | filter p _ | groupBy p _ _ | sort p _ => tables? p
  | join _ l r _ => do
    let ls ← tables? l
    let rs ← tables? r
    some (ls ++ rs)

/-- The expressions that the operators of a plan carry, operator by operator. -/
def carried? : Plan → Option (List Expr)
  | hole => none
  | scan _ => some []
  | project p es => (carried? p).map (es ++ ·)
  | filter p cs => (carried? p).map (cs ++ ·)
  | groupBy p gs hs => (carried? p).map (gs ++ hs ++ ·)
  | join _ l r cs => do
    let ls ← carried? l
    let rs ← carried? r
    some (cs ++ ls ++ rs)
  | sort p ks => (carried? p).map (ks.map SortKey.value ++ ·)

/-- The column accesses in the expressions of a plan. -/
def columnRefs? (p : Plan) : Option (List ColumnRef) := do
  let es ← p.carried?
  Expr.columnRefsAll? es

/-- The tables of a plan can be gathered if no operator is missing. -/
lemma tables?_eq_some_iff {p : Plan} {ts : List TableRef} :
    p.tables? = some ts ↔ (∀ o ∈ p.operators, o.isHole = false) ∧ p.tables = ts := by
  induction p generalizing ts with
  | hole => simp [tables?, operators, isHole]
  | scan t => simp [tables?, tables, operators, isHole, table?]
  | join k l r cs hl hr =>
      simp [tables?, Option.bind_eq_some_iff, hl, hr, tables, operators, isHole, table?,
        List.filterMap_cons, or_imp, forall_and, and_assoc]
  | project p es ih | filter p cs ih | groupBy p gs hs ih | sort p ks ih =>
      simp [tables?, ih, tables, operators, isHole, table?, List.filterMap_cons]

/-- The expressions of a plan can be gathered if no operator is missing. -/
lemma carried?_eq_some_iff {p : Plan} {es : List Expr} :
    p.carried? = some es ↔
      (∀ o ∈ p.operators, o.isHole = false) ∧ p.operators.flatMap exprs = es := by
  induction p generalizing es with
  | hole => simp [carried?, operators, isHole]
  | scan t => simp [carried?, operators, isHole, exprs]
  | join k l r cs hl hr =>
      simp [carried?, Option.bind_eq_some_iff, hl, hr, operators, isHole, exprs, or_imp,
        forall_and, and_assoc]
  | project p es ih | filter p cs ih | groupBy p gs hs ih | sort p ks ih =>
      simp [carried?, ih, operators, isHole, exprs, and_assoc]

/-- The accesses of a plan can be gathered if nothing is missing in it. -/
lemma columnRefs?_eq_some_iff {p : Plan} {rs : List ColumnRef} :
    p.columnRefs? = some rs ↔ p.Complete ∧ p.columnRefs = rs := by
  have hcomplete : p.Complete ↔
      (∀ o ∈ p.operators, o.isHole = false) ∧ ∀ e ∈ p.operators.flatMap exprs, e.Complete := by
    simp only [Complete, Clauses.Complete, exprs_eq, List.forall_mem_flatMap, forall_and]
  rw [hcomplete, columnRefs, columnRefs?, Option.bind_eq_bind, Option.bind_eq_some_iff]
  simp only [carried?_eq_some_iff, Expr.columnRefsAll?_eq_some_iff]
  constructor
  · rintro ⟨es, ⟨hops, rfl⟩, hes, rfl⟩
    exact ⟨⟨hops, hes⟩, List.flatMap_assoc.symm⟩
  · rintro ⟨⟨hops, hes⟩, rfl⟩
    exact ⟨_, ⟨hops, rfl⟩, hes, List.flatMap_assoc⟩

end Plan

end QueryAnalysis
