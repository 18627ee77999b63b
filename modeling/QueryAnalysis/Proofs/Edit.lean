import QueryAnalysis.Proofs.Clauses
import QueryAnalysis.Proofs.RelatedLists

/-!
Edited trees. An edit says which subtrees may be put in place of which others, and a tree is edited
by doing so at any number of places and depths, while everything around them stays as it is.

* `Edit`: the replacements that are allowed.
* `Expr.Edited`, `Plan.Edited`, `Query.Edited`, `Statement.Edited`, `Program.Edited`: one tree comes
  from another by an edit. What an optional part of a case is replaced by is there if the part was
  there.
* `Expr.Edited.induct`: induction along an edit of an expression.
* `Clauses.Edited`, with `Statement.Edited.clauses`: an edit of a statement as one of its clauses.
-/

namespace QueryAnalysis

/-- Which subtrees may be put in place of which others. A query can only be put where one is
missing. -/
structure Edit where
  expr : Expr → Expr → Prop
  plan : Plan → Plan → Prop
  query : Query → Prop

variable {ε : Edit}

/-! ### Expressions -/

namespace Expr

/-- The second expression comes from the first one by an edit. -/
inductive Edited (ε : Edit) : Expr → Expr → Prop
  | here {e e' : Expr} (h : ε.expr e e') : Edited ε e e'
  | same (e : Expr) : Edited ε e e
  | unary {p : Pos} {op : UnaryOp} {a a' : Expr} (ha : Edited ε a a') :
      Edited ε (.unary p op a) (.unary p op a')
  | binary {p : Pos} {op : BinaryOp} {l l' r r' : Expr} (hl : Edited ε l l') (hr : Edited ε r r') :
      Edited ε (.binary p op l r) (.binary p op l' r')
  | call {p : Pos} {f : String} {args args' : List Expr}
      (hargs : List.Forall₂ (Edited ε) args args') : Edited ε (.call p f args) (.call p f args')
  | index {p : Pos} {a a' i i' : Expr} (ha : Edited ε a a') (hi : Edited ε i i') :
      Edited ε (.index p a i) (.index p a' i')
  -- an optional part that is not given stays that way
  | case {p : Pos} {s s' d d' : Expr} {bs bs' : List (Branch Expr)}
      (hsubject : s'.isHole = s.isHole) (hs : Edited ε s s')
      (hconditions : List.Forall₂ (Edited ε) (bs.map Branch.condition) (bs'.map Branch.condition))
      (hresults : List.Forall₂ (Edited ε) (bs.map Branch.result) (bs'.map Branch.result))
      (hdefault : d'.isHole = d.isHole) (hd : Edited ε d d') :
      Edited ε (.case p s bs d) (.case p s' bs' d')
  | each {p : Pos} {a a' : Expr} (ha : Edited ε a a') : Edited ε (.each p a) (.each p a')

/-- Induction along an edit: a property of the expression before and after passes from the parts of
a node to the node. -/
@[elab_as_elim]
theorem Edited.induct {motive : ∀ e e' : Expr, e.Edited ε e' → Prop}
    (here : ∀ e e' (h : ε.expr e e'), motive e e' (.here h))
    (same : ∀ e, motive e e (.same e))
    (unary : ∀ p op a a' (ha : Edited ε a a'), motive a a' ha →
      motive (.unary p op a) (.unary p op a') (.unary ha))
    (binary : ∀ p op l l' r r' (hl : Edited ε l l') (hr : Edited ε r r'), motive l l' hl →
      motive r r' hr → motive (.binary p op l r) (.binary p op l' r') (.binary hl hr))
    (call : ∀ p f args args' (hargs : List.Forall₂ (Edited ε) args args'),
      List.Forall₂ (fun a a' => ∃ h : a.Edited ε a', motive a a' h) args args' →
      motive (.call p f args) (.call p f args') (.call hargs))
    (index : ∀ p a a' i i' (ha : Edited ε a a') (hi : Edited ε i i'), motive a a' ha →
      motive i i' hi → motive (.index p a i) (.index p a' i') (.index ha hi))
    (case : ∀ p s s' d d' bs bs' (hsubject : s'.isHole = s.isHole) (hs : Edited ε s s')
      (hconditions : List.Forall₂ (Edited ε) (bs.map Branch.condition) (bs'.map Branch.condition))
      (hresults : List.Forall₂ (Edited ε) (bs.map Branch.result) (bs'.map Branch.result))
      (hdefault : d'.isHole = d.isHole) (hd : Edited ε d d'), motive s s' hs →
      List.Forall₂ (fun a a' => ∃ h : a.Edited ε a', motive a a' h) (bs.map Branch.condition)
        (bs'.map Branch.condition) →
      List.Forall₂ (fun a a' => ∃ h : a.Edited ε a', motive a a' h) (bs.map Branch.result)
        (bs'.map Branch.result) →
      motive d d' hd → motive (.case p s bs d) (.case p s' bs' d')
        (.case hsubject hs hconditions hresults hdefault hd))
    (each : ∀ p a a' (ha : Edited ε a a'), motive a a' ha →
      motive (.each p a) (.each p a') (.each ha))
    {e e' : Expr} (h : e.Edited ε e') : motive e e' h :=
  @Edited.rec ε motive
    (fun as as' _ => List.Forall₂ (fun a a' : Expr => ∃ h : a.Edited ε a', motive a a' h) as as')
    (fun h => here _ _ h) same
    (fun ha iha => unary _ _ _ _ ha iha)
    (fun hl hr ihl ihr => binary _ _ _ _ _ _ hl hr ihl ihr)
    (fun hargs ih => call _ _ _ _ hargs ih)
    (fun ha hi iha ihi => index _ _ _ _ _ ha hi iha ihi)
    (fun hsubject hs hconditions hresults hdefault hd ihs ihc ihr ihd =>
      case _ _ _ _ _ _ _ hsubject hs hconditions hresults hdefault hd ihs ihc ihr ihd)
    (fun ha iha => each _ _ _ ha iha)
    .nil (fun h _ ih ihs => .cons ⟨h, ih⟩ ihs) e e' h

/-- The node is there, and does not refer to a row itself. -/
def IsPlain (e : Expr) : Prop :=
  e.isHole = false ∧ e.needsRow = false

/-- A part that may be left out is edited if it is there, and left out if it is not. -/
lemma given_edited {e e' : Expr} (hgiven : e'.isHole = e.isHole) (h : e.Edited ε e') :
    List.Forall₂ (Edited ε) e.given e'.given := by
  rw [given, given, hgiven]
  split
  · exact .nil
  · exact .cons h .nil

/-- Edited conditions and edited results make edited branches. -/
lemma branches_edited {bs bs' : List (Branch Expr)}
    (hconditions : List.Forall₂ (Edited ε) (bs.map Branch.condition) (bs'.map Branch.condition))
    (hresults : List.Forall₂ (Edited ε) (bs.map Branch.result) (bs'.map Branch.result)) :
    List.Forall₂ (Edited ε) (bs.flatMap fun b => [b.condition, b.result])
      (bs'.flatMap fun b => [b.condition, b.result]) := by
  induction bs generalizing bs' with
  | nil =>
      cases bs' with
      | nil => exact .nil
      | cons => cases hconditions
  | cons b bs ih =>
      cases bs' with
      | nil => cases hconditions
      | cons b' bs' =>
          obtain _ | ⟨hc, hcs⟩ := hconditions
          obtain _ | ⟨hr, hrs⟩ := hresults
          exact .cons hc (.cons hr (ih hcs hrs))

/-- An edit either replaces a node, or leaves it with all of its parts, or edits its parts. -/
lemma Edited.step {e e' : Expr} (h : e.Edited ε e') :
    ε.expr e e' ∨ e' = e ∨
      (e.IsPlain ∧ e'.IsPlain ∧ List.Forall₂ (Edited ε) e.children e'.children) := by
  cases h with
  | here h => exact Or.inl h
  | same => exact Or.inr (Or.inl rfl)
  | unary ha => exact Or.inr (Or.inr ⟨⟨rfl, rfl⟩, ⟨rfl, rfl⟩, .cons ha .nil⟩)
  | binary hl hr => exact Or.inr (Or.inr ⟨⟨rfl, rfl⟩, ⟨rfl, rfl⟩, .cons hl (.cons hr .nil)⟩)
  | call hargs => exact Or.inr (Or.inr ⟨⟨rfl, rfl⟩, ⟨rfl, rfl⟩, hargs⟩)
  | index ha hi => exact Or.inr (Or.inr ⟨⟨rfl, rfl⟩, ⟨rfl, rfl⟩, .cons ha (.cons hi .nil)⟩)
  | case hsubject hs hconditions hresults hdefault hd =>
      refine Or.inr (Or.inr ⟨⟨rfl, rfl⟩, ⟨rfl, rfl⟩, ?_⟩)
      exact List.rel_append (List.rel_append (given_edited hsubject hs)
        (branches_edited hconditions hresults)) (given_edited hdefault hd)
  | each ha => exact Or.inr (Or.inr ⟨⟨rfl, rfl⟩, ⟨rfl, rfl⟩, .cons ha .nil⟩)

end Expr

/-- An edit of a sort key is one of its value. -/
structure SortKey.Edited (ε : Edit) (k k' : SortKey) : Prop where
  value : k.value.Edited ε k'.value
  descending : k'.descending = k.descending

lemma SortKey.forall₂_value {ks ks' : List SortKey}
    (h : List.Forall₂ (SortKey.Edited ε) ks ks') :
    List.Forall₂ (Expr.Edited ε) (ks.map SortKey.value) (ks'.map SortKey.value) :=
  List.forall₂_map_left_iff.mpr (List.forall₂_map_right_iff.mpr (h.imp fun _ _ h => h.value))

/-- An edit of clauses is one of their expressions, place by place. -/
structure Clauses.Edited (ε : Edit) (c c' : Clauses) : Prop where
  values : List.Forall₂ (Expr.Edited ε) c.values c'.values
  conditions : List.Forall₂ (Expr.Edited ε) c.conditions c'.conditions
  order : List.Forall₂ (SortKey.Edited ε) c.order c'.order

/-- An edit may leave all of the clauses alone. -/
lemma Clauses.Edited.refl (c : Clauses) : c.Edited ε c :=
  ⟨List.forall₂_same.mpr fun e _ => .same e, List.forall₂_same.mpr fun e _ => .same e,
    List.forall₂_same.mpr fun k _ => ⟨.same k.value, rfl⟩⟩

/-- The expressions of edited clauses are edited place by place. -/
lemma Clauses.Edited.exprs {c c' : Clauses} (h : c.Edited ε c') :
    List.Forall₂ (Expr.Edited ε) c.exprs c'.exprs :=
  List.rel_append (List.rel_append h.values h.conditions) (SortKey.forall₂_value h.order)

/-! ### Plans and queries -/

/-- The second plan comes from the first one by an edit. -/
inductive Plan.Edited (ε : Edit) : Plan → Plan → Prop
  | here {p p' : Plan} (h : ε.plan p p') : Edited ε p p'
  | same (p : Plan) : Edited ε p p
  | project {p p' : Plan} {es es' : List Expr} (hp : Edited ε p p')
      (hes : List.Forall₂ (Expr.Edited ε) es es') : Edited ε (.project p es) (.project p' es')
  | filter {p p' : Plan} {cs cs' : List Expr} (hp : Edited ε p p')
      (hcs : List.Forall₂ (Expr.Edited ε) cs cs') : Edited ε (.filter p cs) (.filter p' cs')
  | groupBy {p p' : Plan} {gs gs' hs hs' : List Expr} (hp : Edited ε p p')
      (hgs : List.Forall₂ (Expr.Edited ε) gs gs') (hhs : List.Forall₂ (Expr.Edited ε) hs hs') :
      Edited ε (.groupBy p gs hs) (.groupBy p' gs' hs')
  | join {k : JoinKind} {l l' r r' : Plan} {cs cs' : List Expr} (hl : Edited ε l l')
      (hr : Edited ε r r') (hcs : List.Forall₂ (Expr.Edited ε) cs cs') :
      Edited ε (.join k l r cs) (.join k l' r' cs')
  | sort {p p' : Plan} {ks ks' : List SortKey} (hp : Edited ε p p')
      (hks : List.Forall₂ (SortKey.Edited ε) ks ks') : Edited ε (.sort p ks) (.sort p' ks')

/-- An edit of a local query is one of its plan. -/
structure LocalQuery.Edited (ε : Edit) (l l' : LocalQuery) : Prop where
  name : l'.name = l.name
  columns : l'.columns = l.columns
  plan : l.plan.Edited ε l'.plan

/-- An edit of a query is one of its plans. -/
structure Query.Edited (ε : Edit) (q q' : Query) : Prop where
  locals : List.Forall₂ (LocalQuery.Edited ε) q.locals q'.locals
  main : q.main.Edited ε q'.main

/-- An edit at the place of a query, which may be missing. -/
inductive Query.EditedSlot (ε : Edit) : Option Query → Option Query → Prop
  | missing : EditedSlot ε none none
  | supplied {q : Query} (h : ε.query q) : EditedSlot ε none (some q)
  | edited {q q' : Query} (h : q.Edited ε q') : EditedSlot ε (some q) (some q')

/-! ### Statements and programs -/

/-- An edit of an assignment is one of its value. -/
structure Assignment.Edited (ε : Edit) (a a' : Assignment) : Prop where
  column : a'.column = a.column
  value : a.value.Edited ε a'.value

/-- An edit of an update is one of its expressions, clause by clause. -/
structure Update.Edited (ε : Edit) (u u' : Update) : Prop where
  table : u'.table = u.table
  assignments : List.Forall₂ (Assignment.Edited ε) u.assignments u'.assignments
  order : List.Forall₂ (SortKey.Edited ε) u.order u'.order
  conditions : List.Forall₂ (Expr.Edited ε) u.conditions u'.conditions
  groupBy : List.Forall₂ (Expr.Edited ε) u.groupBy u'.groupBy
  having : List.Forall₂ (Expr.Edited ε) u.having u'.having

/-- An edit of a removal is one of its conditions. Columns to remove stay as they are. -/
inductive Removal.Edited (ε : Edit) : Removal → Removal → Prop
  | columns (ns : List String) : Edited ε (.columns ns) (.columns ns)
  | rows {cs cs' : List Expr} (h : List.Forall₂ (Expr.Edited ε) cs cs') :
      Edited ε (.rows cs) (.rows cs')

/-- An edit of a deletion is one of its expressions, clause by clause. -/
structure Delete.Edited (ε : Edit) (d d' : Delete) : Prop where
  table : d'.table = d.table
  target : d.target.Edited ε d'.target
  order : List.Forall₂ (SortKey.Edited ε) d.order d'.order
  groupBy : List.Forall₂ (Expr.Edited ε) d.groupBy d'.groupBy
  having : List.Forall₂ (Expr.Edited ε) d.having d'.having

/-- An edit of the content of a table is one of its query. A schema stays as it is. -/
inductive TableContent.Edited (ε : Edit) : TableContent → TableContent → Prop
  | schema (cs : List ColumnDef) : Edited ε (.schema cs) (.schema cs)
  | query {q q' : Option Query} (h : Query.EditedSlot ε q q') : Edited ε (.query q) (.query q')

/-- An edit of a table creation is one of its content. -/
structure Create.Edited (ε : Edit) (c c' : Create) : Prop where
  name : c'.name = c.name
  content : c.content.Edited ε c'.content

/-- An edit of a source of rows is one of its values or of its query. -/
inductive RowSource.Edited (ε : Edit) : RowSource → RowSource → Prop
  | values {vs vs' : List Expr} (h : List.Forall₂ (Expr.Edited ε) vs vs') :
      Edited ε (.values vs) (.values vs')
  | query {q q' : Option Query} (h : Query.EditedSlot ε q q') : Edited ε (.query q) (.query q')

/-- An edit of an insertion is one of its rows and of its sort keys. -/
structure Insert.Edited (ε : Edit) (i i' : Insert) : Prop where
  table : i'.table = i.table
  order : List.Forall₂ (SortKey.Edited ε) i.order i'.order
  columns : i'.columns = i.columns
  source : i.source.Edited ε i'.source

/-- An edit of a step is one of its value. -/
structure Step.Edited (ε : Edit) (s s' : Step) : Prop where
  target : s'.target = s.target
  value : s.value.Edited ε s'.value

/-- An edit of a function is one of its body. The signature stays as it is. -/
structure FunctionDef.Edited (ε : Edit) (f f' : FunctionDef) : Prop where
  name : f'.name = f.name
  params : f'.params = f.params
  body : List.Forall₂ (Step.Edited ε) f.body f'.body

/-- The second statement comes from the first one by an edit of its expressions and plans. -/
inductive Statement.Edited (ε : Edit) : Statement → Statement → Prop
  | query {q q' : Query} (h : q.Edited ε q') : Edited ε (.query q) (.query q')
  | update {u u' : Update} (h : u.Edited ε u') : Edited ε (.update u) (.update u')
  | delete {d d' : Delete} (h : d.Edited ε d') : Edited ε (.delete d) (.delete d')
  | create {c c' : Create} (h : c.Edited ε c') : Edited ε (.create c) (.create c')
  | insert {i i' : Insert} (h : i.Edited ε i') : Edited ε (.insert i) (.insert i')
  | function {f f' : FunctionDef} (h : f.Edited ε f') : Edited ε (.function f) (.function f')
  | verbatim (code : String) : Edited ε (.verbatim code) (.verbatim code)

/-- The second program comes from the first one by an edit, statement by statement. A missing
statement stays missing. -/
def Program.Edited (ε : Edit) (P P' : Program) : Prop :=
  List.Forall₂ (Option.Rel (Statement.Edited ε)) P P'

/-! ### Edited statements by their parts -/

/-- The plans of an edited query are edited one by one. -/
lemma Query.Edited.plans {q q' : Query} (h : q.Edited ε q') :
    List.Forall₂ (Plan.Edited ε) q.plans q'.plans := by
  refine List.rel_append ?_ (.cons h.main .nil)
  rw [List.forall₂_map_left_iff, List.forall₂_map_right_iff]
  exact h.locals.imp fun _ _ h => h.plan

/-- An edit leaves a query that is there in its place. -/
lemma Query.EditedSlot.plans {q q' : Option Query} (h : Query.EditedSlot ε q q')
    (hq : q.isSome = true) :
    q'.isSome = true ∧ List.Forall₂ (Plan.Edited ε) (q.elim [] plans) (q'.elim [] plans) := by
  cases h with
  | missing => cases hq
  | supplied => cases hq
  | edited h => exact ⟨rfl, h.plans⟩

lemma Update.Edited.values {u u' : Update} (h : u.Edited ε u') :
    List.Forall₂ (Expr.Edited ε) (u.assignments.map Assignment.value)
      (u'.assignments.map Assignment.value) :=
  List.forall₂_map_left_iff.mpr (List.forall₂_map_right_iff.mpr
    (h.assignments.imp fun _ _ h => h.value))

/-- The expressions of an edited update are edited place by place. -/
lemma Update.Edited.exprs {u u' : Update} (h : u.Edited ε u') :
    List.Forall₂ (Expr.Edited ε) u.exprs u'.exprs :=
  List.rel_append (List.rel_append (List.rel_append (List.rel_append h.values
    (SortKey.forall₂_value h.order)) h.conditions) h.groupBy) h.having

/-- Only the removal of rows has conditions to edit. -/
lemma Delete.Edited.conditions {d d' : Delete} (h : d.Edited ε d') :
    List.Forall₂ (Expr.Edited ε) d.conditions d'.conditions := by
  obtain ⟨table, target, order, groupBy, having⟩ := d
  obtain ⟨table', target', order', groupBy', having'⟩ := d'
  cases h.target with
  | columns => exact .nil
  | rows hcs => exact hcs

lemma Delete.Edited.exprs {d d' : Delete} (h : d.Edited ε d') :
    List.Forall₂ (Expr.Edited ε) d.exprs d'.exprs :=
  List.rel_append (List.rel_append (List.rel_append h.conditions
    (SortKey.forall₂_value h.order)) h.groupBy) h.having

lemma FunctionDef.Edited.values {f f' : FunctionDef} (h : f.Edited ε f') :
    List.Forall₂ (Expr.Edited ε) (f.body.map Step.value) (f'.body.map Step.value) :=
  List.forall₂_map_left_iff.mpr (List.forall₂_map_right_iff.mpr (h.body.imp fun _ _ h => h.value))

namespace Statement.Edited

variable {s s' : Statement}

/-- An edit does not touch the table that a statement changes. -/
lemma target?_eq (h : s.Edited ε s') : s'.target? = s.target? := by
  cases h with
  | update h => exact congrArg some h.table
  | delete h => exact congrArg some h.table
  | _ => rfl

/-- A query that a statement needs is not lost in an edit, and its plans are edited one by one. -/
lemma plans (h : s.Edited ε s') (hs : s.QueryGiven) :
    s'.QueryGiven ∧ List.Forall₂ (Plan.Edited ε) s.plans s'.plans := by
  cases h with
  | query h => exact ⟨rfl, h.plans⟩
  | @create c c' h =>
      obtain ⟨name, content⟩ := c
      obtain ⟨name', content'⟩ := c'
      cases h.content with
      | schema => exact ⟨rfl, .nil⟩
      | query hq => exact hq.plans hs
  | @insert i i' h =>
      obtain ⟨table, order, columns, source⟩ := i
      obtain ⟨table', order', columns', source'⟩ := i'
      cases h.source with
      | values => exact ⟨rfl, .nil⟩
      | query hq => exact hq.plans hs
  | _ => exact ⟨rfl, .nil⟩

/-- The expressions that are evaluated without a row are edited one by one. -/
lemma standaloneExprs (h : s.Edited ε s') :
    List.Forall₂ (Expr.Edited ε) s.standaloneExprs s'.standaloneExprs := by
  cases h with
  | @insert i i' h =>
      obtain ⟨table, order, columns, source⟩ := i
      obtain ⟨table', order', columns', source'⟩ := i'
      cases h.source with
      | values hvs => exact hvs
      | query => exact .nil
  | function h => exact h.values
  | _ => exact .nil

/-- An edit of a statement edits its clauses. -/
lemma clauses (h : s.Edited ε s') : s.clauses.Edited ε s'.clauses := by
  have halone := h.standaloneExprs
  cases h with
  | update h =>
      exact ⟨List.rel_append h.values h.groupBy, List.rel_append h.conditions h.having, h.order⟩
  | delete h => exact ⟨h.groupBy, List.rel_append h.conditions h.having, h.order⟩
  | insert h => exact ⟨halone, .nil, h.order⟩
  | function h => exact ⟨halone, .nil, .nil⟩
  | _ => exact ⟨.nil, .nil, .nil⟩

end Statement.Edited

namespace Program.Edited

variable {P P' : Program}

/-- The functions of an edited program are the edited functions. -/
lemma functions (h : P.Edited ε P') :
    List.Forall₂ (FunctionDef.Edited ε) P.functions P'.functions := by
  rw [Program.functions, Program.functions]
  induction h with
  | nil => exact .nil
  | cons hs _ ih =>
      cases hs with
      | none => exact ih
      | some h =>
          cases h with
          | function hf => exact .cons hf ih
          | _ => exact ih

/-- An edit does not change what is known about the functions of a program. -/
lemma env_eq (h : P.Edited ε P') (parent : Option Env) : P'.env parent = P.env parent := by
  rw [env, env]
  have hfunctions := h.functions
  generalize P.functions = fs, P'.functions = fs', Env.fresh parent = Γ at hfunctions ⊢
  induction hfunctions generalizing Γ with
  | nil => rfl
  | cons hf _ ih => rw [List.foldl_cons, List.foldl_cons, hf.name, hf.params, ih]

end Program.Edited

end QueryAnalysis
