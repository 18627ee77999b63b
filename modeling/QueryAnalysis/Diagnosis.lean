import QueryAnalysis.Diagnostic

/-!
The outcome of a check: the findings in the order in which they came up, and a value. There is no
value if a part that the check needs is missing from the tree. The check then stops at that part,
and what it found before stays.

* `Diagnosis`: the outcome. It is a monad; `diagnostics_bind` and `result_bind` say what a sequence
  of two checks finds and yields.
* `Diagnosis.report`, `Diagnosis.reportAll`: findings that do not stop the check.
* `Diagnosis.incomplete`: a missing part.
* `Diagnosis.expecting`: holds the type that a check yields to an expectation.
-/

namespace QueryAnalysis

/-- The outcome of a check: what it found, and what it yields unless the tree is incomplete. -/
structure Diagnosis (α : Type) where
  diagnostics : List Diagnostic
  result : Option α
deriving DecidableEq

namespace Diagnosis

variable {α β : Type}

/-- A required part of the tree is missing. -/
def incomplete : Diagnosis α := ⟨[], none⟩

/-- What is said of a tree with a missing part. -/
def incompleteMessage : String := "invalid AST"

/-- Records findings. -/
def reportAll (ds : List Diagnostic) : Diagnosis Unit := ⟨ds, some ()⟩

/-- Records one finding. -/
def report (d : Diagnostic) : Diagnosis Unit := reportAll [d]

instance : Monad Diagnosis where
  pure a := ⟨[], some a⟩
  bind x f :=
    match x.result with
    | none => ⟨x.diagnostics, none⟩
    | some a =>
      let y := f a
      ⟨x.diagnostics ++ y.diagnostics, y.result⟩

/-- The findings of a check that met no missing part. -/
def complete? (x : Diagnosis α) : Option (List Diagnostic) :=
  x.result.map fun _ => x.diagnostics

/-- Holds the type of what stands at position `p` to the expectation `S`. Only the preferred type is
named if it is not met. -/
def expecting (x : Diagnosis Ty) (S : Expectation) (p : Pos) : Diagnosis Unit := do
  let t ← x
  if S.Admits t then pure () else report (.typeMismatch S.primary t p)

/-! ### Findings and result of the basic steps -/

/-- Two outcomes are the same if they have the same findings and yield the same. -/
@[ext] theorem ext {x y : Diagnosis α} (hd : x.diagnostics = y.diagnostics)
    (hr : x.result = y.result) : x = y := by
  cases x; cases y; simp_all

@[simp] theorem diagnostics_pure (a : α) : (pure a : Diagnosis α).diagnostics = [] := rfl

@[simp] theorem result_pure (a : α) : (pure a : Diagnosis α).result = some a := rfl

@[simp] theorem diagnostics_incomplete : (incomplete : Diagnosis α).diagnostics = [] := rfl

@[simp] theorem result_incomplete : (incomplete : Diagnosis α).result = none := rfl

@[simp] theorem diagnostics_reportAll (ds : List Diagnostic) :
    (reportAll ds).diagnostics = ds := rfl

@[simp] theorem result_reportAll (ds : List Diagnostic) : (reportAll ds).result = some () := rfl

@[simp] theorem diagnostics_report (d : Diagnostic) : (report d).diagnostics = [d] := rfl

@[simp] theorem result_report (d : Diagnostic) : (report d).result = some () := rfl

/-- A sequence of two checks finds what the first one finds, and then, if that yields a value, what
the second one finds. -/
theorem diagnostics_bind (x : Diagnosis α) (f : α → Diagnosis β) :
    (x >>= f).diagnostics = x.diagnostics ++ (x.result.map fun a => (f a).diagnostics).getD [] := by
  cases h : x.result <;> simp [bind, h]

/-- A sequence of two checks yields a value if both do. -/
theorem result_bind (x : Diagnosis α) (f : α → Diagnosis β) :
    (x >>= f).result = x.result.bind fun a => (f a).result := by
  cases h : x.result <;> simp [bind, h]

instance : LawfulMonad Diagnosis :=
  LawfulMonad.mk' Diagnosis
    (fun x => by
      ext1
      · cases h : x.result <;> simp [Functor.map, h]
      · cases h : x.result <;> simp [Functor.map, h])
    (fun _ _ => by ext1 <;> simp [diagnostics_bind, result_bind])
    (fun x f g => by
      ext1
      · cases h : x.result <;> simp [diagnostics_bind, result_bind, h]
      · cases h : x.result <;> simp [result_bind, h])

/-! ### Sequences of checks -/

/-- Whether a type is as expected makes no difference for whether there is one. -/
@[simp] theorem result_expecting (x : Diagnosis Ty) (S : Expectation) (p : Pos) :
    (x.expecting S p).result = x.result.map fun _ => () := by
  rw [expecting, result_bind]
  cases x.result with
  | none => rfl
  | some t => by_cases h : S.Admits t <;> simp [h]

/-- Of a type that does not meet the expectation, one finding is added at the end. -/
theorem diagnostics_expecting {x : Diagnosis Ty} {t : Ty} (h : x.result = some t)
    (S : Expectation) (p : Pos) :
    (x.expecting S p).diagnostics =
      x.diagnostics ++ if S.Admits t then [] else [.typeMismatch S.primary t p] := by
  rw [expecting, diagnostics_bind, h]
  by_cases ht : S.Admits t <;> simp [ht]

/-- A sequence of checks is complete if every one of them is. -/
theorem result_forM (f : α → Diagnosis Unit) (as : List α) :
    (forM as f).result = some () ↔ ∀ a ∈ as, (f a).result = some () := by
  induction as with
  | nil => simp
  | cons a as ih =>
    rw [List.forM_cons, result_bind, List.forall_mem_cons, ← ih]
    cases (f a).result <;> simp

/-- A sequence of complete checks finds what they find one by one. -/
theorem diagnostics_forM {f : α → Diagnosis Unit} {as : List α}
    (h : ∀ a ∈ as, (f a).result = some ()) :
    (forM as f).diagnostics = as.flatMap fun a => (f a).diagnostics := by
  induction as with
  | nil => simp
  | cons a as ih =>
    obtain ⟨ha, has⟩ := List.forall_mem_cons.mp h
    rw [List.forM_cons, diagnostics_bind, ha, List.flatMap_cons]
    exact congrArg _ (ih has)

end Diagnosis

end QueryAnalysis
