import Mathlib.Data.List.Forall2
import QueryAnalysis.Diagnosis

/-!
Checks that find nothing. A check accepts if it yields a value without a finding, which is to say
that it equals `pure a`; so the questions are when a composite check does, and when it yields a
value at all.

* `bind_eq_pure_iff`, `mapM_eq_pure_iff`: a composite check accepts if all of its parts do.
* `expecting_eq_pure_iff`: a type is accepted if the expectation admits it.
* `isSome_bind`, `isSome_mapM`: the same for yielding a value.
* `diagnostics_bind_of_some`, `mapM_eq_of_forall`: what is found on the way to a value.
* `Stepwise`: what the two have in common, so that long sequences of checks are taken apart only
  once.
-/

namespace QueryAnalysis.Diagnosis

variable {α β : Type}

/-! ### Acceptance -/

/-- A check accepts if it finds nothing and yields a value. -/
lemma eq_pure_iff {x : Diagnosis α} {a : α} :
    x = pure a ↔ x.diagnostics = [] ∧ x.result = some a := by
  constructor
  · rintro rfl
    exact ⟨rfl, rfl⟩
  · rintro ⟨hd, hr⟩
    exact Diagnosis.ext hd hr

@[simp] lemma pure_eq_pure_iff {a b : α} : (pure a : Diagnosis α) = pure b ↔ a = b := by
  simp [eq_pure_iff]

@[simp] lemma incomplete_ne_pure (a : α) : (incomplete : Diagnosis α) ≠ pure a := by
  simp [eq_pure_iff]

@[simp] lemma reportAll_eq_pure_iff {ds : List Diagnostic} :
    reportAll ds = pure () ↔ ds = [] := by
  simp [eq_pure_iff]

@[simp] lemma report_ne_pure (d : Diagnostic) : report d ≠ pure () := by
  simp [report]

/-- A sequence of two checks accepts if both do. -/
lemma bind_eq_pure_iff {x : Diagnosis α} {f : α → Diagnosis β} {b : β} :
    x >>= f = pure b ↔ ∃ a, x = pure a ∧ f a = pure b := by
  simp only [eq_pure_iff, diagnostics_bind, result_bind]
  cases x.result with
  | none => simp
  | some a => simp [and_assoc]

/-- The form of `bind_eq_pure_iff` for a first check that yields nothing of interest. -/
lemma then_eq_pure_iff {x : Diagnosis Unit} {y : Diagnosis β} {b : β} :
    (x >>= fun _ => y) = pure b ↔ x = pure () ∧ y = pure b := by
  rw [bind_eq_pure_iff]
  exact ⟨fun ⟨_, h⟩ => h, fun h => ⟨(), h⟩⟩

/-- A type is accepted if the expectation admits it. -/
lemma expecting_eq_pure_iff {x : Diagnosis Ty} {S : Expectation} {p : Pos} :
    x.expecting S p = pure () ↔ ∃ t, x = pure t ∧ S.Admits t := by
  rw [expecting, bind_eq_pure_iff]
  refine exists_congr fun t => and_congr_right fun _ => ?_
  by_cases h : S.Admits t <;> simp [h]

/-- The values of a list of checks are accepted one by one. -/
lemma mapM_eq_pure_iff {f : α → Diagnosis β} {as : List α} {bs : List β} :
    as.mapM f = pure bs ↔ List.Forall₂ (fun a b => f a = pure b) as bs := by
  induction as generalizing bs with
  | nil => simp [eq_comm]
  | cons a as ih =>
      simp only [List.mapM_cons, bind_eq_pure_iff, pure_eq_pure_iff, List.forall₂_cons_left_iff]
      constructor
      · rintro ⟨b, hb, bs', hbs, rfl⟩
        exact ⟨b, bs', hb, ih.mp hbs, rfl⟩
      · rintro ⟨b, bs', hb, hbs, rfl⟩
        exact ⟨b, hb, bs', ih.mpr hbs, rfl⟩

/-! ### Values -/

@[simp] lemma result_map (g : α → β) (x : Diagnosis α) : (g <$> x).result = x.result.map g := by
  rw [map_eq_pure_bind, result_bind]
  cases x.result <;> rfl

/-- The findings count only if the check met no missing part. -/
lemma complete?_eq_some_iff {x : Diagnosis α} {ds : List Diagnostic} :
    x.complete? = some ds ↔ x.result.isSome ∧ x.diagnostics = ds := by
  rw [complete?]
  cases x.result <;> simp

/-- A sequence of two checks yields a value if the first one does, and the second one does for that
value. -/
lemma isSome_bind {x : Diagnosis α} {f : α → Diagnosis β} :
    (x >>= f).result.isSome ↔ ∃ a, x.result = some a ∧ (f a).result.isSome := by
  rw [result_bind]
  cases x.result <;> simp

/-- The form of `isSome_bind` for a second check that yields a value or not, whatever the first one
yields. -/
lemma isSome_bind_of_forall {x : Diagnosis α} {f : α → Diagnosis β} {q : Prop}
    (h : ∀ a, (f a).result.isSome ↔ q) :
    (x >>= f).result.isSome ↔ x.result.isSome ∧ q := by
  rw [isSome_bind, Option.isSome_iff_exists]
  simp only [h, exists_and_right]

/-- The form of `isSome_bind` for a second check that does not use what the first one yields. -/
lemma isSome_then {x : Diagnosis α} {y : Diagnosis β} :
    (x >>= fun _ => y).result.isSome ↔ x.result.isSome ∧ y.result.isSome :=
  isSome_bind_of_forall fun _ => Iff.rfl

/-- A type that does not meet the expectation is reported, but does not stop the check. -/
@[simp] lemma isSome_expecting (x : Diagnosis Ty) (S : Expectation) (p : Pos) :
    (x.expecting S p).result.isSome = x.result.isSome := by
  rw [result_expecting, Option.isSome_map]

/-- A list of checks yields its values if every one of them yields one. -/
lemma isSome_mapM {f : α → Diagnosis β} {as : List α} :
    (as.mapM f).result.isSome ↔ ∀ a ∈ as, (f a).result.isSome := by
  induction as with
  | nil => simp
  | cons a as ih =>
      rw [List.mapM_cons, isSome_bind, List.forall_mem_cons, ← ih]
      simp [Option.isSome_iff_exists]

/-! ### Findings of checks that yield a value -/

lemma result_bind_of_some {x : Diagnosis α} {f : α → Diagnosis β} {a : α}
    (h : x.result = some a) : (x >>= f).result = (f a).result := by
  rw [result_bind, h, Option.bind_some]

lemma diagnostics_bind_of_some {x : Diagnosis α} {f : α → Diagnosis β} {a : α}
    (h : x.result = some a) : (x >>= f).diagnostics = x.diagnostics ++ (f a).diagnostics := by
  rw [diagnostics_bind, h, Option.map_some, Option.getD_some]

lemma diagnostics_bind_pure (x : Diagnosis α) (g : α → β) :
    (x >>= fun a => pure (g a)).diagnostics = x.diagnostics := by
  rw [diagnostics_bind]
  cases x.result <;> simp

/-- A list of checks that yield values finds what they find one by one, and yields the list of their
values. -/
lemma mapM_eq_of_forall {f : α → Diagnosis β} {g : α → β} {as : List α}
    (h : ∀ a ∈ as, (f a).result = some (g a)) :
    as.mapM f = ⟨as.flatMap fun a => (f a).diagnostics, some (as.map g)⟩ := by
  induction as with
  | nil => rfl
  | cons a as ih =>
      obtain ⟨ha, has⟩ := List.forall_mem_cons.mp h
      ext1
      · rw [List.mapM_cons, diagnostics_bind_of_some ha, diagnostics_bind_pure, ih has,
          List.flatMap_cons]
      · rw [List.mapM_cons, result_bind_of_some ha, ih has]
        rfl

/-! ### Properties that go through step by step -/

/-- A property of checks that a sequence of checks has exactly if all of them have it, and that
fails if a part is missing. Whatever passes under an expectation passes without one. -/
structure Stepwise (Q : Diagnosis Unit → Prop) : Prop where
  pure : Q (pure ())
  seq : ∀ x y, Q (x >>= fun _ => y) ↔ Q x ∧ Q y
  incomplete : ¬ Q incomplete
  expecting : ∀ (x : Diagnosis Ty) S p, Q (x.expecting S p) → Q (x >>= fun _ => Pure.pure ())

/-- What goes through step by step goes through a loop. -/
lemma Stepwise.forM {Q : Diagnosis Unit → Prop} (hQ : Stepwise Q) {f : α → Diagnosis Unit}
    {as : List α} : Q (ForM.forM as f) ↔ ∀ a ∈ as, Q (f a) := by
  induction as with
  | nil => simpa using hQ.pure
  | cons a as ih => rw [List.forM_cons, hQ.seq, ih, List.forall_mem_cons]

/-- Acceptance goes through step by step. -/
lemma stepwise_eq_pure : Stepwise (· = pure ()) where
  pure := rfl
  seq _ _ := then_eq_pure_iff
  incomplete := incomplete_ne_pure ()
  expecting x S p h := by
    obtain ⟨t, rfl, -⟩ := expecting_eq_pure_iff.mp h
    rfl

/-- Running to the end goes through step by step. -/
lemma stepwise_isSome : Stepwise (fun x => x.result.isSome = true) where
  pure := rfl
  seq _ _ := isSome_then
  incomplete := nofun
  expecting x S p h := isSome_then.mpr ⟨isSome_expecting x S p ▸ h, rfl⟩

lemma forM_eq_pure_iff {f : α → Diagnosis Unit} {as : List α} :
    forM as f = pure () ↔ ∀ a ∈ as, f a = pure () :=
  stepwise_eq_pure.forM

lemma isSome_forM {f : α → Diagnosis Unit} {as : List α} :
    (forM as f).result.isSome ↔ ∀ a ∈ as, (f a).result.isSome :=
  stepwise_isSome.forM

end QueryAnalysis.Diagnosis
