import QueryAnalysis.Proofs.Expr.Violations
import QueryAnalysis.Proofs.Gradual

/-!
Which overload a call goes to. The first one in the table that suits the types of the arguments
decides. With less knowledge of the arguments it is that one still, or one before it.

* `Overload.Suits`: an overload suits a list of types, place by place.
* `FirstSuiting`: the first overload in a table that suits, and its place.
* `FirstSuiting.forget`: if less is known about the types, then the first overload that suits is at
  the same place or at an earlier one.
* `Signature.result?_eq_some_of_forgets`: where the overloads differ in their number of arguments,
  as those of the built-in functions do, it is at the same place.
* `Signature.result?_firstSuiting`: the type of a call, and what is left of it with less knowledge.
-/

namespace QueryAnalysis

/-! ### The first overload that suits -/

/-- The overload has as many expectations as there are types, and each of them lists the type at its
place, or it lists `unknown`, or that type is `unknown`. -/
def Overload.Suits (o : Overload) (ts : List Ty) : Prop :=
  o.args.length = ts.length ∧
    ∀ (i : Nat) (S : Expectation) (t : Ty), o.args[i]? = some S → ts[i]? = some t →
      t ∈ S ∨ Ty.unknown ∈ S ∨ t = .unknown

/-- The overload at the place `i` of a table suits the types, and none before it does. -/
structure FirstSuiting (os : List Overload) (ts : List Ty) (i : Nat) (o : Overload) : Prop where
  place : os[i]? = some o
  suits : o.Suits ts
  earlier : ∀ j < i, ∀ o', os[j]? = some o' → ¬ o'.Suits ts

variable {os : List Overload} {o : Overload} {ts ts' : List Ty} {t : Ty} {i : Nat}

lemma Expectation.admits_iff {S : Expectation} :
    S.Admits t ↔ t ∈ S ∨ Ty.unknown ∈ S ∨ t = .unknown := by
  rw [Admits, @or_comm (t = .unknown)]

lemma Overload.suits_iff_accepts : o.Suits ts ↔ o.Accepts ts := by
  rw [Suits, Accepts, List.forall₂_iff_get]
  refine and_congr_right fun hlength => ?_
  simp only [List.getElem?_eq_some_iff, Expectation.admits_iff]
  constructor
  · intro h i hi hi'
    exact h i _ _ ⟨hi, rfl⟩ ⟨hi', rfl⟩
  · rintro h i S t ⟨hi, rfl⟩ ⟨hi', rfl⟩
    exact h i hi hi'

lemma Overload.fits_iff_suits : o.Fits ts ↔ o.Suits ts :=
  fits_iff_accepts.trans suits_iff_accepts.symm

lemma find?_fits_eq_some_iff_firstSuiting :
    (os.find? fun o => o.Fits ts) = some o ↔ ∃ i, FirstSuiting os ts i o := by
  simp only [List.find?_eq_some_iff_getElem, Bool.not_eq_true', decide_eq_true_eq,
    decide_eq_false_iff_not, Overload.fits_iff_suits]
  constructor
  · rintro ⟨hsuits, i, hi, hplace, hearlier⟩
    refine ⟨i, List.getElem?_eq_some_iff.mpr ⟨hi, hplace⟩, hsuits, fun j hj o' ho' => ?_⟩
    obtain ⟨_, rfl⟩ := List.getElem?_eq_some_iff.mp ho'
    exact hearlier j hj
  · rintro ⟨i, hplace, hsuits, hearlier⟩
    obtain ⟨hi, hplace⟩ := List.getElem?_eq_some_iff.mp hplace
    refine ⟨hsuits, i, hi, hplace, fun j hj => ?_⟩
    have hlt : j < os.length := Nat.lt_trans hj hi
    exact hearlier j hj _ (List.getElem?_eq_getElem hlt)

lemma Signature.result?_eq_some_iff :
    (builtin os).result? ts = some t ↔ ∃ i o, FirstSuiting os ts i o ∧ o.result = t := by
  rw [result?, Option.map_eq_some_iff]
  simp only [find?_fits_eq_some_iff_firstSuiting]
  constructor
  · rintro ⟨o, ⟨i, hfirst⟩, hresult⟩
    exact ⟨i, o, hfirst, hresult⟩
  · rintro ⟨i, o, hfirst, hresult⟩
    exact ⟨o, ⟨i, hfirst⟩, hresult⟩

/-! ### Less knowledge of the arguments -/

/-- If some overload suits, then the first one that does is not behind it. -/
lemma exists_firstSuiting_le (ho : os[i]? = some o) (hsuits : o.Suits ts) :
    ∃ j o', j ≤ i ∧ FirstSuiting os ts j o' := by
  induction i using Nat.strongRecOn generalizing o with
  | _ i ih =>
      by_cases hearlier : ∃ j o', j < i ∧ os[j]? = some o' ∧ o'.Suits ts
      · obtain ⟨j, o', hj, ho', hsuits'⟩ := hearlier
        obtain ⟨k, o'', hk, hfirst⟩ := ih j hj ho' hsuits'
        exact ⟨k, o'', by omega, hfirst⟩
      · exact ⟨i, o, Nat.le_refl i, ho, hsuits,
          fun j hj o' ho' hsuits' => hearlier ⟨j, o', hj, ho', hsuits'⟩⟩

lemma Overload.Suits.forget (h : o.Suits ts) (hts : List.Forall₂ Ty.Forgets ts ts') :
    o.Suits ts' :=
  suits_iff_accepts.mpr ((suits_iff_accepts.mp h).forget hts)

/-- With less knowledge of the arguments, a call goes to the same overload or to an earlier one. -/
lemma FirstSuiting.forget (h : FirstSuiting os ts i o) (hts : List.Forall₂ Ty.Forgets ts ts') :
    ∃ j o', j ≤ i ∧ FirstSuiting os ts' j o' :=
  exists_firstSuiting_le h.place (h.suits.forget hts)

/-- If the overloads of a function differ in their number of arguments, then a call keeps its type
with less knowledge of the arguments. -/
lemma Signature.result?_eq_some_of_forgets {σ : Signature}
    (hσ : ∀ os, σ = builtin os → DistinctArities os) (hts : List.Forall₂ Ty.Forgets ts ts')
    (h : σ.result? ts = some t) : σ.result? ts' = some t := by
  cases σ with
  | builtin os =>
      rw [result?, Option.map_eq_some_iff] at h ⊢
      obtain ⟨o, ho, hresult⟩ := h
      have hfirst := find?_fits_eq_some_iff.mp ho
      exact ⟨o, find?_fits_eq_some_iff.mpr (hfirst.forget (hσ os rfl) hts), hresult⟩
  | userDefined n =>
      rw [result?] at h ⊢
      rwa [← hts.length_eq]

namespace Signature

/-- **The first overload that suits decides, and less knowledge never rules it out.** A call of a
function with overloads has the result of the first one in the table that suits the types of the
arguments, and no result exactly if none does. If it has a result, and any of the types are made
unknown, then it still has one, from an overload at the same place or at an earlier one; and for the
built-in functions it is the same result. -/
theorem result?_firstSuiting :
    (∀ (os : List Overload) (ts : List Ty),
      (∀ t, (builtin os).result? ts = some t ↔ ∃ i o, FirstSuiting os ts i o ∧ o.result = t) ∧
        ((builtin os).result? ts = none ↔ ∀ o ∈ os, ¬ o.Suits ts) ∧
        ∀ t ts', (builtin os).result? ts = some t → List.Forall₂ Ty.Forgets ts ts' →
          ∃ i o j o', FirstSuiting os ts i o ∧ o.result = t ∧
            FirstSuiting os ts' j o' ∧ (builtin os).result? ts' = some o'.result ∧ j ≤ i) ∧
      ∀ f σ ts ts' t, Env.builtins.lookup f = some σ → σ.result? ts = some t →
        List.Forall₂ Ty.Forgets ts ts' → σ.result? ts' = some t := by
  refine ⟨fun os ts => ⟨fun t => result?_eq_some_iff, ?_, fun t ts' h hts => ?_⟩,
    fun f σ ts ts' t hf h hts => ?_⟩
  · simp only [result?_eq_none_iff, Rejects, Overload.suits_iff_accepts]
  · obtain ⟨i, o, hfirst, hresult⟩ := result?_eq_some_iff.mp h
    obtain ⟨j, o', hj, hfirst'⟩ := hfirst.forget hts
    exact ⟨i, o, j, o', hfirst, hresult, hfirst', result?_eq_some_iff.mpr ⟨j, o', hfirst', rfl⟩, hj⟩
  · refine result?_eq_some_of_forgets (fun os hos => ?_) hts h
    exact Env.unambiguous_builtins f os (hos ▸ hf)

/-- A function of a text or of a number, with a count or without. -/
def convertTable : List Overload :=
  [⟨[.string], .boolean⟩, ⟨[.numeric, .numeric], .unknown⟩, ⟨[.numeric], .numeric⟩]

/-- A value of unknown type is taken for a text here, which changes the type of the call. A running
sum stays a number. -/
theorem convertTable_firstSuiting :
    (builtin convertTable).result? [.numeric] = some .numeric ∧
      (∃ i o j o', FirstSuiting convertTable [.numeric] i o ∧ o.result = .numeric ∧
        FirstSuiting convertTable [.unknown] j o' ∧
        (builtin convertTable).result? [.unknown] = some o'.result ∧ j ≤ i) ∧
      (builtin convertTable).result? [.unknown] = some .boolean ∧
      ∃ σ, Env.builtins.lookup "sums" = some σ ∧
        σ.result? [.numeric, .boolean] = some .numeric ∧
        σ.result? [.unknown, .boolean] = some .numeric := by
  have hnumber : (builtin convertTable).result? [.numeric] = some .numeric := by decide
  have hsums : Env.builtins.lookup "sums" = some (Env.runningAggregate .arithmetic) := by decide
  have hpair : (Env.runningAggregate .arithmetic).result? [.numeric, .boolean] = some .numeric := by
    decide
  exact ⟨hnumber,
    (result?_firstSuiting.1 convertTable [.numeric]).2.2 _ _ hnumber (.cons (.unknown _) .nil),
    by decide, _, hsums, hpair,
    result?_firstSuiting.2 _ _ _ _ _ hsums hpair (.cons (.unknown _) (.cons (.refl _) .nil))⟩

end Signature

end QueryAnalysis
