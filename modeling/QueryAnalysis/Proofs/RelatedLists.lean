import Mathlib.Data.List.Forall2

/-!
Lists whose members are related place by place, and what the members of one list say about those of
the other.

* `forall_exists_iff_exists_forall₂`: a choice of related members, as a list.
* `exists_getElem?_of_forall₂`: the partner of a member.
* `forall₂_imp_of_mem`, `forall_mem_of_forall₂`, `eq_of_forall₂`: what follows from the relation at
  each place follows for the lists.
-/

namespace QueryAnalysis

variable {α β : Type} {P Q : α → β → Prop} {as : List α} {bs : List β}

/-- A choice of something for each member of a list, as a list. -/
lemma forall_exists_iff_exists_forall₂ {q : β → Prop} :
    (∀ a ∈ as, ∃ b, P a b ∧ q b) ↔ ∃ bs, List.Forall₂ P as bs ∧ ∀ b ∈ bs, q b := by
  induction as with
  | nil => simp
  | cons a as ih =>
      rw [List.forall_mem_cons, ih]
      constructor
      · rintro ⟨⟨b, hab, hb⟩, bs, habs, hbs⟩
        exact ⟨b :: bs, .cons hab habs, List.forall_mem_cons.mpr ⟨hb, hbs⟩⟩
      · rintro ⟨_, _ | ⟨hab, habs⟩, hall⟩
        obtain ⟨hb, hbs⟩ := List.forall_mem_cons.mp hall
        exact ⟨⟨_, hab, hb⟩, _, habs, hbs⟩

/-- The partner of a member stands at the same place. -/
lemma exists_getElem?_of_forall₂ (hP : List.Forall₂ P as bs) {i : Nat} {b : β}
    (hb : bs[i]? = some b) : ∃ a, as[i]? = some a ∧ P a b := by
  induction hP generalizing i with
  | nil => cases hb
  | @cons a b' _ _ hab _ ih =>
      cases i with
      | zero => exact ⟨a, rfl, Option.some.inj hb ▸ hab⟩
      | succ i => exact ih hb

lemma forall₂_imp_of_mem (hP : List.Forall₂ P as bs) (h : ∀ a ∈ as, ∀ {b}, P a b → Q a b) :
    List.Forall₂ Q as bs :=
  ((List.forall₂_and_left _ _).mpr ⟨h, hP⟩).imp fun _ _ h => h.1 h.2

/-- What follows for the partners of all members holds of the whole other list. -/
lemma forall_mem_of_forall₂ {q : β → Prop} (hP : List.Forall₂ P as bs)
    (h : ∀ a ∈ as, ∀ {b}, P a b → q b) : ∀ b ∈ bs, q b := by
  induction hP with
  | nil => exact List.forall_mem_nil _
  | cons hab _ ih =>
      obtain ⟨ha, has⟩ := List.forall_mem_cons.mp h
      exact List.forall_mem_cons.mpr ⟨ha hab, ih has⟩

/-- Lists are the same if no member is related to anything but itself. -/
lemma eq_of_forall₂ {P : α → α → Prop} {bs : List α} (hP : List.Forall₂ P as bs)
    (h : ∀ a ∈ as, ∀ {b}, P a b → b = a) : bs = as := by
  have heq := forall₂_imp_of_mem hP fun a ha _ hab => (h a ha hab).symm
  rwa [List.forall₂_eq_eq_eq, eq_comm] at heq

end QueryAnalysis
