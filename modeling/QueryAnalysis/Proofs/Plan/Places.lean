import Mathlib.Data.List.ProdSigma
import Mathlib.Data.List.FinRange
import QueryAnalysis.Proofs.Plan.Names

/-!
Groups of a list by the places of their members. The members of a list that have the same key are
reported by the first one, or by the first two of them. Here it is said of a place, or of two
places, that they are the ones, so that members which look alike are still told apart.

* `FirstAt`, `FirstTwoAt`: a place is the first one with its key, two places are the first two with
  their key.
* `distinctBy_eq_places`: the members that `distinctBy` keeps are those at the first places, in the
  order of the list.
* `firstPairs_eq_filter`: the pairs of `firstPairs` are the first two places of each key, in the
  order of the first of them.
* `exists_firstTwoAt`, `exists_filter_distinctBy`: a key that two members have has first two places,
  and a key that one member has is kept exactly once.
-/

namespace QueryAnalysis

variable {α β κ : Type}

/-- No member of the list before this one has the same key. -/
def FirstAt (key : α → κ) (as : List α) (i : Fin as.length) : Prop :=
  ∀ m < i, key as[m] ≠ key as[i]

/-- The members at the places `i` and `j` are the first two of the list with the key that they
have in common. -/
def FirstTwoAt (key : α → κ) (as : List α) (i j : Fin as.length) : Prop :=
  i < j ∧ key as[j] = key as[i] ∧ ∀ m < j, key as[m] = key as[i] → m = i

/-- All pairs of places in a list of `n` members, ordered by the first place. -/
def placePairs (n : Nat) : List (Fin n × Fin n) :=
  List.finRange n ×ˢ List.finRange n

variable [DecidableEq κ]

instance (key : α → κ) (as : List α) (i : Fin as.length) : Decidable (FirstAt key as i) :=
  inferInstanceAs (Decidable (∀ m < i, key as[m] ≠ key as[i]))

instance (key : α → κ) (as : List α) (i j : Fin as.length) :
    Decidable (FirstTwoAt key as i j) :=
  inferInstanceAs (Decidable (i < j ∧ key as[j] = key as[i] ∧
    ∀ m < j, key as[m] = key as[i] → m = i))

/-! ### Lists in order -/

section Sorted

variable {n : Nat} {key : Fin n → κ} {l : List (Fin n)}

/-- In a list of places in order, the first ones of their keys are kept. -/
lemma distinctBy_eq_filter (hl : l.Pairwise (· < ·)) :
    distinctBy key l = l.filter fun i => ∀ m ∈ l, m < i → key m ≠ key i := by
  induction l with
  | nil => rfl
  | cons a l ih =>
      obtain ⟨ha, hl⟩ := List.pairwise_cons.mp hl
      have hfirst : ∀ m ∈ a :: l, m < a → key m ≠ key a := by
        intro m hm hma
        rcases List.mem_cons.mp hm with rfl | hm
        · omega
        · have := ha m hm
          omega
      rw [distinctBy, ih hl, List.filter_cons_of_pos (by simpa using hfirst), List.filter_filter]
      congr 1
      refine List.filter_congr fun i hi => ?_
      have hai : a < i := ha i hi
      have hsplit : (∀ m ∈ a :: l, m < i → key m ≠ key i) ↔
          key i ≠ key a ∧ ∀ m ∈ l, m < i → key m ≠ key i := by
        rw [List.forall_mem_cons]
        exact and_congr_left' ⟨fun h => (h hai).symm, fun h _ => h.symm⟩
      simp only [hsplit, Bool.decide_and]

/-- The first member of the group of a member that is kept is that member itself. -/
lemma exists_filter_eq_cons {as : List α} {key : α → κ} {a : α} (h : a ∈ distinctBy key as) :
    ∃ rest, (as.filter fun b => key b = key a) = a :: rest := by
  induction as with
  | nil => cases h
  | cons c as ih =>
      rw [distinctBy, List.mem_cons, List.mem_filter] at h
      rcases h with rfl | ⟨ha, hne⟩
      · exact ⟨_, List.filter_cons_of_pos (by simp)⟩
      · have hac : key a ≠ key c := by simpa using hne
        rw [List.filter_cons_of_neg (by simpa using hac.symm)]
        exact ih ha

/-- Two members are a pair if they are the first two of the group that they belong to. -/
lemma mem_firstPairs {as : List α} {key : α → κ} {a b : α} :
    (a, b) ∈ firstPairs key as ↔ ∃ rest, (as.filter fun c => key c = key a) = a :: b :: rest := by
  rw [firstPairs, List.mem_filterMap]
  constructor
  · rintro ⟨c, -, hc⟩
    split at hc
    · next first second rest hgroup =>
        obtain ⟨rfl, rfl⟩ := Prod.mk.inj (Option.some.inj hc)
        have hkey : key first = key c := by
          have hmem := hgroup ▸ List.mem_cons_self (a := first) (l := second :: rest)
          simpa using (List.mem_filter.mp hmem).2
        exact ⟨rest, hkey ▸ hgroup⟩
    · cases hc
  · rintro ⟨rest, hgroup⟩
    have hmem : a ∈ as := by
      have := hgroup ▸ List.mem_cons_self (a := a) (l := b :: rest)
      exact (List.mem_filter.mp this).1
    obtain ⟨c, hc, hkey⟩ := exists_mem_distinctBy key hmem
    exact ⟨c, hc, by rw [hkey, hgroup]⟩

/-- A list of places in order starts with `i` and `j` if these are its two least members. -/
lemma exists_eq_cons_cons_iff (hl : l.Pairwise (· < ·)) {i j : Fin n} :
    (∃ rest, l = i :: j :: rest) ↔ i ∈ l ∧ j ∈ l ∧ i < j ∧ ∀ m ∈ l, m < j → m = i := by
  constructor
  · rintro ⟨rest, rfl⟩
    obtain ⟨hi, hl'⟩ := List.pairwise_cons.mp hl
    obtain ⟨hj, -⟩ := List.pairwise_cons.mp hl'
    refine ⟨List.mem_cons_self, by simp, hi j List.mem_cons_self, fun m hm hmj => ?_⟩
    rcases List.mem_cons.mp hm with rfl | hm
    · rfl
    · rcases List.mem_cons.mp hm with rfl | hm
      · omega
      · have := hj m hm
        omega
  · rintro ⟨hi, hj, hij, hleast⟩
    -- whatever comes before `j` is `i`, so `i` comes first, and `j` next
    obtain _ | ⟨a, l⟩ := l
    · cases hi
    · obtain ⟨ha, hl⟩ := List.pairwise_cons.mp hl
      have hai : a = i := by
        rcases List.mem_cons.mp hi with rfl | hi
        · rfl
        · exact hleast a List.mem_cons_self (lt_trans (ha i hi) hij)
      subst hai
      have hj : j ∈ l := (List.mem_cons.mp hj).resolve_left (ne_of_gt hij)
      obtain _ | ⟨b, l⟩ := l
      · cases hj
      · obtain ⟨hb, -⟩ := List.pairwise_cons.mp hl
        rcases List.mem_cons.mp hj with rfl | hj
        · exact ⟨l, rfl⟩
        · have hba : b = a := hleast b (by simp) (hb j hj)
          have := ha b List.mem_cons_self
          omega

lemma mem_firstPairs_of_sorted (hl : l.Pairwise (· < ·)) {i j : Fin n} :
    (i, j) ∈ firstPairs key l ↔ i ∈ l ∧ j ∈ l ∧ i < j ∧ key j = key i ∧
      ∀ m ∈ l, m < j → key m = key i → m = i := by
  rw [mem_firstPairs, exists_eq_cons_cons_iff (hl.filter _)]
  simp only [List.mem_filter, decide_eq_true_eq, and_true, and_imp]
  constructor
  · rintro ⟨hi, ⟨hj, hkey⟩, hij, hleast⟩
    exact ⟨hi, hj, hij, hkey, fun m hm hmj hmi => hleast m hm hmi hmj⟩
  · rintro ⟨hi, hj, hij, hkey, hleast⟩
    exact ⟨hi, ⟨hj, hkey⟩, hij, fun m hm hmi hmj => hleast m hm hmj hmi⟩

/-- The pairs come in the order of their first places. -/
lemma pairwise_firstPairs (hl : l.Pairwise (· < ·)) :
    (firstPairs key l).Pairwise fun q q' => q.1 < q'.1 := by
  rw [firstPairs, List.pairwise_filterMap]
  refine List.Pairwise.imp_of_mem ?_ (hl.sublist (distinctBy_sublist key l))
  intro i i' hi hi' hlt q hq q' hq'
  -- either pair starts with the member that stands for its group
  obtain ⟨rest, hgroup⟩ := exists_filter_eq_cons hi
  obtain ⟨rest', hgroup'⟩ := exists_filter_eq_cons hi'
  rw [hgroup] at hq
  rw [hgroup'] at hq'
  obtain _ | ⟨j, rest⟩ := rest
  · cases hq
  · obtain _ | ⟨j', rest'⟩ := rest'
    · cases hq'
    · cases hq
      cases hq'
      exact hlt

/-- If no place is related to two others, then the related pairs come in the order of their first
places. -/
lemma pairwise_filter_placePairs {P : Fin n → Fin n → Prop} [∀ i j, Decidable (P i j)]
    (hP : ∀ i j j', P i j → P i j' → j = j') :
    ((placePairs n).filter fun q => P q.1 q.2).Pairwise fun q q' => q.1 < q'.1 := by
  have hrange : (List.finRange n).Pairwise (· < ·) := List.pairwise_lt_finRange n
  have hpairs : placePairs n =
      (List.finRange n).flatMap fun i => (List.finRange n).map fun j => (i, j) := rfl
  rw [List.pairwise_filter, hpairs, List.pairwise_flatMap]
  constructor
  · intro i _
    rw [List.pairwise_map]
    refine hrange.imp fun {j j'} hlt hj hj' => ?_
    have := hP i j j' (by simpa using hj) (by simpa using hj')
    omega
  · refine hrange.imp fun {i i'} hlt q hq q' hq' _ _ => ?_
    obtain ⟨_, -, rfl⟩ := List.mem_map.mp hq
    obtain ⟨_, -, rfl⟩ := List.mem_map.mp hq'
    exact hlt

lemma mem_placePairs (q : Fin n × Fin n) : q ∈ placePairs n :=
  List.mem_product.mpr ⟨List.mem_finRange q.1, List.mem_finRange q.2⟩

/-- Two lists of pairs in the order of their first places are equal if they have the same
members. -/
lemma eq_of_pairwise_fst {qs qs' : List (Fin n × Fin n)}
    (h : qs.Pairwise fun q q' => q.1 < q'.1) (h' : qs'.Pairwise fun q q' => q.1 < q'.1)
    (hmem : ∀ q, q ∈ qs ↔ q ∈ qs') : qs = qs' := by
  have hnodup {ps : List (Fin n × Fin n)} (hps : ps.Pairwise fun q q' => q.1 < q'.1) :
      ps.Nodup := by
    refine hps.imp fun {q q'} hlt heq => ?_
    subst heq
    exact lt_irrefl _ hlt
  refine List.Perm.eq_of_pairwise (fun q q' _ _ hlt hgt => ?_) h h'
    ((List.perm_ext_iff_of_nodup (hnodup h) (hnodup h')).mpr hmem)
  exact absurd hlt (lt_asymm hgt)

/-- **The pairs by their places.** In a list of places in order, the pairs are the first two places
of each key, in the order of the first of them. -/
lemma firstPairs_eq_filter {P : Fin n → Fin n → Prop} [∀ i j, Decidable (P i j)]
    (hl : l.Pairwise (· < ·))
    (hP : ∀ i j, P i j ↔ i ∈ l ∧ j ∈ l ∧ i < j ∧ key j = key i ∧
      ∀ m ∈ l, m < j → key m = key i → m = i) :
    firstPairs key l = (placePairs n).filter fun q => P q.1 q.2 := by
  have hmem (q : Fin n × Fin n) : q ∈ firstPairs key l ↔ P q.1 q.2 :=
    (mem_firstPairs_of_sorted hl).trans (hP q.1 q.2).symm
  have hunique (i j j' : Fin n) (hj : P i j) (hj' : P i j') : j = j' := by
    obtain ⟨-, hjl, hij, hkey, hleast⟩ := (hP i j).mp hj
    obtain ⟨-, hjl', hij', hkey', hleast'⟩ := (hP i j').mp hj'
    -- the smaller one of the two would have to be `i`
    rcases lt_trichotomy j j' with hlt | heq | hlt
    · have := hleast' j hjl hlt hkey
      omega
    · exact heq
    · have := hleast j' hjl' hlt hkey'
      omega
  refine eq_of_pairwise_fst (pairwise_firstPairs hl) (pairwise_filter_placePairs hunique) ?_
  intro q
  rw [hmem, List.mem_filter, decide_eq_true_eq]
  exact (and_iff_right (mem_placePairs q)).symm

end Sorted

/-! ### Lists by their places -/

lemma distinctBy_map (key : α → κ) (g : β → α) (bs : List β) :
    distinctBy key (bs.map g) = (distinctBy (key ∘ g) bs).map g := by
  induction bs with
  | nil => rfl
  | cons b bs ih =>
      rw [List.map_cons, distinctBy, distinctBy, ih, List.map_cons, List.filter_map]
      rfl

lemma firstPairs_map (key : α → κ) (g : β → α) (bs : List β) :
    firstPairs key (bs.map g) = (firstPairs (key ∘ g) bs).map (Prod.map g g) := by
  rw [firstPairs, firstPairs, distinctBy_map, List.filterMap_map, List.map_filterMap]
  refine List.filterMap_congr fun b _ => ?_
  have hgroup : ((bs.map g).filter fun c => key c = key (g b)) =
      (bs.filter fun c => (key ∘ g) c = (key ∘ g) b).map g := List.filter_map
  rw [Function.comp_apply, hgroup]
  rcases bs.filter fun c => (key ∘ g) c = (key ∘ g) b with _ | ⟨_, _ | ⟨_, _⟩⟩ <;> rfl

lemma map_getElem_finRange (as : List α) :
    (List.finRange as.length).map (fun i => as[i]) = as := by
  rw [← List.ofFn_eq_map]
  exact List.ofFn_getElem

lemma distinctBy_finRange (key : α → κ) (as : List α) :
    distinctBy (fun i : Fin as.length => key as[i]) (List.finRange as.length) =
      (List.finRange as.length).filter (FirstAt key as) := by
  rw [distinctBy_eq_filter (List.pairwise_lt_finRange _)]
  refine List.filter_congr fun i _ => decide_eq_decide.mpr ?_
  exact forall_congr' fun m => imp_iff_right (List.mem_finRange m)

/-- **The members that are kept, by their places**: those at the first place of their key, in the
order of the list. -/
lemma distinctBy_eq_places (key : α → κ) (as : List α) :
    distinctBy key as =
      ((List.finRange as.length).filter (FirstAt key as)).map fun i => as[i] := by
  have hplaces := distinctBy_map key (fun i : Fin as.length => as[i]) (List.finRange as.length)
  rw [map_getElem_finRange] at hplaces
  rw [hplaces, ← distinctBy_finRange]
  rfl

/-- A key that two members have is that of the first two of them. -/
lemma exists_firstTwoAt {key : α → κ} {as : List α} {k : κ}
    (h : 2 ≤ as.countP fun a => key a = k) :
    ∃ i j, FirstTwoAt key as i j ∧ key as[i] = k := by
  have hcount : as.countP (fun a => key a = k) =
      ((List.finRange as.length).filter fun i => key as[i] = k).length := by
    conv_lhs => rw [← map_getElem_finRange as, List.countP_map]
    exact List.countP_eq_length_filter
  have hsorted := (List.pairwise_lt_finRange as.length).filter fun i => key as[i] = k
  have hmem (m : Fin as.length) :
      m ∈ (List.finRange as.length).filter (fun i => key as[i] = k) ↔ key as[m] = k := by simp
  rw [hcount] at h
  generalize (List.finRange as.length).filter (fun i => key as[i] = k) = l at h hsorted hmem
  obtain _ | ⟨i, _ | ⟨j, rest⟩⟩ := l
  · simp at h
  · simp at h
  · obtain ⟨hi, hj, hij, hleast⟩ := (exists_eq_cons_cons_iff hsorted).mp ⟨rest, rfl⟩
    rw [hmem] at hi hj
    refine ⟨i, j, ⟨hij, hj.trans hi.symm, fun m hmj hm => ?_⟩, hi⟩
    exact hleast m ((hmem m).mpr (hm.trans hi)) hmj

/-- Of the members with a given key, exactly one is kept. -/
lemma exists_filter_distinctBy {key : α → κ} {as : List α} {k : κ} (h : k ∈ as.map key) :
    ∃ b, key b = k ∧ ((distinctBy key as).filter fun b => key b = k) = [b] := by
  induction as with
  | nil => cases h
  | cons c as ih =>
      rw [distinctBy, List.filter_cons, List.filter_filter]
      by_cases hc : key c = k
      · refine ⟨c, hc, ?_⟩
        simp [hc]
      · obtain ⟨b, hb, hkept⟩ := ih ((List.mem_cons.mp h).resolve_left fun he => hc he.symm)
        refine ⟨b, hb, ?_⟩
        rw [if_neg (by simpa using hc), ← hkept]
        refine List.filter_congr fun b' _ => ?_
        by_cases hb' : key b' = k <;> simp [hb', Ne.symm hc]

end QueryAnalysis
