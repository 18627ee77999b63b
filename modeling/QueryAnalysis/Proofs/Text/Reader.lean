import Mathlib.Data.List.Basic
import QueryAnalysis.Text.Quoted

/-!
Readers. A reader takes a value off the front of a text, and leaves the rest for the next one. What
a sequence of readers makes of a text that was put together from pieces follows from what each of
them makes of its piece.

* `Reader`: the readers, as a monad with alternatives. An alternative starts over at the same place.
* `Reader.Takes`, `Reader.Refuses`: a reader takes a piece of text and stops right behind it, or it
  fails on a text.
* `Reader.skip`, `Reader.word`, `Reader.quoted`, `Reader.many`: a fixed piece, a word, a string
  literal, and several pieces in a row.
-/

namespace QueryAnalysis.Text

/-- Takes a value off the front of a text, if there is one. -/
abbrev Reader := StateT (List Char) Option

/-- A letter, a digit or an underscore. -/
def isWordChar (c : Char) : Bool :=
  c.isAlphanum || c == '_'

namespace Reader

variable {α β : Type} {r r' : Reader α} {f : α → Reader β} {s t rest : List Char} {a : α} {b : β}

/-- If the text goes on with `s` and then with `rest`, the reader takes `s` off and yields `a`. -/
def Takes (r : Reader α) (s : List Char) (a : α) (rest : List Char) : Prop :=
  r.run (s ++ rest) = some (a, rest)

/-- The reader fails on this text. -/
def Refuses (r : Reader α) (s : List Char) : Prop :=
  r.run s = none

/-! ### Sequences and alternatives -/

lemma takes_pure (a : α) (rest : List Char) : (pure a : Reader α).Takes [] a rest := rfl

/-- Two readers in sequence take off what they take off one after the other. -/
lemma Takes.bind (h : r.Takes s a (t ++ rest)) (hf : (f a).Takes t b rest) :
    (r >>= f).Takes (s ++ t) b rest := by
  rw [Takes, List.append_assoc, StateT.run_bind, show r.run _ = _ from h]
  exact hf

/-- The end of a sequence, where nothing more is read. -/
lemma Takes.bind_pure (h : r.Takes s a rest) (g : α → β) :
    (r >>= fun a => pure (g a)).Takes s (g a) rest := by
  rw [Takes, StateT.run_bind, show r.run _ = _ from h]
  rfl

/-- The first of two alternatives is taken if it fits. -/
lemma Takes.orElse (h : r.Takes s a rest) (r' : Reader α) : (r <|> r').Takes s a rest := by
  rw [Takes, StateT.run_orElse, show r.run _ = _ from h]
  rfl

/-- The second of two alternatives is taken if the first one fails. -/
lemma Refuses.orElse_takes (h : r.Refuses (s ++ rest)) (h' : r'.Takes s a rest) :
    (r <|> r').Takes s a rest := by
  rw [Takes, StateT.run_orElse, show r.run _ = _ from h]
  exact h'

lemma Refuses.orElse (h : r.Refuses s) (h' : r'.Refuses s) : (r <|> r').Refuses s := by
  rw [Refuses, StateT.run_orElse, show r.run _ = _ from h]
  exact h'

lemma Refuses.bind (h : r.Refuses s) (f : α → Reader β) : (r >>= f).Refuses s := by
  rw [Refuses, StateT.run_bind, show r.run _ = _ from h]
  rfl

/-- A sequence fails if the second reader does behind what the first one takes off. -/
lemma Takes.bind_refuses (h : r.Takes s a rest) (hf : (f a).Refuses rest) :
    (r >>= f).Refuses (s ++ rest) := by
  rw [Refuses, StateT.run_bind, show r.run _ = _ from h]
  exact hf

/-! ### Pieces of text -/

/-- Takes off a fixed piece of text. -/
def skip (t : String) : Reader Unit :=
  fun s => (s.dropPrefix? t.toList).map fun rest => ((), rest)

lemma run_skip (t : String) (s : List Char) :
    (skip t).run s = (s.dropPrefix? t.toList).map fun rest => ((), rest) := rfl

/-- A fixed piece of text is taken off. -/
lemma takes_skip (t : String) (rest : List Char) : (skip t).Takes t.toList () rest := by
  have hdrop : (t.toList ++ rest).dropPrefix? t.toList = some rest :=
    List.dropPrefix?_eq_some_iff.mpr ⟨t.toList, rfl, beq_self_eq_true _⟩
  rw [Takes, run_skip, hdrop, Option.map_some]

/-- A piece of text is not taken off if the first characters differ. -/
lemma skip_refuses {t : String} (ht : t.toList ≠ []) (hs : s.head? ≠ t.toList.head?) :
    (skip t).Refuses s := by
  have hdrop : s.dropPrefix? t.toList = none := by
    cases hcs : t.toList with
    | nil => exact absurd hcs ht
    | cons c cs =>
        cases s with
        | nil => rfl
        | cons d s => simp_all [List.dropPrefix?]
  rw [Refuses, run_skip, hdrop, Option.map_none]

/-- Takes off all characters of a word. -/
def word : Reader String :=
  fun s => some (String.ofList (s.takeWhile isWordChar), s.dropWhile isWordChar)

lemma run_word (s : List Char) :
    word.run s = some (String.ofList (s.takeWhile isWordChar), s.dropWhile isWordChar) := rfl

/-- A word is taken off if nothing follows that could belong to it. -/
lemma takes_word {w : String} (hw : w.toList.all isWordChar = true)
    (hrest : ∀ c ∈ rest.head?, isWordChar c = false) : word.Takes w.toList w rest := by
  have hempty : rest.takeWhile isWordChar = [] ∧ rest.dropWhile isWordChar = rest := by
    cases rest with
    | nil => exact ⟨rfl, rfl⟩
    | cons c cs =>
        have hc := hrest c rfl
        simp [hc]
  have hchars : ∀ c ∈ w.toList, isWordChar c = true := List.all_eq_true.mp hw
  rw [Takes, run_word, List.takeWhile_append_of_pos hchars, List.dropWhile_append_of_pos hchars,
    hempty.1, hempty.2, List.append_nil, String.ofList_toList]

/-- Takes off a string literal, and yields its content. -/
def quoted : Reader String :=
  fun s => (unquote? s).map fun r => (String.ofList r.1, r.2)

lemma run_quoted (s : List Char) :
    quoted.run s = (unquote? s).map fun r => (String.ofList r.1, r.2) := rfl

/-- A literal is taken off with its quotes. -/
lemma takes_quoted (content : String) (rest : List Char) :
    quoted.Takes (quote content).toList content rest := by
  rw [Takes, run_quoted, unquote?_quote, Option.map_some, String.ofList_toList]

lemma quoted_refuses (hs : s.head? ≠ some '"') : quoted.Refuses s := by
  have hnone : unquote? s = none := by
    rw [unquote?]
    rintro cs rfl
    exact hs rfl
  rw [Refuses, run_quoted, hnone, Option.map_none]

/-! ### Choice and repetition -/

/-- Takes off the first of several fixed pieces that fits, and yields what it stands for. -/
def oneOf (write : α → String) : List α → Reader α
  | [] => failure
  | a :: as => (do
    skip (write a)
    pure a) <|> oneOf write as

/-- A choice fails if no piece fits. -/
lemma oneOf_refuses {write : α → String} {as : List α}
    (h : ∀ a ∈ as, (skip (write a)).Refuses s) : (oneOf write as).Refuses s := by
  induction as with
  | nil => rfl
  | cons a as ih =>
      obtain ⟨ha, has⟩ := List.forall_mem_cons.mp h
      exact (ha.bind _).orElse (ih has)

/-- Takes off pieces in a row as long as it can, but no more than `n` of them. -/
def many (r : Reader α) : Nat → Reader (List α)
  | 0 => pure []
  | n + 1 => (do
    let a ← r
    let as ← many r n
    pure (a :: as)) <|> pure []

section

variable {γ : Type} {write : γ → List Char} {value : γ → α} {Follows : List Char → Prop}
  {items : List γ}

/-- What holds of the text behind pieces in a row, and of every text that starts with one of them,
holds of the text that starts with all of them. -/
lemma follows_flatMap (hnext : ∀ x ∈ items, ∀ k, Follows (write x ++ k)) (hrest : Follows rest) :
    Follows (items.flatMap write ++ rest) := by
  cases items with
  | nil => exact hrest
  | cons x xs =>
      rw [List.flatMap_cons, List.append_assoc]
      exact hnext x List.mem_cons_self _

/-- Pieces in a row are taken off one by one, if each of them can be told from what comes behind it
and another one does not follow. -/
lemma takes_many {n : Nat} (hn : items.length ≤ n)
    (hitems : ∀ x ∈ items, ∀ k, Follows k → r.Takes (write x) (value x) k)
    (hnext : ∀ x ∈ items, ∀ k, Follows (write x ++ k)) (hrest : Follows rest)
    (hend : r.Refuses rest) :
    (many r n).Takes (items.flatMap write) (items.map value) rest := by
  induction items generalizing n with
  | nil =>
      cases n with
      | zero => exact takes_pure [] rest
      | succ n => exact (hend.bind _).orElse_takes (takes_pure [] rest)
  | cons x xs ih =>
      cases n with
      | zero => cases hn
      | succ n =>
          obtain ⟨hx, hxs⟩ := List.forall_mem_cons.mp hitems
          obtain ⟨-, hnext⟩ := List.forall_mem_cons.mp hnext
          have htail := ih (Nat.le_of_succ_le_succ hn) hxs hnext
          exact ((hx _ (follows_flatMap hnext hrest)).bind (htail.bind_pure _)).orElse _

end

end Reader

end QueryAnalysis.Text
