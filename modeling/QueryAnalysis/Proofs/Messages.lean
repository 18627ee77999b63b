import Mathlib.Data.List.Basic
import QueryAnalysis.Diagnostic

/-!
Messages identify findings. A message is put together from numbers, fixed words and cited texts, and
nothing in the texts is escaped. But a number ends before the first character that is no digit, the
first letter behind the position tells the kind of finding, and the text that a message cites last
ends at a fixed distance from the end. Only of two tables in conflict, the name that is cited first
has to be free of the quote that ends it.

* `append_cons_inj`: what stands before the first occurrence of a separator, and what stands behind
  it.
* `Pos.text_append_inj`: a position in front of other text.
* `Diagnostic.kind_eq_of_description_eq`, `Diagnostic.eq_of_details_eq`: the first letter of a
  description tells the kind of finding, and what stands behind the fixed words tells the rest.
* `Diagnostic.message_inj`, `Diagnostic.listing_inj`: a message determines the finding, and the
  lines of a listing determine all of them.
* `Diagnostic.messages_identify`: both as one statement.
-/

namespace QueryAnalysis

/-- A separator that does not occur before its place divides a list in one way only. -/
lemma append_cons_inj {α : Type} {c : α} {x y s t : List α} (hx : c ∉ x) (hy : c ∉ y)
    (h : x ++ c :: s = y ++ c :: t) : x = y ∧ s = t := by
  induction x generalizing y with
  | nil =>
      cases y with
      | nil => exact ⟨rfl, (List.cons.inj h).2⟩
      | cons d y => exact absurd ((List.cons.inj h).1 ▸ List.mem_cons_self) hy
  | cons d x ih =>
      cases y with
      | nil => exact absurd ((List.cons.inj h).1 ▸ List.mem_cons_self) hx
      | cons e y =>
          obtain ⟨rfl, htail⟩ := List.cons.inj h
          obtain ⟨rfl, hst⟩ := ih (fun hc => hx (List.mem_cons_of_mem _ hc))
            (fun hc => hy (List.mem_cons_of_mem _ hc)) htail
          exact ⟨rfl, hst⟩

/-! ### Numbers and positions -/

section

variable {c : Char}

/-- Decimal digits are digits, and nothing else. -/
lemma notMem_toDigits (hc : c.isDigit = false) (n : Nat) : c ∉ Nat.toDigits 10 n := by
  intro hmem
  have hdigit := Nat.isDigit_of_mem_toDigits (by decide) (by decide) hmem
  rw [hc] at hdigit
  cases hdigit

/-- A number can be read off its decimal digits. -/
lemma toDigits_inj {m n : Nat} (h : Nat.toDigits 10 m = Nat.toDigits 10 n) : m = n := by
  have hvalue := congrArg (fun ds => Nat.ofDigitChars 10 ds 0) h
  simpa only [Nat.ofDigitChars_ten_toDigits] using hvalue

namespace Pos

lemma toList_text (p : Pos) :
    p.text.toList = Nat.toDigits 10 p.line ++ ':' :: Nat.toDigits 10 p.column := by
  simp [text, Nat.toList_repr]

/-- A position in front of a character that is no digit is determined, and so is the text behind
it. -/
lemma text_append_inj {p q : Pos} {s t : List Char} (hc : c.isDigit = false)
    (h : p.text.toList ++ c :: s = q.text.toList ++ c :: t) : p = q ∧ s = t := by
  obtain ⟨line, column⟩ := p
  obtain ⟨line', column'⟩ := q
  simp only [toList_text, List.append_assoc, List.cons_append] at h
  obtain ⟨hline, h⟩ := append_cons_inj (notMem_toDigits (by decide) line)
    (notMem_toDigits (by decide) line') h
  obtain ⟨hcolumn, hrest⟩ := append_cons_inj (notMem_toDigits hc column)
    (notMem_toDigits hc column') h
  rw [toDigits_inj hline, toDigits_inj hcolumn]
  exact ⟨rfl, hrest⟩

/-- Positions are written with digits and colons only. -/
lemma notMem_text (hc : c.isDigit = false) (hcolon : c ≠ ':') (p : Pos) : c ∉ p.text.toList := by
  rw [toList_text, List.mem_append, List.mem_cons]
  rintro (hline | rfl | hcolumn)
  · exact notMem_toDigits hc _ hline
  · exact hcolon rfl
  · exact notMem_toDigits hc _ hcolumn

end Pos

end

/-! ### Descriptions -/

namespace Ty

/-- The names of types are written with letters only. -/
lemma notMem_name {c : Char} (hc : c.isAlpha = false) (t : Ty) : c ∉ t.name.toList := by
  have hletters : t.name.toList.all Char.isAlpha = true := by cases t <;> rfl
  intro hmem
  have hletter := List.all_eq_true.mp hletters c hmem
  rw [hc] at hletter
  cases hletter

/-- Different types have different names. -/
lemma name_inj {s t : Ty} (h : s.name = t.name) : s = t := by
  revert h
  cases s <;> cases t <;> simp [name]

end Ty

namespace Diagnostic

/-- The openings start with different letters. -/
lemma Kind.eq_of_head?_opening {k k' : Kind}
    (h : k.opening.toList.head? = k'.opening.toList.head?) : k = k' := by
  revert h
  cases k <;> cases k' <;> simp [opening]

lemma Kind.opening_ne_nil (k : Kind) : k.opening.toList ≠ [] := by
  cases k <;> simp [opening]

/-- The names and other pieces of text that the finding is about. -/
def texts : Diagnostic → List String
  | typeMismatch _ _ _ => []
  | badCall text _ | illegalExpression text _ | ambiguousColumn text _
  | unknownCorrelation text _ => [text]
  | duplicateTable first second _ _ => [first, second]

/-- Of two tables in conflict, the name of the first one contains no single quote. -/
def Delimited : Diagnostic → Prop
  | duplicateTable first _ _ _ => '\x27' ∉ first.toList
  | _ => True

instance : DecidablePred Delimited
  | duplicateTable first _ _ _ => inferInstanceAs (Decidable ('\x27' ∉ first.toList))
  | typeMismatch _ _ _ | badCall _ _ | illegalExpression _ _ | ambiguousColumn _ _
  | unknownCorrelation _ _ => isTrue trivial

/-- None of the texts goes over a line break. -/
def SingleLine (d : Diagnostic) : Prop :=
  ∀ t ∈ d.texts, '\n' ∉ t.toList

instance : DecidablePred SingleLine := fun d =>
  inferInstanceAs (Decidable (∀ t ∈ d.texts, '\n' ∉ t.toList))

variable {a b : Diagnostic}

/-- The description tells the kind. -/
lemma kind_eq_of_description_eq (h : a.description = b.description) : a.kind = b.kind := by
  have hhead (d : Diagnostic) :
      d.description.toList.head? = d.kind.opening.toList.head? := by
    rw [description, String.toList_append, List.head?_append_of_ne_nil _ d.kind.opening_ne_nil]
  apply Kind.eq_of_head?_opening
  rw [← hhead a, ← hhead b, h]

lemma toList_details_typeMismatch (s t : Ty) (p : Pos) :
    (typeMismatch s t p).details.toList =
      s.name.toList ++ ',' :: (" found ".toList ++ t.name.toList) := by
  simp [details]

/-- Both types can be read off the details of a mismatch, since the first one ends at a comma. -/
lemma details_typeMismatch_inj {s s' t t' : Ty} {p p' : Pos}
    (h : (typeMismatch s t p).details = (typeMismatch s' t' p').details) : s = s' ∧ t = t' := by
  have hchars := congrArg String.toList h
  rw [toList_details_typeMismatch, toList_details_typeMismatch] at hchars
  obtain ⟨hs, hfound⟩ := append_cons_inj (s.notMem_name (by decide)) (s'.notMem_name (by decide))
    hchars
  have ht := List.append_cancel_left hfound
  exact ⟨Ty.name_inj (String.toList_injective hs), Ty.name_inj (String.toList_injective ht)⟩

lemma toList_details_duplicateTable (first second : String) (p q : Pos) :
    (duplicateTable first second p q).details.toList =
      first.toList ++ '\x27' :: (" (also at ".toList ++ (q.text.toList ++ ' ' ::
        ("as '".toList ++ (second.toList ++ "')".toList)))) := by
  simp [details]

/-- The first name ends at its quote and the position before the blank behind it. What is left is
the second name between fixed words, where it may contain anything. -/
lemma details_duplicateTable_inj {first first' second second' : String} {p p' q q' : Pos}
    (hfirst : '\x27' ∉ first.toList) (hfirst' : '\x27' ∉ first'.toList)
    (h : (duplicateTable first second p q).details =
      (duplicateTable first' second' p' q').details) :
    first = first' ∧ second = second' ∧ q = q' := by
  have hchars := congrArg String.toList h
  rw [toList_details_duplicateTable, toList_details_duplicateTable] at hchars
  obtain ⟨hname, hbehind⟩ := append_cons_inj hfirst hfirst' hchars
  obtain ⟨hpos, hrest⟩ := Pos.text_append_inj (by decide) (List.append_cancel_left hbehind)
  have hsecond := List.append_cancel_right (List.append_cancel_left hrest)
  exact ⟨String.toList_injective hname, String.toList_injective hsecond, hpos⟩

/-- Among the findings of one kind at one place, the details tell which one it is. -/
lemma eq_of_details_eq (ha : a.Delimited) (hb : b.Delimited) (hkind : a.kind = b.kind)
    (hpos : a.pos = b.pos) (h : a.details = b.details) : a = b := by
  cases a with
  | typeMismatch s t p =>
      cases b <;> cases hkind
      cases hpos
      obtain ⟨rfl, rfl⟩ := details_typeMismatch_inj h
      rfl
  | badCall text p | illegalExpression text p | ambiguousColumn text p
  | unknownCorrelation text p =>
      cases b <;> cases hkind
      cases hpos
      -- the words behind the text are the same in all findings of the kind
      rw [(String.append_left_inj _).mp h]
  | duplicateTable first second p q =>
      cases b <;> cases hkind
      cases hpos
      obtain ⟨rfl, rfl, rfl⟩ := details_duplicateTable_inj ha hb h
      rfl

/-! ### Messages and listings -/

lemma toList_message (d : Diagnostic) :
    d.message.toList = d.pos.text.toList ++ ':' :: ' ' :: d.description.toList := by
  simp [message]

/-- A message determines the finding. -/
lemma message_inj (ha : a.Delimited) (hb : b.Delimited) (h : a.message = b.message) : a = b := by
  have hchars := congrArg String.toList h
  rw [toList_message, toList_message] at hchars
  -- the position ends at the colon behind it, and then the first letter tells the kind
  obtain ⟨hpos, hrest⟩ := Pos.text_append_inj (by decide) hchars
  have hdescription : a.description = b.description :=
    String.toList_injective (List.cons.inj hrest).2
  have hkind := kind_eq_of_description_eq hdescription
  rw [description, description, hkind, String.append_right_inj] at hdescription
  exact eq_of_details_eq ha hb hkind hpos hdescription

/-- A message is one line, unless a text in it goes over a line break. -/
lemma newline_notMem_message (ha : a.SingleLine) : '\n' ∉ a.message.toList := by
  have hpos (p : Pos) : '\n' ∉ p.text.toList := p.notMem_text (by decide) (by decide)
  have hopening : '\n' ∉ a.kind.opening.toList := by cases a <;> simp [kind, Kind.opening]
  have hdetails : '\n' ∉ a.details.toList := by
    cases a with
    | typeMismatch s t p => simp [details, Ty.notMem_name]
    | duplicateTable first second p q =>
        simp only [SingleLine, texts, List.forall_mem_cons] at ha
        simp [details, hpos, ha]
    | _ =>
        simp only [SingleLine, texts, List.forall_mem_singleton] at ha
        simp [details, ha]
  simp [toList_message, description, hpos, hopening, hdetails]

lemma toList_listing_cons (d : Diagnostic) (ds : List Diagnostic) :
    (listing (d :: ds)).toList = d.message.toList ++ '\n' :: (listing ds).toList := by
  simp [listing, String.toList_join]

/-- The lines of a listing determine the findings. -/
lemma listing_inj {as bs : List Diagnostic} (has : ∀ a ∈ as, a.Delimited ∧ a.SingleLine)
    (hbs : ∀ b ∈ bs, b.Delimited ∧ b.SingleLine) (h : listing as = listing bs) : as = bs := by
  induction as generalizing bs with
  | nil =>
      cases bs with
      | nil => rfl
      | cons b bs =>
          have hchars := congrArg String.toList h
          simp [listing] at hchars
  | cons a as ih =>
      cases bs with
      | nil =>
          have hchars := congrArg String.toList h
          simp [listing] at hchars
      | cons b bs =>
          obtain ⟨⟨ha, haline⟩, has⟩ := List.forall_mem_cons.mp has
          obtain ⟨⟨hb, hbline⟩, hbs⟩ := List.forall_mem_cons.mp hbs
          have hchars := congrArg String.toList h
          rw [toList_listing_cons, toList_listing_cons] at hchars
          obtain ⟨hmessage, hrest⟩ :=
            append_cons_inj (newline_notMem_message haline) (newline_notMem_message hbline) hchars
          rw [message_inj ha hb (String.toList_injective hmessage),
            ih has hbs (String.toList_injective hrest)]

/-- **Messages identify findings.** Two findings have the same message exactly if they are the same,
whatever their positions and texts are, as long as the name of the first one of two tables in
conflict contains no single quote. Two lists of such findings have the same listing exactly if they
are the same, as long as no text contains a line break. -/
theorem messages_identify :
    (∀ a b : Diagnostic, a.Delimited → b.Delimited → (a.message = b.message ↔ a = b)) ∧
      ∀ as bs : List Diagnostic, (∀ a ∈ as, a.Delimited ∧ a.SingleLine) →
        (∀ b ∈ bs, b.Delimited ∧ b.SingleLine) → (listing as = listing bs ↔ as = bs) :=
  ⟨fun _ _ ha hb => ⟨message_inj ha hb, congrArg message⟩,
    fun _ _ has hbs => ⟨listing_inj has hbs, congrArg listing⟩⟩

/-- A conflict in which a name goes on like the message does behind the name before. -/
def bidsConflict : Diagnostic :=
  .duplicateTable "bids" "bids' (also at 2:2 as 'asks" ⟨1, 1⟩ ⟨1, 9⟩

/-- A conflict whose message ends with the same words. -/
def asksConflict : Diagnostic :=
  .duplicateTable "bids" "asks" ⟨1, 1⟩ ⟨2, 2⟩

/-- The name of the second table in the first conflict contains what the message says in between,
quotes included. It is only the first name that has to be free of quotes, and so both messages and
both listings differ. -/
theorem bidsConflict_identified :
    (∀ d ∈ [bidsConflict, asksConflict], d.Delimited ∧ d.SingleLine) ∧
      bidsConflict.message ≠ asksConflict.message ∧
      listing [bidsConflict, asksConflict] ≠ listing [asksConflict, bidsConflict] := by
  have hall : ∀ d ∈ [bidsConflict, asksConflict], d.Delimited ∧ d.SingleLine := by decide
  have hne : bidsConflict ≠ asksConflict := by decide
  refine ⟨hall, fun h => ?_, fun h => ?_⟩
  · have hbids := (hall bidsConflict (by decide)).1
    have hasks := (hall asksConflict (by decide)).1
    exact hne ((messages_identify.1 _ _ hbids hasks).mp h)
  · have hreversed : ∀ d ∈ [asksConflict, bidsConflict], d.Delimited ∧ d.SingleLine :=
      fun d hd => hall d (List.mem_reverse.mp hd)
    exact hne (List.cons.inj ((messages_identify.2 _ _ hall hreversed).mp h)).1

/-- With a quote in the name that is cited first, it cannot be told where that name ends. -/
example :
    (duplicateTable "bids" "q' (also at 2:2 as 'asks" ⟨1, 1⟩ ⟨1, 9⟩).message =
      (duplicateTable "bids' (also at 1:9 as 'q" "asks" ⟨1, 1⟩ ⟨2, 2⟩).message := by
  decide +kernel

end Diagnostic

end QueryAnalysis
