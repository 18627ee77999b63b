import Mathlib.Tactic.Lemma
import QueryAnalysis.Text.Fragment

/-!
String literals delimit themselves. A literal that was written between any two pieces of text is
read back from its opening quote on, with nothing else to tell where it ends. Runs of backslashes in
the content, also before a quote or at its end, neither escape the closing quote nor let another one
close the literal.

* `ReadsInside`, `ReadsLiteral`: how a literal is read, as rules for what stands behind its opening
  quote.
* `readsInside_iff`: the reader follows these rules, and they determine what is read.
* `literal_delimited`: a literal that is written to a text is read back exactly, together with what
  is written behind it.
-/

namespace QueryAnalysis.Text

/-- **Reading a literal** from behind its opening quote on: the characters of its content up to the
first quote that is not escaped, and the text behind that quote. A backslash takes the character
after it as it is. -/
inductive ReadsInside : List Char → List Char → List Char → Prop
  | closed {rest : List Char} : ReadsInside ('"' :: rest) [] rest
  | escaped {c : Char} {text content rest : List Char} (h : ReadsInside text content rest) :
      ReadsInside ('\\' :: c :: text) (c :: content) rest
  | plain {c : Char} {text content rest : List Char} (hquote : c ≠ '"') (hbackslash : c ≠ '\\')
      (h : ReadsInside text content rest) : ReadsInside (c :: text) (c :: content) rest

/-- The text starts with a quote, and the literal that is read there has this content and is
followed by this rest. -/
def ReadsLiteral (text content rest : List Char) : Prop :=
  ∃ inside, text = '"' :: inside ∧ ReadsInside inside content rest

variable {text content rest : List Char}

/-- What the rules allow is what the reader reads. -/
lemma ReadsInside.unescape?_eq (h : ReadsInside text content rest) :
    unescape? text = some (content, rest) := by
  induction h with
  | closed => rw [unescape?]
  | escaped _ ih => rw [unescape?, ih, Option.map_some]
  | plain hquote hbackslash _ ih => rw [unescape?_cons hquote hbackslash, ih, Option.map_some]

/-- What the reader reads is allowed by the rules. -/
lemma readsInside_of_unescape?_eq (h : unescape? text = some (content, rest)) :
    ReadsInside text content rest := by
  fun_induction unescape? text generalizing content with
  | case1 => cases h
  | case2 =>
      cases h
      exact .closed
  | case3 c text ih =>
      obtain ⟨_, hread, rfl, rfl⟩ := Option.map_eq_some_iff.mp h
      exact .escaped (ih hread)
  | case4 => cases h
  | case5 c text hquote hescape hend ih =>
      obtain ⟨_, hread, rfl, rfl⟩ := Option.map_eq_some_iff.mp h
      -- a backslash has either a character behind it or nothing, and both were excluded
      have hbackslash : c ≠ '\\' := by
        cases text with
        | nil => exact fun hc => hend hc rfl
        | cons d text => exact fun hc => hescape d text hc rfl
      exact .plain hquote hbackslash (ih hread)

lemma readsInside_iff : ReadsInside text content rest ↔ unescape? text = some (content, rest) :=
  ⟨ReadsInside.unescape?_eq, readsInside_of_unescape?_eq⟩

/-- Literals are read by the rules, together with their opening quote. -/
lemma readsLiteral_iff : ReadsLiteral text content rest ↔ unquote? text = some (content, rest) := by
  constructor
  · rintro ⟨inside, rfl, h⟩
    exact readsInside_iff.mp h
  · intro h
    rw [unquote?.eq_def] at h
    split at h
    · exact ⟨_, rfl, readsInside_iff.mpr h⟩
    · cases h

namespace Fragment

/-- **String literals delimit themselves.** Write a literal behind any text, and then another text.
The result is the first text, followed by one from which a reader of literals recovers exactly the
content of the literal, and leaves exactly the text that was written last. -/
theorem literal_delimited (written content after : String) :
    ∃ text : String,
      appendTo (appendTo written (.literal content)) (.plain after) = written ++ text ∧
        unquote? text.toList = some (content.toList, after.toList) ∧
        ∀ c r, ReadsLiteral text.toList c r ↔ c = content.toList ∧ r = after.toList := by
  have hread : unquote? (quote content ++ after).toList = some (content.toList, after.toList) := by
    rw [String.toList_append, unquote?_quote]
  refine ⟨quote content ++ after, String.append_assoc, hread, fun c r => ?_⟩
  rw [readsLiteral_iff, hread, Option.some_inj, Prod.mk.injEq, eq_comm, @eq_comm _ _ r]

/-- Backslashes and a quote at the end of the content, and a text behind it that starts with a
quote. -/
example : appendTo (appendTo "path = " (.literal "C:\\\"")) (.plain "\" or") =
    "path = \"C:\\\\\\\"\"\" or" := by
  decide +kernel

end Fragment

end QueryAnalysis.Text
