/-!
String literals in query text. A literal stands between double quotes, and inside it a backslash
makes the character after it stand for itself. Exactly the double quote and the backslash are
written that way.

* `quote`: the written form of a text.
* `unquote?`: reads one literal off the front of a text, and returns its content with what follows
  it.
-/

namespace QueryAnalysis.Text

/-- The content of a literal as it is written between the quotes. -/
def escape : List Char → List Char
  | [] => []
  | c :: cs => if c = '"' ∨ c = '\\' then '\\' :: c :: escape cs else c :: escape cs

/-- A text as a string literal. -/
def quote (s : String) : String :=
  "\"" ++ String.ofList (escape s.toList) ++ "\""

/-- Reads up to the first quote that is not escaped. There is no result if there is no such one. -/
def unescape? : List Char → Option (List Char × List Char)
  | [] => none
  | '"' :: rest => some ([], rest)
  | '\\' :: c :: rest => (unescape? rest).map fun r => (c :: r.1, r.2)
  | ['\\'] => none
  | c :: rest => (unescape? rest).map fun r => (c :: r.1, r.2)

/-- Reads a string literal off the front of a text: its content, and the text behind it. -/
def unquote? : List Char → Option (List Char × List Char)
  | '"' :: rest => unescape? rest
  | _ => none

@[simp] theorem toList_quote (s : String) :
    (quote s).toList = '"' :: (escape s.toList ++ ['"']) := by
  simp [quote]

/-- A character that is neither a quote nor a backslash stands for itself. -/
theorem unescape?_cons {c : Char} (hquote : c ≠ '"') (hbackslash : c ≠ '\\') (rest : List Char) :
    unescape? (c :: rest) = (unescape? rest).map fun r => (c :: r.1, r.2) := by
  rw [unescape?.eq_def]
  split <;> simp_all

/-- What was escaped is read back up to the closing quote, whatever stands behind it. -/
theorem unescape?_escape (cs rest : List Char) :
    unescape? (escape cs ++ '"' :: rest) = some (cs, rest) := by
  induction cs with
  | nil => simp [escape, unescape?]
  | cons c cs ih =>
    rw [escape]
    split
    · simp [unescape?, ih]
    · next hc =>
      obtain ⟨hquote, hbackslash⟩ := not_or.mp hc
      rw [List.cons_append, unescape?_cons hquote hbackslash, ih, Option.map_some]

/-- A quoted text is read back, whatever stands behind it. -/
theorem unquote?_quote (s : String) (rest : List Char) :
    unquote? ((quote s).toList ++ rest) = some (s.toList, rest) := by
  rw [toList_quote, List.cons_append, List.append_assoc]
  exact unescape?_escape s.toList rest

end QueryAnalysis.Text
