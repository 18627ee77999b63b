import QueryAnalysis.Expr.Render
import QueryAnalysis.Proofs.Expr.Examined
import QueryAnalysis.Proofs.Text.Reader

/-!
Expressions that can be written down: which names and literals have the form that they have in query
text, and how the text of a node is made up of those of its parts.

* `Text.keywords`, `Text.IsWord`, `Text.IsName`, `Text.IsNumber`: reserved words, and the forms of
  words, names and numbers.
* `Expr.Spelled`: all names and literals in an expression have their proper form.
* `Expr.erasePos`: the expression without its positions, which are not written.
* `Expr.toList_text_binary`, `Expr.toList_text_call`, `Expr.toList_text_case`: the text of a node.
-/

namespace QueryAnalysis

namespace Text

/-- The words that have a meaning of their own. -/
def keywords : List String :=
  ["NOT", "AND", "OR", "CASE", "WHEN", "THEN", "ELSE", "END", "EACH", "ROWID", "TRUE", "FALSE"]

/-- A word: one or more letters, digits and underscores. -/
def IsWord (w : String) : Prop :=
  w.toList ≠ [] ∧ w.toList.all isWordChar = true

instance : DecidablePred IsWord := fun w =>
  inferInstanceAs (Decidable (w.toList ≠ [] ∧ w.toList.all isWordChar = true))

/-- A name: a word that does not start with a digit and is not reserved. -/
def IsName (w : String) : Prop :=
  IsWord w ∧ w.toList.head?.all (fun c => !c.isDigit) = true ∧ w ∉ keywords

instance : DecidablePred IsName := fun w =>
  inferInstanceAs (Decidable (IsWord w ∧ w.toList.head?.all (fun c => !c.isDigit) = true ∧
    w ∉ keywords))

/-- A number: one or more digits. -/
def IsNumber (w : String) : Prop :=
  w.toList ≠ [] ∧ w.toList.all Char.isDigit = true

instance : DecidablePred IsNumber := fun w =>
  inferInstanceAs (Decidable (w.toList ≠ [] ∧ w.toList.all Char.isDigit = true))

/-- Digits may stand in a word, so a number is one. -/
lemma IsNumber.isWord {w : String} (hw : IsNumber w) : IsWord w := by
  refine ⟨hw.1, List.all_eq_true.mpr fun c hc => ?_⟩
  have hdigit : c.isDigit = true := List.all_eq_true.mp hw.2 c hc
  simp [isWordChar, Char.isAlphanum, hdigit]

end Text

open Text

namespace Expr

/-- The names that a node carries itself, and its text if it is a literal, have their proper form:
an integer is written in digits, and a truth value as one of its two names. -/
def IsSpelled : Expr → Prop
  | literal _ .integer t => IsNumber t
  | literal _ .boolean t => t = "TRUE" ∨ t = "FALSE"
  | literal _ .string _ => True
  | literal _ _ _ => False
  | ident _ n => IsName n
  | column _ t c => IsName t ∧ IsName c
  | call _ f _ => IsName f
  | _ => True

instance : DecidablePred IsSpelled
  | literal _ .integer t => inferInstanceAs (Decidable (IsNumber t))
  | literal _ .boolean t => inferInstanceAs (Decidable (t = "TRUE" ∨ t = "FALSE"))
  | ident _ n => inferInstanceAs (Decidable (IsName n))
  | column _ t c => inferInstanceAs (Decidable (IsName t ∧ IsName c))
  | call _ f _ => inferInstanceAs (Decidable (IsName f))
  | literal _ .float _ | literal _ .date _ | literal _ .timestamp _ => isFalse id
  | literal _ .string _ | hole | rowId _ | wildcard _ | unary _ _ _ | binary _ _ _ _ | index _ _ _
  | case _ _ _ _ | each _ _ => isTrue trivial

/-- All names and literals in the expression have their proper form. -/
def Spelled (e : Expr) : Prop :=
  ∀ n ∈ e.preorder, n.IsSpelled

instance (e : Expr) : Decidable e.Spelled :=
  inferInstanceAs (Decidable (∀ n ∈ e.preorder, n.IsSpelled))

mutual

/-- The expression without its positions. -/
def erasePos : Expr → Expr
  | hole => hole
  | literal _ k t => literal {} k t
  | ident _ n => ident {} n
  | rowId _ => rowId {}
  | wildcard _ => wildcard {}
  | column _ t c => column {} t c
  | unary _ op a => unary {} op (erasePos a)
  | binary _ op l r => binary {} op (erasePos l) (erasePos r)
  | call _ f args => call {} f (erasePosAll args)
  | index _ a i => index {} (erasePos a) (erasePos i)
  | case _ s bs d => case {} (erasePos s) (erasePosBranches bs) (erasePos d)
  | each _ a => each {} (erasePos a)

/-- A list of expressions without their positions. -/
def erasePosAll : List Expr → List Expr
  | [] => []
  | e :: es => erasePos e :: erasePosAll es

/-- The branches of a case without their positions. -/
def erasePosBranches : List (Branch Expr) → List (Branch Expr)
  | [] => []
  | ⟨c, r⟩ :: bs => ⟨erasePos c, erasePos r⟩ :: erasePosBranches bs

end

/-- Positions are erased from each of several expressions. -/
@[simp] lemma erasePosAll_eq (es : List Expr) : erasePosAll es = es.map erasePos := by
  induction es with
  | nil => rfl
  | cons e es ih => rw [erasePosAll, ih, List.map_cons]

/-- Positions are erased from the two parts of each branch. -/
@[simp] lemma erasePosBranches_eq (bs : List (Branch Expr)) :
    erasePosBranches bs = bs.map fun b => ⟨b.condition.erasePos, b.result.erasePos⟩ := by
  induction bs with
  | nil => rfl
  | cons b bs ih => rw [erasePosBranches, ih, List.map_cons]

/-! ### Expressions that can be read back -/

/-- The expression is complete and properly spelled. -/
structure Readable (e : Expr) : Prop where
  complete : e.Complete
  spelled : e.Spelled

variable {e c : Expr}

/-- An expression that can be read back is there. -/
lemma Readable.isHole_eq (h : e.Readable) : e.isHole = false :=
  (complete_iff.mp h.complete).1

/-- The name or literal at its root has the proper form. -/
lemma Readable.isSpelled (h : e.Readable) : e.IsSpelled :=
  h.spelled e (mem_nodes_self preorder_eq e)

/-- The parts of an expression that can be read back can be, too. -/
lemma Readable.of_mem_children (h : e.Readable) (hc : c ∈ e.children) : c.Readable where
  complete := (complete_iff.mp h.complete).2 c hc
  spelled n hn := h.spelled n (nodes_subset_of_mem_parts preorder_eq hc hn)

/-- The number of nodes. -/
def size (e : Expr) : Nat :=
  e.preorder.length

/-- A part has fewer nodes than the whole, which the recursion of the reader goes by. -/
lemma size_lt_of_mem_children (hc : c ∈ e.children) : c.size < e.size :=
  length_nodes_lt_of_mem_parts preorder_eq hc

lemma size_pos (e : Expr) : 0 < e.size :=
  List.length_pos_of_mem (mem_nodes_self preorder_eq e)

/-- Every part has at least one node. -/
lemma length_children_lt_size (e : Expr) : e.children.length < e.size := by
  have hparts (cs : List Expr) : cs.length ≤ (cs.flatMap preorder).length := by
    induction cs with
    | nil => exact Nat.zero_le _
    | cons c cs ih =>
        have hpos : 0 < c.preorder.length := c.size_pos
        rw [List.flatMap_cons, List.length_append, List.length_cons]
        omega
  rw [size, preorder_eq, List.length_cons]
  exact Nat.lt_succ_of_le (hparts e.children)

/-! ### The text of a node -/

section

variable (p : Pos)

/-- A subscript in its brackets. -/
def subscriptText (i : Expr) : List Char :=
  "[".toList ++ (i.text.toList ++ "]".toList)

/-- An argument behind another one. -/
def furtherText (a : Expr) : List Char :=
  ", ".toList ++ a.text.toList

/-- All arguments of a call. -/
def argumentsText : List Expr → List Char
  | [] => []
  | a :: as => a.text.toList ++ as.flatMap furtherText

/-- A branch with its keywords. -/
def branchChars (b : Branch Expr) : List Char :=
  (" WHEN " ++ b.condition.text ++ " THEN " ++ b.result.text).toList

/-- The pieces of a branch in their order, grouped to the right. -/
lemma branchChars_eq (b : Branch Expr) :
    branchChars b = " WHEN ".toList ++
      (b.condition.text.toList ++ (" THEN ".toList ++ b.result.text.toList)) := by
  simp only [branchChars, String.toList_append, List.append_assoc]

/-- An optional part behind the piece of text that it is announced by. -/
def optionalText (announce : String) (e : Expr) (text : String) : List Char :=
  if e.isHole then [] else announce.toList ++ text.toList

/-- An operation before its operand, which stands in parentheses if it is compound. -/
lemma toList_text_unary (op : UnaryOp) (a : Expr) :
    (unary p op a).text.toList = op.text.toList ++ a.operandText.toList := by
  rw [text, String.toList_append]
  rfl

/-- An operation between its operands, with a blank on either side. -/
lemma toList_text_binary (op : BinaryOp) (l r : Expr) :
    (binary p op l r).text.toList =
      l.operandText.toList ++ ((" ".toList ++ (op.text.toList ++ " ".toList)) ++
        r.operandText.toList) := by
  simp only [text, operandText, String.toList_append, List.append_assoc]

/-- Arguments are separated by commas, with none behind the last one. -/
lemma toList_intercalate_texts (args : List Expr) :
    (", ".intercalate (texts args)).toList = argumentsText args := by
  have hlists (l : List Char) (ls : List (List Char)) :
      ", ".toList.intercalate (l :: ls) = l ++ ls.flatMap (", ".toList ++ ·) := by
    induction ls generalizing l with
    | nil => simp
    | cons l' ls ih => rw [List.intercalate_cons_cons, ih, List.flatMap_cons]; simp
  rw [String.toList_intercalate, texts_eq, List.map_map]
  cases args with
  | nil => rfl
  | cons a as =>
      rw [List.map_cons, hlists, List.flatMap_map]
      rfl

/-- A call: the name, and the arguments in parentheses. -/
lemma toList_text_call (f : String) (args : List Expr) :
    (call p f args).text.toList =
      f.toList ++ ("(".toList ++ (argumentsText args ++ ")".toList)) := by
  rw [text]
  simp only [String.toList_append, toList_intercalate_texts, List.append_assoc]

/-- A subscript stands behind the text of its array, and so behind the subscripts of that. -/
lemma toList_operandText_index (a i : Expr) :
    (index p a i).operandText.toList = a.operandText.toList ++ i.subscriptText := by
  have htext : (index p a i).operandText = a.operandText ++ "[" ++ i.text ++ "]" := by
    rw [operandText, text]
    rfl
  simp only [htext, subscriptText, String.toList_append, List.append_assoc]

/-- The branches follow each other without a separator, since each one starts with its keyword. -/
lemma toList_branchText (bs : List (Branch Expr)) :
    (branchText bs).toList = bs.flatMap branchChars := by
  induction bs with
  | nil => rfl
  | cons b bs ih =>
      rw [branchText, String.toList_append, ih]
      rfl

/-- A case: the subject if there is one, the branches, and the default if there is one. -/
lemma toList_text_case (s : Expr) (bs : List (Branch Expr)) (d : Expr) :
    (case p s bs d).text.toList =
      "CASE".toList ++ (optionalText " " s s.operandText ++ (bs.flatMap branchChars ++
        (optionalText " ELSE " d d.text ++ " END".toList))) := by
  have hoptional (announce : String) (x : Expr) (t : String) :
      (if x.isHole then "" else announce ++ t).toList = optionalText announce x t := by
    rw [optionalText]
    split
    · rfl
    · exact String.toList_append
  rw [text]
  simp only [String.toList_append, toList_branchText, ← hoptional, List.append_assoc]
  rfl

/-- The operand of `EACH` stands in parentheses of its own. -/
lemma toList_text_each (a : Expr) :
    (each p a).text.toList =
      "EACH".toList ++ ("(".toList ++ (a.text.toList ++ ")".toList)) := by
  have htext : (each p a).text = "EACH" ++ "(" ++ a.text ++ ")" := rfl
  simp only [htext, String.toList_append, List.append_assoc]

end

end Expr

end QueryAnalysis
