import QueryAnalysis.Proofs.Expr.Spelling

/-!
A reader of expressions, and what it makes of operands.

* `Expr.readExpr`: the reader of expressions of up to a given number of nodes. It is made from the
  one for fewer nodes, which reads the expressions in brackets, parentheses and branches.
* `Expr.OperandEnds`, `Expr.Ends`: the text does not go on with something that could belong to the
  operand or the expression before it.
* `Expr.Reads`: a reader reads expressions back from their text, without their positions.
* `Expr.Reads.takes_readPrimary`, `Expr.Reads.takes_readOperand`: then so does the reader of
  operands that is made from it.
-/

namespace QueryAnalysis

open Text Text.Reader

/-- All operations with two operands. If the text of one starts with that of another, then it comes
first. -/
def BinaryOp.all : List BinaryOp :=
  [.and, .or, .lessOrEqual, .less, .greaterOrEqual, .greater, .equal, .notEqual, .plus, .minus,
    .times, .divide, .power]

namespace Expr

/-! ### The reader -/

/-- The expression that a single word stands for. -/
def leaf? (w : String) : Option Expr :=
  if w = "ROWID" then some (rowId {})
  else if w = "TRUE" ∨ w = "FALSE" then some (literal {} .boolean w)
  else if IsNumber w then some (literal {} .integer w)
  else if IsName w then some (ident {} w)
  else none

/-- Reads an operation between its operands. -/
def readInfix : Reader BinaryOp := do
  skip " "
  let op ← oneOf BinaryOp.text BinaryOp.all
  skip " "
  pure op

section

variable (read : Reader Expr) (n : Nat)

/-- Reads a subscript in its brackets. -/
def readSubscript : Reader Expr := do
  skip "["
  let i ← read
  skip "]"
  pure i

/-- Reads the arguments of a call. -/
def readArguments : Reader (List Expr) :=
  (do
    let a ← read
    let as ← many (do skip ", "; read) n
    pure (a :: as)) <|> pure []

/-- Reads what stands in the parentheses behind a word, which says what it is for. -/
def readEnclosed (w : String) : Reader Expr :=
  if w = "EACH" then (do
    let a ← read
    pure (each {} a))
  else (do
    let as ← readArguments read n
    pure (call {} w as))

/-- Reads on behind a word: a column of a table, something in parentheses, or nothing more. -/
def readNamed (w : String) : Reader Expr :=
  (do
    skip "."
    let c ← word
    pure (column {} w c)) <|>
  (do
    skip "("
    let e ← readEnclosed read n w
    skip ")"
    pure e) <|>
  (match leaf? w with
    | some e => pure e
    | none => failure)

/-- Reads an operand that starts with a mark: one in parentheses, a wildcard or a string. -/
def readMarked : Reader Expr :=
  (do
    skip "("
    let e ← read
    skip ")"
    pure e) <|>
  (do
    skip "*"
    pure (wildcard {})) <|>
  (do
    let t ← quoted
    pure (literal {} .string t))

/-- Reads an operand up to its first subscript. -/
def readPrimary : Reader Expr :=
  readMarked read <|>
  (do
    let w ← word
    readNamed read n w)

/-- Reads an operand with all of its subscripts. -/
def readOperand : Reader Expr := do
  let a ← readPrimary read n
  let is ← many (readSubscript read) n
  pure (is.foldl (index {}) a)

/-- Reads a branch of a case. -/
def readBranch : Reader (Branch Expr) := do
  skip " WHEN "
  let c ← read
  skip " THEN "
  let r ← read
  pure ⟨c, r⟩

/-- Reads an optional part behind the piece of text that it is announced by. -/
def readOptional (announce : String) (part : Reader Expr) : Reader Expr :=
  (do
    skip announce
    part) <|> pure hole

/-- Reads a case. -/
def readCase : Reader Expr := do
  skip "CASE"
  let s ← readOptional " " (readOperand read n)
  let bs ← many (readBranch read) n
  let d ← readOptional " ELSE " read
  skip " END"
  pure (case {} s bs d)

/-- Reads an operation before its operand. -/
def readUnary (op : UnaryOp) : Reader Expr := do
  skip op.text
  let a ← readOperand read n
  pure (unary {} op a)

/-- Reads an operation and its right operand behind the left one, if they follow. -/
def readRight (l : Expr) : Reader Expr :=
  (do
    let op ← readInfix
    let r ← readOperand read n
    pure (binary {} op l r)) <|> pure l

/-- Reads an operand, or an operation between two. -/
def readBinary : Reader Expr := do
  let l ← readOperand read n
  readRight read n l

end

/-- Reads an expression of at most `n` nodes. -/
def readExpr : Nat → Reader Expr
  | 0 => failure
  | n + 1 =>
    readBinary (readExpr n) n <|> readUnary (readExpr n) n .not <|>
      readUnary (readExpr n) n .negate <|> readCase (readExpr n) n

/-! ### Where an expression ends -/

/-- The text does not go on with something that could belong to a word or a call. -/
def Stops (rest : List Char) : Prop :=
  ∀ c ∈ rest.head?, isWordChar c = false ∧ c ≠ '.' ∧ c ≠ '('

/-- The text does not go on with something that could belong to an operand. -/
structure OperandEnds (rest : List Char) : Prop where
  stops : Stops rest
  no_subscript : rest.head? ≠ some '['

/-- The text does not go on with something that could belong to an expression. -/
structure Ends (rest : List Char) : Prop extends OperandEnds rest where
  no_operation : readInfix.Refuses rest

variable {rest : List Char}

lemma stops_cons {c : Char} : Stops (c :: rest) ↔ isWordChar c = false ∧ c ≠ '.' ∧ c ≠ '(' := by
  simp [Stops]

/-- A blank ends an operand. -/
lemma operandEnds_blank : OperandEnds (' ' :: rest) := ⟨stops_cons.mpr (by decide), by simp⟩

lemma ends_nil : Ends [] := ⟨⟨by simp [Stops], by simp⟩, rfl⟩

/-- Closing marks and commas end an expression. -/
lemma ends_mark {c : Char} (hc : c ∈ [')', ']', ',']) : Ends (c :: rest) := by
  simp only [List.mem_cons, List.not_mem_nil, or_false] at hc
  obtain rfl | rfl | rfl := hc
  all_goals
    exact ⟨⟨stops_cons.mpr (by decide), by simp⟩, (skip_refuses (by decide) (by simp)).bind _⟩

/-- The keywords between the parts of a case end an expression: no operation starts like them. -/
lemma ends_keyword {c : Char} (hc : c ∈ ['W', 'T', 'E']) : Ends (' ' :: c :: rest) := by
  have hfirst (op : BinaryOp) : some c ≠ op.text.toList.head? := by
    simp only [List.mem_cons, List.not_mem_nil, or_false] at hc
    obtain rfl | rfl | rfl := hc <;> cases op <;> decide
  have hop : (oneOf BinaryOp.text BinaryOp.all).Refuses (c :: rest) :=
    oneOf_refuses fun op _ => skip_refuses (by cases op <;> decide) (hfirst op)
  exact ⟨operandEnds_blank, (takes_skip " " (c :: rest)).bind_refuses (hop.bind _)⟩

/-- An operation is read back with the blanks around it. -/
lemma takes_readInfix (op : BinaryOp) (rest : List Char) :
    readInfix.Takes (" ".toList ++ (op.text.toList ++ " ".toList)) op rest := by
  have hop : (oneOf BinaryOp.text BinaryOp.all).Takes op.text.toList op (" ".toList ++ rest) := by
    cases op <;> exact rfl
  exact (takes_skip " " _).bind (hop.bind ((takes_skip " " rest).bind_pure _))

/-! ### Single words -/

/-- A word of digits is read as an integer. -/
lemma leaf?_of_isNumber {w : String} (hw : IsNumber w) :
    leaf? w = some (literal {} .integer w) := by
  have hne {k : String} (hk : ¬ IsNumber k) : w ≠ k := fun h => hk (h ▸ hw)
  rw [leaf?, if_neg (hne (by decide)), if_neg (not_or.mpr ⟨hne (by decide), hne (by decide)⟩),
    if_pos hw]

/-- A name is read as an identifier, because it is neither a keyword nor a number. -/
lemma leaf?_of_isName {w : String} (hw : IsName w) : leaf? w = some (ident {} w) := by
  have hne {k : String} (hk : k ∈ keywords) : w ≠ k := fun h => hw.2.2 (h ▸ hk)
  have hnumber : ¬ IsNumber w := by
    intro h
    have hfirst := hw.2.1
    cases hcs : w.toList with
    | nil => exact h.1 hcs
    | cons c cs =>
        have hdigit : c.isDigit = true := List.all_eq_true.mp h.2 c (by simp [hcs])
        simp [hcs, hdigit] at hfirst
  rw [leaf?, if_neg (hne (by decide)), if_neg (not_or.mpr ⟨hne (by decide), hne (by decide)⟩),
    if_neg hnumber, if_pos hw]

/-! ### Operands -/

/-- The expression can be read back from its text, and has at most `n` nodes. -/
structure Fits (n : Nat) (e : Expr) : Prop extends Readable e where
  size_le : e.size ≤ n

/-- The reader reads all expressions of at most `n` nodes back, and it makes nothing of a text that
starts with a closing parenthesis. -/
structure Reads (read : Reader Expr) (n : Nat) : Prop where
  takes : ∀ {e : Expr}, e.Fits n → ∀ {rest}, Ends rest → read.Takes e.text.toList e.erasePos rest
  refuses : ∀ rest, read.Refuses (')' :: rest)

variable {read : Reader Expr} {n : Nat} {e c : Expr}

/-- The parts of an expression have at least one node less. -/
lemma Fits.of_mem_children (h : e.Fits (n + 1)) (hc : c ∈ e.children) : c.Fits n where
  toReadable := h.toReadable.of_mem_children hc
  size_le := Nat.le_of_lt_succ (Nat.lt_of_lt_of_le (size_lt_of_mem_children hc) h.size_le)

/-- Neither a column nor a call follows where a word stops. -/
lemma Stops.skip_refuses (hrest : Stops rest) :
    (skip ".").Refuses rest ∧ (skip "(").Refuses rest :=
  ⟨Reader.skip_refuses (by decide) fun h => (hrest _ h).2.1 rfl,
    Reader.skip_refuses (by decide) fun h => (hrest _ h).2.2 rfl⟩

lemma Stops.readNamed_refuses {w : String} (hrest : Stops rest) (hw : leaf? w = none) :
    (readNamed read n w).Refuses rest := by
  obtain ⟨hdot, hopen⟩ := hrest.skip_refuses
  refine (hdot.bind _).orElse ((hopen.bind _).orElse ?_)
  rw [hw]
  rfl

lemma Stops.takes_readNamed {w : String} (hrest : Stops rest) (hw : leaf? w = some e) :
    (readNamed read n w).Takes [] e rest := by
  obtain ⟨hdot, hopen⟩ := hrest.skip_refuses
  refine (hdot.bind _).orElse_takes ((hopen.bind _).orElse_takes ?_)
  rw [hw]
  exact takes_pure e rest

/-- Marked operands start with a parenthesis, a star or a quotation mark. -/
lemma readMarked_refuses {s : List Char} (hs : ∀ c ∈ s.head?, c ∉ ['(', '*', '"']) :
    (readMarked read).Refuses s := by
  have hparen : (skip "(").Refuses s := skip_refuses (by decide) fun h => hs _ h (by decide)
  have hstar : (skip "*").Refuses s := skip_refuses (by decide) fun h => hs _ h (by decide)
  have hquoted : quoted.Refuses s := quoted_refuses fun h => hs _ h (by decide)
  exact (hparen.bind _).orElse ((hstar.bind _).orElse (hquoted.bind _))

/-- A word that stands for nothing is not an operand. -/
lemma readOperand_refuses {w : String} (hw : w.toList.all isWordChar = true)
    (hleaf : leaf? w = none) (hrest : Stops rest)
    (hmark : ∀ c ∈ (w.toList ++ rest).head?, c ∉ ['(', '*', '"']) :
    (readOperand read n).Refuses (w.toList ++ rest) := by
  have hword : word.Takes w.toList w rest := takes_word hw fun c hc => (hrest c hc).1
  have hnamed : (readNamed read n w).Refuses rest := hrest.readNamed_refuses hleaf
  exact ((readMarked_refuses hmark).orElse (hword.bind_refuses hnamed)).bind _

/-- An operand that starts with a word is read as what stands behind it makes of that word. -/
lemma takes_readPrimary_of_word {w : String} {t : List Char} (hw : IsWord w)
    (hrest : ∀ c ∈ (t ++ rest).head?, isWordChar c = false)
    (ht : (readNamed read n w).Takes t e rest) :
    (readPrimary read n).Takes (w.toList ++ t) e rest := by
  have hmark : (readMarked read).Refuses (w.toList ++ t ++ rest) := by
    refine readMarked_refuses fun c hc => ?_
    have hmem : c ∈ w.toList := by
      cases hcs : w.toList with
      | nil => exact absurd hcs hw.1
      | cons d ds => simp_all
    have hchar : isWordChar c = true := List.all_eq_true.mp hw.2 c hmem
    simp only [List.mem_cons, List.not_mem_nil, or_false]
    rintro (rfl | rfl | rfl) <;> exact absurd hchar (by decide)
  exact hmark.orElse_takes ((takes_word hw.2 hrest).bind ht)

/-- A word that stands for itself is read as an operand. -/
lemma takes_readPrimary_leaf {w : String} (hw : IsWord w) (hleaf : leaf? w = some e)
    (hrest : Stops rest) :
    (readPrimary read n).Takes w.toList e rest := by
  have h : (readPrimary read n).Takes (w.toList ++ []) e rest :=
    takes_readPrimary_of_word hw (fun c hc => (hrest c hc).1) (hrest.takes_readNamed hleaf)
  rwa [List.append_nil] at h

/-- The arguments of a call are read back up to the closing parenthesis. -/
lemma Reads.takes_readArguments (hread : Reads read n) {args : List Expr}
    (hargs : ∀ a ∈ args, a.Fits n) (hlength : args.length ≤ n) :
    (readArguments read n).Takes (argumentsText args) (args.map erasePos) (")".toList ++ rest) := by
  cases args with
  | nil => exact ((hread.refuses rest).bind _).orElse_takes (takes_pure [] _)
  | cons a as =>
      obtain ⟨ha, has⟩ := List.forall_mem_cons.mp hargs
      have hclose : Ends (")".toList ++ rest) := ends_mark (by decide)
      have hnext : ∀ x ∈ as, ∀ k, Ends (x.furtherText ++ k) := fun x _ k => ends_mark (by decide)
      have hmany : (many (do skip ", "; read) n).Takes (as.flatMap furtherText) (as.map erasePos)
          (")".toList ++ rest) := by
        refine takes_many (Nat.le_of_succ_le hlength) ?_ hnext hclose ?_
        · intro x hx k hk
          exact (takes_skip ", " _).bind (hread.takes (has x hx) hk)
        · exact (skip_refuses (by decide) (by simp)).bind _
      exact ((hread.takes ha (follows_flatMap hnext hclose)).bind (hmany.bind_pure _)).orElse _

/-- An operation or a case is read back from its text in parentheses. -/
lemma Reads.takes_readPrimary_compound (hread : Reads read n) (he : e.Fits n)
    (hcompound : e.isCompound = true) :
    (readPrimary read n).Takes e.operandText.toList e.erasePos rest := by
  have htext : e.operandText.toList = "(".toList ++ (e.text.toList ++ ")".toList) := by
    rw [operandText, enclose, if_pos hcompound]
    simp only [String.toList_append, List.append_assoc]
  have hclose : Ends (")".toList ++ rest) := ends_mark (by decide)
  rw [htext]
  exact (((takes_skip "(" _).bind
    ((hread.takes he hclose).bind ((takes_skip ")" rest).bind_pure _))).orElse _).orElse _

/-- A column of a table is read back, with a dot in between. -/
lemma takes_readPrimary_column {p : Pos} {t c : String} (ht : IsName t) (hc : IsName c)
    (hrest : Stops rest) :
    (readPrimary read n).Takes (column p t c).text.toList (column {} t c) rest := by
  have htext : (column p t c).text.toList = t.toList ++ (".".toList ++ c.toList) := by
    simp only [text, qualified, String.toList_append, List.append_assoc]
  have hword : word.Takes c.toList c rest := takes_word hc.1.2 fun d hd => (hrest d hd).1
  have hnamed : (readNamed read n t).Takes (".".toList ++ c.toList) (column {} t c) rest :=
    ((takes_skip "." _).bind (hword.bind_pure _)).orElse _
  rw [htext]
  exact takes_readPrimary_of_word ht.1 (by simp [isWordChar]) hnamed

/-- A word and parentheses are read as what the word makes of the text between them. -/
lemma takes_readPrimary_enclosed {w : String} {s : List Char} (hw : IsWord w)
    (hs : (readEnclosed read n w).Takes s e (")".toList ++ rest)) :
    (readPrimary read n).Takes (w.toList ++ ("(".toList ++ (s ++ ")".toList))) e rest := by
  have hdot : (skip ".").Refuses ("(".toList ++ (s ++ ")".toList) ++ rest) :=
    skip_refuses (by decide) (by simp)
  have hnamed : (readNamed read n w).Takes ("(".toList ++ (s ++ ")".toList)) e rest :=
    (hdot.bind _).orElse_takes
      (((takes_skip "(" _).bind (hs.bind ((takes_skip ")" rest).bind_pure _))).orElse _)
  exact takes_readPrimary_of_word hw (by simp [isWordChar]) hnamed

/-- A call is read back. The name of a function is no keyword, so it is not taken for `EACH`. -/
lemma Reads.takes_readPrimary_call (hread : Reads read n) {p : Pos} {f : String}
    {args : List Expr} (he : (call p f args).Fits (n + 1)) :
    (readPrimary read n).Takes (call p f args).text.toList (call p f args).erasePos rest := by
  have hf : IsName f := he.isSpelled
  have heach : f ≠ "EACH" := fun h => hf.2.2 (h ▸ by decide)
  have hlength : args.length < (call p f args).size := length_children_lt_size (call p f args)
  have hargs : (readArguments read n).Takes (argumentsText args) (args.map erasePos)
      (")".toList ++ rest) :=
    hread.takes_readArguments (fun a ha => he.of_mem_children ha)
      (Nat.le_of_lt_succ (Nat.lt_of_lt_of_le hlength he.size_le))
  rw [toList_text_call, erasePos, erasePosAll_eq]
  refine takes_readPrimary_enclosed hf.1 ?_
  rw [readEnclosed, if_neg heach]
  exact hargs.bind_pure _

/-- An expression in `EACH` is read back. -/
lemma Reads.takes_readPrimary_each (hread : Reads read n) {p : Pos} {a : Expr} (ha : a.Fits n) :
    (readPrimary read n).Takes (each p a).text.toList (each p a).erasePos rest := by
  rw [toList_text_each, erasePos]
  refine takes_readPrimary_enclosed (by decide) ?_
  exact (hread.takes ha (ends_mark (by decide))).bind_pure _

/-- An operand without subscripts is read back. If it is not in parentheses, then it may have one
more node than the expressions in it. -/
lemma Reads.takes_readPrimary (hread : Reads read n) (he : e.Fits (n + 1))
    (hcompound : e.isCompound = true → e.size ≤ n) (hindex : e.subscript? = none)
    (hrest : Stops rest) :
    (readPrimary read n).Takes e.operandText.toList e.erasePos rest := by
  cases e with
  | hole => exact absurd he.isHole_eq (by decide)
  | literal p k t =>
      cases k with
      | integer =>
          have ht : IsNumber t := he.isSpelled
          exact takes_readPrimary_leaf ht.isWord (leaf?_of_isNumber ht) hrest
      | boolean =>
          have ht : t = "TRUE" ∨ t = "FALSE" := he.isSpelled
          obtain rfl | rfl := ht
          · exact takes_readPrimary_leaf (w := "TRUE") (by decide) rfl hrest
          · exact takes_readPrimary_leaf (w := "FALSE") (by decide) rfl hrest
      | string =>
          have hparen : (skip "(").Refuses ((quote t).toList ++ rest) :=
            skip_refuses (by decide) (by simp [toList_quote])
          have hstar : (skip "*").Refuses ((quote t).toList ++ rest) :=
            skip_refuses (by decide) (by simp [toList_quote])
          exact ((hparen.bind _).orElse_takes
            ((hstar.bind _).orElse_takes ((takes_quoted t rest).bind_pure _))).orElse _
      | _ => exact absurd he.isSpelled id
  | ident p w =>
      have hw : IsName w := he.isSpelled
      exact takes_readPrimary_leaf hw.1 (leaf?_of_isName hw) hrest
  | rowId p => exact takes_readPrimary_leaf (w := "ROWID") (by decide) rfl hrest
  | wildcard p =>
      have hparen : (skip "(").Refuses ("*".toList ++ rest) := skip_refuses (by decide) (by simp)
      exact ((hparen.bind _).orElse_takes
        (((takes_skip "*" rest).bind_pure _).orElse _)).orElse _
  | column p t c => exact takes_readPrimary_column (p := p) he.isSpelled.1 he.isSpelled.2 hrest
  | call p f args => exact hread.takes_readPrimary_call he
  | each p a => exact hread.takes_readPrimary_each (he.of_mem_children List.mem_cons_self)
  | index p a i => cases hindex
  | _ => exact hread.takes_readPrimary_compound ⟨he.toReadable, hcompound rfl⟩ rfl

/-- A subscript is read back from its text in brackets. -/
lemma Reads.takes_readSubscript (hread : Reads read n) (he : e.Fits n) (rest : List Char) :
    (readSubscript read).Takes e.subscriptText e.erasePos rest :=
  (takes_skip "[" _).bind
    ((hread.takes he (ends_mark (by decide))).bind ((takes_skip "]" rest).bind_pure _))

/-- The subscripts `js` behind an operand are applied to it one after the other. -/
lemma Reads.takes_readOperand_subscripts (hread : Reads read n) {s : List Char} {js : List Expr}
    (hs : (readPrimary read n).Takes s e (js.flatMap subscriptText ++ rest))
    (hjs : ∀ j ∈ js, j.Fits n) (hlength : js.length ≤ n) (hrest : OperandEnds rest) :
    (readOperand read n).Takes (s ++ js.flatMap subscriptText)
      ((js.map erasePos).foldl (index {}) e) rest := by
  have hend : (readSubscript read).Refuses rest :=
    (skip_refuses (by decide) hrest.no_subscript).bind _
  have hmany : (many (readSubscript read) n).Takes (js.flatMap subscriptText) (js.map erasePos)
      rest :=
    takes_many hlength (fun j hj k (_ : True) => hread.takes_readSubscript (hjs j hj) k)
      (fun _ _ _ => trivial) trivial hend
  exact hs.bind (hmany.bind_pure _)

/-- An operand is read back together with the subscripts `js` behind it. -/
lemma Reads.takes_readOperand_append (hread : Reads read n) {js : List Expr}
    (he : e.Fits (n + 1)) (hcompound : e.isCompound = true → e.size ≤ n)
    (hjs : ∀ j ∈ js, j.Fits n) (hsize : e.size + js.length ≤ n + 1) (hrest : OperandEnds rest) :
    (readOperand read n).Takes (e.operandText.toList ++ js.flatMap subscriptText)
      ((js.map erasePos).foldl (index {}) e.erasePos) rest := by
  -- A subscript of the operand itself joins those behind it. The bound stays, because the operand
  -- loses more nodes than subscripts are added.
  induction e generalizing js with
  | index p a i ha _ =>
      have hmem : a ∈ (index p a i).children := List.mem_cons_self
      have hsub : i.Fits n := he.of_mem_children (List.mem_cons_of_mem _ List.mem_cons_self)
      have harray : a.Fits n := he.of_mem_children hmem
      have hlt : a.size < (index p a i).size := size_lt_of_mem_children hmem
      have h := ha ⟨harray.toReadable, Nat.le_succ_of_le harray.size_le⟩ (fun _ => harray.size_le)
        (List.forall_mem_cons.mpr ⟨hsub, hjs⟩) (by rw [List.length_cons]; omega)
      rw [List.flatMap_cons, List.map_cons, List.foldl_cons] at h
      rw [toList_operandText_index, List.append_assoc, erasePos]
      exact h
  | _ =>
      have hlength : js.length ≤ n := Nat.le_of_lt_succ <|
        Nat.lt_of_lt_of_le (Nat.lt_add_of_pos_left (size_pos _)) hsize
      have hstops : Stops (js.flatMap subscriptText ++ rest) :=
        follows_flatMap (fun j _ k => stops_cons.mpr (by decide)) hrest.stops
      exact hread.takes_readOperand_subscripts (hread.takes_readPrimary he hcompound rfl hstops)
        hjs hlength hrest

/-- An operand is read back with its subscripts. -/
lemma Reads.takes_readOperand (hread : Reads read n) (he : e.Fits (n + 1))
    (hcompound : e.isCompound = true → e.size ≤ n) (hrest : OperandEnds rest) :
    (readOperand read n).Takes e.operandText.toList e.erasePos rest := by
  have hnone : ∀ j ∈ ([] : List Expr), j.Fits n := List.forall_mem_nil _
  have h := hread.takes_readOperand_append he hcompound hnone he.size_le hrest
  rwa [List.flatMap_nil, List.append_nil] at h

/-- The form of `takes_readOperand` for a part of a larger expression. -/
lemma Reads.takes_readOperand_part (hread : Reads read n) (he : e.Fits n)
    (hrest : OperandEnds rest) :
    (readOperand read n).Takes e.operandText.toList e.erasePos rest :=
  hread.takes_readOperand ⟨he.toReadable, Nat.le_succ_of_le he.size_le⟩ (fun _ => he.size_le) hrest

end Expr

end QueryAnalysis
