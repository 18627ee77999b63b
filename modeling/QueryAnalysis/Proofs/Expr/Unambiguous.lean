import QueryAnalysis.Proofs.Expr.Reading

/-!
The text of an expression determines it.

* `Expr.Reads.takes_readCase`, `Expr.Reads.takes_readBinary`, `Expr.Reads.takes_readUnary`: cases
  and operations are read back from their text.
* `Expr.reads_readExpr`: so are all expressions, if the reader allows for their number of nodes.
* `Expr.text_injective`: expressions with the same text are the same up to their positions.
-/

namespace QueryAnalysis.Expr

open Text Text.Reader

variable {read : Reader Expr} {n : Nat} {e : Expr} {rest : List Char}

/-! ### Cases -/

/-- What holds of the text behind an optional part, and of every text that starts with its
announcement, holds of the text that starts with the optional part. -/
lemma follows_optionalText {Follows : List Char → Prop} {announce t : String}
    (hgiven : ∀ k, Follows (announce.toList ++ k)) (hrest : Follows rest) :
    Follows (optionalText announce e t ++ rest) := by
  rw [optionalText]
  split
  · exact hrest
  · rw [List.append_assoc]
    exact hgiven _

/-- An optional part is read back, or found to be absent. -/
lemma takes_readOptional {announce t : String} {part : Reader Expr}
    (hgiven : e.isHole = false → part.Takes t.toList e.erasePos rest)
    (habsent : (do skip announce; part).Refuses rest) :
    (readOptional announce part).Takes (optionalText announce e t) e.erasePos rest := by
  rw [optionalText]
  cases he : e.isHole with
  | true =>
      obtain rfl := eq_hole_of_isHole he
      exact habsent.orElse_takes (takes_pure hole rest)
  | false => exact ((takes_skip announce _).bind (hgiven he)).orElse _

/-- A keyword of a case stands between its parts: an expression before it ends there, and it does
not start one. -/
structure Separates (read : Reader Expr) (n : Nat) (rest : List Char) : Prop where
  ends : Ends rest
  no_subject : (do skip " "; readOperand read n).Refuses rest

lemma separates_keyword {w : String} (hw : w ∈ ["WHEN", "ELSE", "END"]) (hrest : Stops rest) :
    Separates read n (" ".toList ++ (w.toList ++ rest)) := by
  simp only [List.mem_cons, List.not_mem_nil, or_false] at hw
  obtain rfl | rfl | rfl := hw
  all_goals
    exact ⟨ends_keyword (by decide), (takes_skip " " _).bind_refuses
      (readOperand_refuses (by decide) rfl hrest (by simp))⟩

/-- A branch is read back up to the next keyword. -/
lemma Reads.takes_readBranch (hread : Reads read n) {b : Branch Expr} (hc : b.condition.Fits n)
    (hr : b.result.Fits n) (hrest : Ends rest) :
    (readBranch read).Takes (branchChars b) ⟨b.condition.erasePos, b.result.erasePos⟩ rest := by
  have hthen : Ends (" THEN ".toList ++ b.result.text.toList ++ rest) := ends_keyword (by decide)
  rw [branchChars_eq]
  exact (takes_skip " WHEN " _).bind ((hread.takes hc hthen).bind
    ((takes_skip " THEN " _).bind ((hread.takes hr hrest).bind_pure _)))

/-- A case is read back. Each of its parts ends at the keyword of the next one. -/
lemma Reads.takes_readCase (hread : Reads read n) {p : Pos} {s d : Expr} {bs : List (Branch Expr)}
    (he : (case p s bs d).Fits (n + 1)) (hrest : Stops rest) :
    (readCase read n).Takes (case p s bs d).text.toList (case p s bs d).erasePos rest := by
  obtain ⟨hsubject, hcondition, hresult, hdefault⟩ := forall_mem_examinedParts_case_iff.mp
    fun c hc => he.of_mem_children (mem_children_iff.mpr (Or.inl hc))
  have hlength : bs.length ≤ n := by
    have hlt := length_children_lt_size (case p s bs d)
    have hle := he.size_le
    simp only [children, List.length_append, List.length_flatMap, List.length_cons,
      List.length_nil, List.map_const', List.sum_replicate_nat] at hlt
    omega
  have hblank (k : List Char) : Stops (' ' :: k) := operandEnds_blank.stops
  have hend : Separates read n (" END".toList ++ rest) :=
    separates_keyword (w := "END") (by decide) hrest
  have htail : Separates read n (optionalText " ELSE " d d.text ++ " END".toList ++ rest) := by
    rw [List.append_assoc]
    exact follows_optionalText
      (fun k => separates_keyword (w := "ELSE") (by decide) (hblank k)) hend
  have hnext : ∀ b ∈ bs, ∀ k, Separates read n (branchChars b ++ k) := by
    intro b _ k
    rw [branchChars_eq, List.append_assoc]
    exact separates_keyword (w := "WHEN") (by decide) (hblank _)
  have hbranches : Separates read n (bs.flatMap branchChars ++
      (optionalText " ELSE " d d.text ++ " END".toList) ++ rest) := by
    rw [List.append_assoc]
    exact follows_flatMap hnext htail
  have hnobranch : (readBranch read).Refuses
      (optionalText " ELSE " d d.text ++ " END".toList ++ rest) := by
    rw [List.append_assoc]
    exact follows_optionalText (fun _ => rfl) rfl
  have hmany : (many (readBranch read) n).Takes (bs.flatMap branchChars)
      (bs.map fun b => ⟨b.condition.erasePos, b.result.erasePos⟩)
      (optionalText " ELSE " d d.text ++ " END".toList ++ rest) :=
    takes_many hlength
      (fun b hb k hk => hread.takes_readBranch (hcondition b hb) (hresult b hb) hk)
      (fun b hb k => (hnext b hb k).ends) htail.ends hnobranch
  have hnodefault : (do skip " ELSE "; read).Refuses (" END".toList ++ rest) := rfl
  rw [toList_text_case, erasePos, erasePosBranches_eq]
  exact (takes_skip "CASE" _).bind <|
    (takes_readOptional
      (fun h => hread.takes_readOperand_part (hsubject h) hbranches.ends.toOperandEnds)
      hbranches.no_subject).bind <|
    hmany.bind <|
    (takes_readOptional (fun h => hread.takes (hdefault h) hend.ends) hnodefault).bind <|
    (takes_skip " END" rest).bind_pure _

/-! ### Expressions -/

lemma Reads.takes_readBinary_operand (hread : Reads read n) (he : e.Fits (n + 1))
    (hcompound : e.isCompound = false) (hrest : Ends rest) :
    (readBinary read n).Takes e.text.toList e.erasePos rest := by
  have htext : e.operandText = e.text := by
    rw [operandText, enclose, hcompound]
    rfl
  have hoperand := hread.takes_readOperand he (by simp [hcompound]) hrest.toOperandEnds
  have hright : (readRight read n e.erasePos).Takes [] e.erasePos rest :=
    (hrest.no_operation.bind _).orElse_takes (takes_pure _ rest)
  have h : (readBinary read n).Takes _ _ _ := hoperand.bind hright
  rwa [htext, List.append_nil] at h

/-- An operation between two operands is read back. -/
lemma Reads.takes_readBinary (hread : Reads read n) {p : Pos} {op : BinaryOp} {l r : Expr}
    (hl : l.Fits n) (hr : r.Fits n) (hrest : OperandEnds rest) :
    (readBinary read n).Takes (binary p op l r).text.toList (binary p op l r).erasePos rest := by
  rw [toList_text_binary, erasePos]
  exact (hread.takes_readOperand_part hl operandEnds_blank).bind
    (((takes_readInfix op _).bind ((hread.takes_readOperand_part hr hrest).bind_pure _)).orElse _)

/-- An operation before its operand is read back. -/
lemma Reads.takes_readUnary (hread : Reads read n) (p : Pos) (op : UnaryOp) {a : Expr}
    (ha : a.Fits n) (hrest : OperandEnds rest) :
    (readUnary read n op).Takes (unary p op a).text.toList (unary p op a).erasePos rest := by
  rw [toList_text_unary, erasePos]
  exact (takes_skip op.text _).bind ((hread.takes_readOperand_part ha hrest).bind_pure _)

lemma readUnary_refuses {op : UnaryOp} {s : List Char} (hs : s.head? ≠ op.text.toList.head?) :
    (readUnary read n op).Refuses s :=
  (skip_refuses (by cases op <;> decide) hs).bind _

/-- An operation before its operand does not start one. -/
lemma readOperand_refuses_unary (p : Pos) (op : UnaryOp) (a : Expr) (rest : List Char) :
    (readOperand read n).Refuses ((unary p op a).text.toList ++ rest) := by
  rw [toList_text_unary, List.append_assoc]
  cases op with
  | not =>
      exact readOperand_refuses (w := "NOT") (by decide) rfl operandEnds_blank.stops (by simp)
  | negate =>
      have h : (readOperand read n).Refuses ('-' :: (a.operandText.toList ++ rest)) :=
        readOperand_refuses (w := "") (by simp) rfl (stops_cons.mpr (by decide)) (by simp)
      exact h

/-- A case does not start an operand, unless it is in parentheses. -/
lemma readOperand_refuses_case (p : Pos) (s : Expr) (bs : List (Branch Expr)) (d : Expr)
    (rest : List Char) : (readOperand read n).Refuses ((case p s bs d).text.toList ++ rest) := by
  have hblank (k : List Char) : Stops (' ' :: k) := operandEnds_blank.stops
  have hbranch (b : Branch Expr) (k : List Char) : Stops (branchChars b ++ k) := by
    rw [branchChars_eq]
    exact hblank _
  rw [toList_text_case]
  simp only [List.append_assoc]
  refine readOperand_refuses (by decide) rfl ?_ (by simp)
  exact follows_optionalText (fun _ => hblank _) <| follows_flatMap (fun b _ k => hbranch b k) <|
    follows_optionalText (fun _ => hblank _) (hblank _)

/-- A reader for larger expressions is made from one for the expressions in them. -/
lemma Reads.readExpr_succ (hread : Reads (readExpr n) n) : Reads (readExpr (n + 1)) (n + 1) where
  takes := by
    intro e he rest hrest
    cases e with
    | unary p op a =>
        have ha : a.Fits n := he.of_mem_children List.mem_cons_self
        have htakes := hread.takes_readUnary p op ha hrest.toOperandEnds
        refine ((readOperand_refuses_unary p op a rest).bind _).orElse_takes ?_
        cases op with
        | not => exact htakes.orElse _
        | negate =>
            have hnot : (readUnary (readExpr n) n .not).Refuses
                ((unary p .negate a).text.toList ++ rest) := by
              rw [toList_text_unary]
              exact readUnary_refuses (by simp [UnaryOp.text])
            exact hnot.orElse_takes (htakes.orElse _)
    | binary p op l r =>
        have hl : l.Fits n := he.of_mem_children List.mem_cons_self
        have hr : r.Fits n := he.of_mem_children (List.mem_cons_of_mem _ List.mem_cons_self)
        exact (hread.takes_readBinary hl hr hrest.toOperandEnds).orElse _
    | case p s bs d =>
        have hunary (op : UnaryOp) : (readUnary (readExpr n) n op).Refuses
            ((case p s bs d).text.toList ++ rest) := by
          rw [toList_text_case]
          exact readUnary_refuses (by cases op <;> simp [UnaryOp.text])
        exact ((readOperand_refuses_case p s bs d rest).bind _).orElse_takes <|
          (hunary .not).orElse_takes <| (hunary .negate).orElse_takes <|
          hread.takes_readCase he hrest.stops
    | _ => exact (hread.takes_readBinary_operand he rfl hrest).orElse _
  refuses := by
    intro rest
    have hclose : Stops (')' :: rest) := stops_cons.mpr (by decide)
    have hoperand : (readOperand (readExpr n) n).Refuses (')' :: rest) :=
      readOperand_refuses (w := "") (by simp) rfl hclose (by simp)
    have hunary (op : UnaryOp) : (readUnary (readExpr n) n op).Refuses (')' :: rest) :=
      readUnary_refuses (by cases op <;> simp [UnaryOp.text])
    have hcase : (skip "CASE").Refuses (')' :: rest) := skip_refuses (by decide) (by simp)
    exact (hoperand.bind _).orElse <| (hunary .not).orElse <| (hunary .negate).orElse <|
      hcase.bind _

/-- Every expression is read back by the reader for as many nodes as it has. -/
lemma reads_readExpr (n : Nat) : Reads (readExpr n) n := by
  induction n with
  | zero =>
      refine ⟨fun {e} he => ?_, fun _ => rfl⟩
      exact absurd he.size_le (Nat.not_le_of_lt e.size_pos)
  | succ n ih => exact ih.readExpr_succ

/-- **The text of an expression determines it.** Let two expressions be complete, with names that
are words and not reserved, and with numbers, truth values and strings as their only literals; what
the strings hold is arbitrary. If they have the same text, then they are the same up to their
positions. -/
theorem text_injective {e e' : Expr} (he : e.Complete) (hs : e.Spelled) (he' : e'.Complete)
    (hs' : e'.Spelled) (htext : e.text = e'.text) : e.erasePos = e'.erasePos := by
  have hread := reads_readExpr (max e.size e'.size)
  have h : (readExpr (max e.size e'.size)).Takes e.text.toList e.erasePos [] :=
    hread.takes ⟨⟨he, hs⟩, Nat.le_max_left _ _⟩ ends_nil
  have h' : (readExpr (max e.size e'.size)).Takes e'.text.toList e'.erasePos [] :=
    hread.takes ⟨⟨he', hs'⟩, Nat.le_max_right _ _⟩ ends_nil
  rw [Takes] at h h'
  rw [htext, h'] at h
  exact (congrArg Prod.fst (Option.some.inj h)).symm

/-- A case in which a string looks like the end of the case, one product is that of two wildcards,
and an element of an array is an array again. -/
def spreadCase (p : Pos) : Expr :=
  .case p (.unary p .negate (.ident p "spread"))
    [⟨.binary p .less (.column p "q" "bid") (.binary p .times (.wildcard p) (.wildcard p)),
      .literal p .string "\" THEN x END"⟩,
     ⟨.unary p .not (.literal p .boolean "TRUE"),
      .index p (.index p (.call p "prev" [.literal p .integer "1", .each p (.rowId p)])
        (.ident p "i")) (.literal p .integer "0")⟩]
    .hole

/-- The cases at the two positions have the same text, and differ in nothing but the positions. The
string does not end the case, nor do the wildcards and the subscripts make it ambiguous. -/
theorem spreadCase_determined :
    (spreadCase ⟨1, 1⟩).text =
        "CASE (-spread) WHEN q.bid < (* * *) THEN \"\\\" THEN x END\" " ++
          "WHEN NOT TRUE THEN prev(1, EACH(ROWID))[i][0] END" ∧
      (spreadCase ⟨1, 1⟩).text = (spreadCase ⟨2, 7⟩).text ∧
      (spreadCase ⟨1, 1⟩).erasePos = (spreadCase ⟨2, 7⟩).erasePos := by
  have htext : (spreadCase ⟨1, 1⟩).text = (spreadCase ⟨2, 7⟩).text := rfl
  exact ⟨by decide +kernel, htext,
    text_injective (by decide) (by decide +kernel) (by decide) (by decide +kernel) htext⟩

end QueryAnalysis.Expr
