import QueryAnalysis.Ty
import QueryAnalysis.Pos

/-!
What the analysis can find wrong with a query.

* `Diagnostic`: one finding, with the place and the names or types that it is about.
* `Diagnostic.description`: what is wrong, in words that are fixed for each sort of finding.
* `Diagnostic.message`: the description, led by the position.
* `Diagnostic.listing`: the messages of several findings, one per line.
-/

namespace QueryAnalysis

/-- A finding of the analysis. -/
inductive Diagnostic where
  | typeMismatch (expected found : Ty) (pos : Pos)
  | badCall (function : String) (pos : Pos)
  | illegalExpression (text : String) (pos : Pos)
  | ambiguousColumn (name : String) (pos : Pos)
  | unknownCorrelation (name : String) (pos : Pos)
  | duplicateTable (first second : String) (firstPos secondPos : Pos)
deriving DecidableEq

namespace Diagnostic

/-- The sorts of findings. -/
inductive Kind where
  | typeMismatch
  | badCall
  | illegalExpression
  | ambiguousColumn
  | unknownCorrelation
  | duplicateTable
deriving DecidableEq

/-- The sort of a finding. -/
def kind : Diagnostic → Kind
  | typeMismatch _ _ _ => .typeMismatch
  | badCall _ _ => .badCall
  | illegalExpression _ _ => .illegalExpression
  | ambiguousColumn _ _ => .ambiguousColumn
  | unknownCorrelation _ _ => .unknownCorrelation
  | duplicateTable _ _ _ _ => .duplicateTable

/-- Where the problem is. Of two tables in conflict it is the place of the first one. -/
def pos : Diagnostic → Pos
  | typeMismatch _ _ p | badCall _ p | illegalExpression _ p | ambiguousColumn _ p
  | unknownCorrelation _ p | duplicateTable _ _ p _ => p

/-- The words that the description of a finding of this sort starts with. -/
def Kind.opening : Kind → String
  | typeMismatch => "type mismatch: expected "
  | badCall => "bad call to '"
  | illegalExpression => "illegal expression '"
  | ambiguousColumn => "ambiguous column access '"
  | unknownCorrelation => "unknown correlation name in '"
  | duplicateTable => "duplicate table name '"

/-- The description behind its first words: the types or the texts that the finding is about. -/
def details : Diagnostic → String
  | typeMismatch expected found _ => expected.name ++ ", found " ++ found.name
  | badCall text _ | ambiguousColumn text _ | unknownCorrelation text _ => text ++ "'"
  | illegalExpression text _ => text ++ "' in this context"
  | duplicateTable first second _ p =>
    first ++ "' (also at " ++ p.text ++ " as '" ++ second ++ "')"

/-- What is wrong, without the position. -/
def description (d : Diagnostic) : String :=
  d.kind.opening ++ d.details

/-- The finding in words: its position, and what is wrong there. -/
def message (d : Diagnostic) : String :=
  d.pos.text ++ ": " ++ d.description

/-- The messages of all findings in their order, each one ended by a line break. -/
def listing (ds : List Diagnostic) : String :=
  String.join (ds.map fun d => d.message ++ "\n")

end Diagnostic

end QueryAnalysis
