/-!
Positions in the query text. They are produced together with the tree and only carried along, so all
that matters of a position is equality and its written form `line:column`.
-/

namespace QueryAnalysis

/-- A place in the query text. Lines and columns count from one; zero marks an unknown place. -/
structure Pos where
  line : Nat := 0
  column : Nat := 0
deriving DecidableEq

namespace Pos

/-- The written form `line:column`. -/
def text (p : Pos) : String :=
  toString p.line ++ ":" ++ toString p.column

end Pos

end QueryAnalysis
