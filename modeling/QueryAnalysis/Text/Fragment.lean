import QueryAnalysis.Text.Quoted

/-!
Query text is written piece by piece.

* `Fragment`: one piece, as plain text, as a qualified name or as a string literal.
* `Fragment.appendTo`: a text with one more piece written to it.
* `Fragment.snapshots`: the growing text after each of a sequence of pieces.
-/

namespace QueryAnalysis.Text

/-- The characters of a text with ASCII capitals made small. All other characters are kept. -/
def lowercase (s : String) : List Char :=
  s.toList.map Char.toLower

/-- The name of a column together with that of its table, as it is written. -/
def qualified (qualifier name : String) : String :=
  qualifier ++ "." ++ name

/-- A piece of query text. -/
inductive Fragment where
  | plain (text : String)
  | qualified (qualifier name : String)
  | literal (content : String)
deriving DecidableEq

namespace Fragment

/-- The written form of a piece. -/
def text : Fragment → String
  | plain t => t
  | qualified q n => Text.qualified q n
  | literal c => quote c

/-- The text with the piece written behind it. -/
def appendTo (written : String) (f : Fragment) : String :=
  written ++ f.text

/-- The text after each of the pieces, which are written one after the other. -/
def snapshots (written : String) : List Fragment → List String
  | [] => []
  | f :: fs => appendTo written f :: snapshots (appendTo written f) fs

end Fragment

end QueryAnalysis.Text
