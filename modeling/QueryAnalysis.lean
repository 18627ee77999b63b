import QueryAnalysis.Pos
import QueryAnalysis.Ty
import QueryAnalysis.Text.Quoted
import QueryAnalysis.Text.Fragment
import QueryAnalysis.Diagnostic
import QueryAnalysis.Diagnosis
import QueryAnalysis.Signature
import QueryAnalysis.Env
import QueryAnalysis.Expr.Basic
import QueryAnalysis.Expr.Render
import QueryAnalysis.Expr.Typing
import QueryAnalysis.Expr.Standalone
import QueryAnalysis.Plan.Basic
import QueryAnalysis.Plan.Names
import QueryAnalysis.Plan.Analysis
import QueryAnalysis.Program.Basic
import QueryAnalysis.Program.Analysis
import QueryAnalysis.Collecting
import QueryAnalysis.Session
import QueryAnalysis.Proofs.Diagnosis
import QueryAnalysis.Proofs.RelatedLists
import QueryAnalysis.Proofs.Expr.Nodes
import QueryAnalysis.Proofs.Expr.Examined
import QueryAnalysis.Proofs.Expr.HasType
import QueryAnalysis.Proofs.Expr.Declared
import QueryAnalysis.Proofs.Expr.Violations
import QueryAnalysis.Proofs.Expr.Blame
import QueryAnalysis.Proofs.Plan.Names
import QueryAnalysis.Proofs.Plan.Places
import QueryAnalysis.Proofs.Tasks
import QueryAnalysis.Proofs.Clauses
import QueryAnalysis.Proofs.Complete
import QueryAnalysis.Proofs.Env
import QueryAnalysis.Proofs.WellFormed
import QueryAnalysis.Proofs.Edit
import QueryAnalysis.Proofs.Gradual
import QueryAnalysis.Proofs.Declaration
import QueryAnalysis.Proofs.Expr.Repair
import QueryAnalysis.Proofs.Repair
import QueryAnalysis.Proofs.Agreement
import QueryAnalysis.Proofs.Collecting
import QueryAnalysis.Proofs.Composition
import QueryAnalysis.Proofs.Traversal
import QueryAnalysis.Proofs.Missing
import QueryAnalysis.Proofs.Plan.Findings
import QueryAnalysis.Proofs.Plan.Duplicates
import QueryAnalysis.Proofs.Plan.Scope
import QueryAnalysis.Proofs.Plan.Ambiguity
import QueryAnalysis.Proofs.Expr.Rename
import QueryAnalysis.Proofs.Plan.Rename
import QueryAnalysis.Proofs.Reordering
import QueryAnalysis.Proofs.Plan.Swap
import QueryAnalysis.Proofs.RowSelection
import QueryAnalysis.Proofs.Expr.Address
import QueryAnalysis.Proofs.Expr.MissingParts
import QueryAnalysis.Proofs.Expr.RowNodes
import QueryAnalysis.Proofs.Expr.Congruence
import QueryAnalysis.Proofs.Expr.FailingCalls
import QueryAnalysis.Proofs.Text.Reader
import QueryAnalysis.Proofs.Expr.Spelling
import QueryAnalysis.Proofs.Expr.Reading
import QueryAnalysis.Proofs.Expr.Unambiguous
import QueryAnalysis.Proofs.Meaningful
import QueryAnalysis.Proofs.Phases
import QueryAnalysis.Proofs.Expr.Swap
import QueryAnalysis.Proofs.Resolution
import QueryAnalysis.Proofs.Messages
import QueryAnalysis.Proofs.Text.Literal
import QueryAnalysis.Proofs.Overloads
