import Phrasing.Argument
import Phrasing.Binary64.Basic
import Phrasing.Binary64.Rounding
import Phrasing.Branch.Basic
import Phrasing.Branch.Data
import Phrasing.Branch.Literal
import Phrasing.Condition.Basic
import Phrasing.Condition.Digest
import Phrasing.Condition.Draft
import Phrasing.Condition.Fingerprint
import Phrasing.Condition.Pending
import Phrasing.Condition.Stamped
import Phrasing.Condition.Workbench
import Phrasing.Decimal.Basic
import Phrasing.Decimal.Layout
import Phrasing.Decimal.Rounding
import Phrasing.Decimal.Shortest
import Phrasing.Evaluation
import Phrasing.Evaluation.Watched
import Phrasing.Failure
import Phrasing.Numeral
import Phrasing.Operator
import Phrasing.Placeholder
import Phrasing.Power
import Phrasing.Rendering
import Phrasing.Selection
import Phrasing.Settings.Basic
import Phrasing.Settings.Route
import Phrasing.Settings.Toml.Document
import Phrasing.Settings.Toml.Quoted
import Phrasing.Settings.Toml.Scalar
import Phrasing.Settings.Tree
import Phrasing.Settings.Variable
import Phrasing.Store
import Phrasing.Template.Basic
import Phrasing.Template.Scan
import Phrasing.Template.Source
import Phrasing.Text.Blank
import Phrasing.Text.Digit
import Phrasing.Value.Basic
import Phrasing.Value.Json
import Phrasing.Proofs.Grammar.Numeral
import Phrasing.Proofs.Grammar.Operand
import Phrasing.Proofs.Grammar.Stage
import Phrasing.Proofs.Grammar.Body
import Phrasing.Proofs.Grammar.Acceptance
import Phrasing.Proofs.Source
import Phrasing.Proofs.Comparison
import Phrasing.Proofs.Selection
import Phrasing.Proofs.Rendering
import Phrasing.Proofs.Agreement
import Phrasing.Proofs.Placeholder
import Phrasing.Proofs.Indices
import Phrasing.Proofs.Lookup
import Phrasing.Proofs.Printing.Nearest
import Phrasing.Proofs.Printing.Shortest
import Phrasing.Proofs.Printing.WholeNumber
import Phrasing.Proofs.Printing.NumberText
import Phrasing.Proofs.Printing.ComparisonText
import Phrasing.Proofs.Printing.BodyText
import Phrasing.Proofs.Printing.TemplateText
import Phrasing.Proofs.Offset
import Phrasing.Proofs.Concatenation
import Phrasing.Proofs.Check
import Phrasing.Condition.Shelf
import Phrasing.Proofs.Faults
import Phrasing.Proofs.NumericKinds
import Phrasing.Proofs.ArgumentLists
import Phrasing.Proofs.Trace
import Phrasing.Proofs.Stamp
import Phrasing.Proofs.PlainMap
import Phrasing.Proofs.Versions
import Phrasing.Proofs.FirstMatch
import Phrasing.Proofs.Substitution
import Phrasing.Proofs.DoubleOrder
import Phrasing.Proofs.WholeLiteral
import Phrasing.Proofs.Overflow
import Phrasing.Proofs.BranchData
import Phrasing.Proofs.FiniteNumbers
import Phrasing.Proofs.Verdict
import Phrasing.Proofs.NumericOrder
import Phrasing.Proofs.WholeOrder
import Phrasing.Proofs.Negation
import Phrasing.Proofs.Bits
import Phrasing.Proofs.Blame
import Phrasing.Proofs.Fingerprint
import Phrasing.Proofs.BranchReading
import Phrasing.Proofs.Settings.Overlay
import Phrasing.Proofs.Settings.Document
import Phrasing.Proofs.Settings.Sections
import Phrasing.Proofs.Settings.Values
import Phrasing.Proofs.Settings.Precedence
import Phrasing.Proofs.Settings.Override
import Phrasing.Proofs.Settings.Arrival
import Phrasing.Proofs.Draft.Simulation
import Phrasing.Proofs.Draft.Consistency
import Phrasing.Proofs.Scan
import Phrasing.Proofs.Reference
import Phrasing.Proofs.Stopgap
