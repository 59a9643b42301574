import Flowchart.Code.Program
import Flowchart.Condition.Evaluation
import Flowchart.Decimal.Display
import Flowchart.Decimal.Reading
import Flowchart.Expression.Evaluation
import Flowchart.Fault
import Flowchart.Instruction
import Flowchart.Json.Printer
import Flowchart.Json.Reader
import Flowchart.Literal
import Flowchart.Machine.Execution
import Flowchart.Program.Interchange
import Flowchart.Scope
import Flowchart.Session.Operations
import Flowchart.Text.Nesting
import Flowchart.Text.Quoted
import Flowchart.Text.Words
import Flowchart.Proofs.Allowance
import Flowchart.Proofs.Callees
import Flowchart.Proofs.Calls
import Flowchart.Proofs.FunctionTable
import Flowchart.Proofs.Interchange
import Flowchart.Proofs.Isolation
import Flowchart.Proofs.Json.Documents
import Flowchart.Proofs.Schedules
import Flowchart.Proofs.Script.Layout
import Flowchart.Proofs.Script.Recovery
import Flowchart.Proofs.Script.Refinement
import Flowchart.Proofs.Session.Coherence
import Flowchart.Proofs.Session.Protocol
import Flowchart.Proofs.Simulation
import Flowchart.Proofs.Cancellation
import Flowchart.Proofs.Session.Renewal
import Flowchart.Proofs.Session.Stopping
import Flowchart.Proofs.Condition.Scanning
import Flowchart.Proofs.Condition.Chains
import Flowchart.Proofs.Condition.Formulas
import Flowchart.Proofs.WholeFloats
import Flowchart.Proofs.Condition.CExpressions
import Flowchart.Proofs.Condition.Comparisons
import Flowchart.Proofs.Condition.Clauses
import Flowchart.Proofs.Condition.Respelling
import Flowchart.Proofs.Condition.Grouping
import Flowchart.Proofs.Condition.Translation
import Flowchart.Proofs.Code.Searches
import Flowchart.Proofs.Code.Coverage
import Flowchart.Proofs.Code.DeadBlocks
import Flowchart.Proofs.Code.Declarations
import Flowchart.Proofs.Code.Mirroring
import Flowchart.Proofs.Code.Numbering
import Flowchart.Proofs.CallLimit
import Flowchart.Proofs.Session.Arrival
import Flowchart.Proofs.Session.AsFunction
import Flowchart.Proofs.Validated
import Flowchart.Proofs.Arithmetic.Operations
import Flowchart.Proofs.Arithmetic.Signs
import Flowchart.Proofs.Arithmetic.Calculations
import Flowchart.Proofs.Arithmetic.Rewriting
import Flowchart.Proofs.Arithmetic.FloatTexts
import Flowchart.Proofs.Arithmetic.Exactness
import Flowchart.Proofs.RoundedFloats
import Flowchart.Proofs.Condition.WideComparisons
import Flowchart.Proofs.Routine.Basic
import Flowchart.Proofs.Routine.Headings
import Flowchart.Proofs.Routine.Tracking
import Flowchart.Proofs.Routine.EarlyExits
import Flowchart.Proofs.Text.Quotations
import Flowchart.Proofs.Condition.Literals
import Flowchart.Proofs.Condition.QuotedWords
import Flowchart.Proofs.Code.Printing
import Flowchart.Proofs.Code.DoLoopBodies
import Flowchart.Proofs.Text.Balance
import Flowchart.Proofs.Text.Bytes
import Flowchart.Proofs.Text.Cutting
import Flowchart.Proofs.Label.PrintedCalls
import Flowchart.Proofs.Text.Margins
import Flowchart.Proofs.Text.Pieces
import Flowchart.Proofs.Failures
import Flowchart.Proofs.Label.CallStatements
import Flowchart.Proofs.Label.Spellings
import Flowchart.Proofs.Label.Terminators
import Flowchart.Proofs.FirstOccurrences
import Flowchart.Proofs.Code.FirstAssignments
import Flowchart.Proofs.Code.FlatTexts
import Flowchart.Proofs.Code.Indentation
import Flowchart.Proofs.Code.Remarks
import Flowchart.Proofs.Session.Answers
import Flowchart.Proofs.Scope.Changes
import Flowchart.Proofs.Scope.Snapshots
import Flowchart.Proofs.Numerals
import Flowchart.Proofs.Graph.Lookup
import Flowchart.Proofs.Graph.Growth
import Flowchart.Proofs.Graph.NearestMerges
