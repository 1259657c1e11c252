import FourState.Bit
import FourState.Buffer.Arithmetic
import FourState.Buffer.Basic
import FourState.Buffer.Integer
import FourState.Buffer.Move
import FourState.Checked
import FourState.Coverage.Evaluation
import FourState.Coverage.Reading
import FourState.Event
import FourState.Failure
import FourState.Fault
import FourState.Kind
import FourState.LogicVector.Assign
import FourState.LogicVector.Basic
import FourState.LogicVector.Commit
import FourState.LogicVector.Copy
import FourState.LogicVector.Display
import FourState.LogicVector.Integer
import FourState.LogicVector.Update
import FourState.Mask
import FourState.Operator.Arithmetic
import FourState.Operator.Bitwise
import FourState.Operator.Comparison
import FourState.Operator.Division
import FourState.Operator.Operand
import FourState.Operator.Operation
import FourState.Operator.Rearrangement
import FourState.Operator.Reduction
import FourState.Operator.Shift
import FourState.Proofs.Abstraction
import FourState.Proofs.Approximation
import FourState.Proofs.Arithmetic
import FourState.Proofs.Assigning
import FourState.Proofs.Assignment
import FourState.Proofs.Buffer
import FourState.Proofs.BuiltBuffer
import FourState.Proofs.Cell
import FourState.Proofs.Completion
import FourState.Proofs.Copying
import FourState.Proofs.Counting
import FourState.Proofs.CoverageUnion
import FourState.Proofs.Digits
import FourState.Proofs.Display
import FourState.Proofs.Effect
import FourState.Proofs.Evaluation
import FourState.Proofs.EvaluationCoverage
import FourState.Proofs.Extension
import FourState.Proofs.Folding
import FourState.Proofs.Gate
import FourState.Proofs.Guarded.Arithmetic
import FourState.Proofs.Guarded.Assignment
import FourState.Proofs.Guarded.Claiming
import FourState.Proofs.Guarded.Filling
import FourState.Proofs.Guarded.Literal
import FourState.Proofs.Guarded.Moving
import FourState.Proofs.Guarded.Operator
import FourState.Proofs.Guarded.Reading
import FourState.Proofs.Guarded.Step
import FourState.Proofs.Integer
import FourState.Proofs.IntegerReading
import FourState.Proofs.Joining
import FourState.Proofs.Known
import FourState.Proofs.KnownRendering
import FourState.Proofs.LiteralDigits
import FourState.Proofs.LiteralForm
import FourState.Proofs.LiteralReading
import FourState.Proofs.Matching
import FourState.Proofs.Monotonicity
import FourState.Proofs.Moving
import FourState.Proofs.NotedReads
import FourState.Proofs.Operands
import FourState.Proofs.Operating
import FourState.Proofs.Ordering
import FourState.Proofs.Parts
import FourState.Proofs.Preservation
import FourState.Proofs.Queries
import FourState.Proofs.QuotedText
import FourState.Proofs.RaceChecking
import FourState.Proofs.RangeFilling
import FourState.Proofs.Record
import FourState.Proofs.RecordForm
import FourState.Proofs.RecordStream
import FourState.Proofs.RecordText
import FourState.Proofs.Rendering
import FourState.Proofs.Reporting
import FourState.Proofs.Session.AccessHistory
import FourState.Proofs.Session.Aliasing
import FourState.Proofs.Session.Arithmetic
import FourState.Proofs.Session.Comparison
import FourState.Proofs.Session.Confinement
import FourState.Proofs.Session.Copying
import FourState.Proofs.Session.Creation
import FourState.Proofs.Session.Display
import FourState.Proofs.Session.Gate
import FourState.Proofs.Session.Guarded
import FourState.Proofs.Session.History
import FourState.Proofs.Session.IntegerReading
import FourState.Proofs.Session.Joining
import FourState.Proofs.Session.Merging
import FourState.Proofs.Session.NotedReads
import FourState.Proofs.Session.Parts
import FourState.Proofs.Session.Queries
import FourState.Proofs.Session.RaceChecking
import FourState.Proofs.Session.RecordMerging
import FourState.Proofs.Session.Reporting
import FourState.Proofs.Session.Run
import FourState.Proofs.Session.Shifting
import FourState.Proofs.Session.Sound
import FourState.Proofs.Session.Stepwise
import FourState.Proofs.Session.StickyCoverage
import FourState.Proofs.Session.ToggleHistory
import FourState.Proofs.Session.TwoState
import FourState.Proofs.Session.ValueChange
import FourState.Proofs.Shifting
import FourState.Proofs.Stepwise.Engine
import FourState.Proofs.Stepwise.Moving
import FourState.Proofs.Stepwise.Operator
import FourState.Proofs.Stepwise.Step
import FourState.Proofs.Stepwise.Update
import FourState.Proofs.StickyCoverage
import FourState.Proofs.Token
import FourState.Proofs.TokenForm
import FourState.Proofs.UnknownOperands
import FourState.Proofs.ValueChange
import FourState.Proofs.ValuelessRecord
import FourState.Proofs.WellFormed
import FourState.Proofs.Wrapping
import FourState.Record.Descriptor
import FourState.Record.Merge
import FourState.Record.Options
import FourState.Record.Reader
import FourState.Record.Writer
import FourState.Session.Basic
import FourState.Session.Bindings
import FourState.Session.Command
import FourState.Slice
import FourState.Text.Blank
import FourState.Text.Json
import FourState.Text.Literal
import FourState.Text.Numeral
import FourState.Text.Radix
import FourState.Text.ValueChange
import FourState.Words
import FourState.Words.Arithmetic
