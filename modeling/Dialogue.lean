import Dialogue.Text.Blank
import Dialogue.Text.Letter
import Dialogue.Text.Case
import Dialogue.Text.Lines
import Dialogue.Decimal.Numeral
import Dialogue.Decimal.Printer
import Dialogue.Value
import Dialogue.Name
import Dialogue.Report
import Dialogue.Condition.Parser
import Dialogue.NameTable
import Dialogue.Condition.Eval
import Dialogue.Interpolation
import Dialogue.Script.Graph
import Dialogue.Script.Draft
import Dialogue.Runner.Runner
import Dialogue.Script.Check
import Dialogue.Script.Printer
import Dialogue.Runner.Call
import Dialogue.Json.Run
import Dialogue.Version
import Dialogue.Proofs.Graph.WellKeyed
import Dialogue.Proofs.Runner.Flat
import Dialogue.Proofs.Runner.Refinement
import Dialogue.Proofs.Runner.StepLimit
import Dialogue.Proofs.Condition.Grammar
import Dialogue.Proofs.Condition.Reading
import Dialogue.Proofs.Decimal.Denoting
import Dialogue.Proofs.Script.Printable
import Dialogue.Proofs.Script.Spans
import Dialogue.Proofs.Script.CommandText
import Dialogue.Proofs.Script.ChoiceText
import Dialogue.Proofs.Script.Taking
import Dialogue.Proofs.Script.RoundTrip
import Dialogue.Proofs.Graph.Within
import Dialogue.Proofs.Runner.Reply
import Dialogue.Proofs.Runner.Offer
import Dialogue.Proofs.Runner.Countdown
import Dialogue.Proofs.Runner.Trail
import Dialogue.Proofs.Graph.Overwrite
import Dialogue.Proofs.Script.Moved
import Dialogue.Proofs.Script.Concatenation
import Dialogue.Proofs.Runner.Collected
import Dialogue.Proofs.Graph.Conditions
import Dialogue.Proofs.Runner.Unmentioned
import Dialogue.Proofs.Condition.Negated
import Dialogue.Proofs.Script.Layout
import Dialogue.Proofs.Script.Growing
import Dialogue.Proofs.Script.Coverage
import Dialogue.Proofs.Script.Clean
import Dialogue.Proofs.Runner.Progress
import Dialogue.Proofs.Script.Provenance
import Dialogue.Proofs.Runner.Failure
import Dialogue.Proofs.Decimal.Comparison
import Dialogue.Proofs.Runner.Timeout
import Dialogue.Proofs.Script.Spoken
import Dialogue.Proofs.Json.Plain
import Dialogue.Proofs.Json.ReadBack
import Dialogue.Proofs.Script.Terminators
import Dialogue.Proofs.Script.FirstFault
import Dialogue.Proofs.Script.WellFormed
import Dialogue.Proofs.Script.TrailingBlanks
import Dialogue.Proofs.Runner.Suspension
import Dialogue.Proofs.Script.TagOrder
import Dialogue.Proofs.Script.OpenPieces
import Dialogue.Proofs.Script.FaultCause
import Dialogue.Proofs.Script.FaultShown
import Dialogue.Proofs.Script.TagPlace
import Dialogue.Proofs.Condition.Cutting
import Dialogue.Proofs.Condition.Written
import Dialogue.Proofs.Condition.Offence
import Dialogue.Proofs.Runner.Unlimited
import Dialogue.Proofs.Condition.Blanks
import Dialogue.Proofs.Graph.Guards
import Dialogue.Proofs.Store.Interpolated
import Dialogue.Proofs.Store.Assigned
import Dialogue.Proofs.Store.Literals
import Dialogue.Proofs.Text.Lowercase
import Dialogue.Proofs.Store.Listed
import Dialogue.Proofs.Condition.Equality
import Dialogue.Proofs.Condition.Lookahead
import Dialogue.Proofs.Decimal.Doubles
import Dialogue.Proofs.Decimal.Rounding
import Dialogue.Proofs.Decimal.Nearest
import Dialogue.Proofs.Decimal.Scientific
import Dialogue.Proofs.Decimal.PlainNumerals
import Dialogue.Proofs.Runner.Strict
import Dialogue.Proofs.Runner.Anchored
