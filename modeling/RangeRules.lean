import RangeRules.Main
import RangeRules.Proofs.Evaluation.DivisionFreedom
import RangeRules.Proofs.Evaluation.Verdicts
import RangeRules.Proofs.Interval.Inclusion
import RangeRules.Proofs.Evaluation.Parallel
import RangeRules.Proofs.Evaluation.Monotonicity
import RangeRules.Proofs.Evaluation.TypeErrors
import RangeRules.Proofs.Program.Check
import RangeRules.Proofs.Program.Contract
import RangeRules.Proofs.Program.Depth
import RangeRules.Proofs.Grammar.Acceptance
import RangeRules.Proofs.Evaluation.Reachability
import RangeRules.Proofs.Program.Blame
import RangeRules.Proofs.Program.Composition
import RangeRules.Proofs.Evaluation.Options
import RangeRules.Proofs.Evaluation.Undefined
import RangeRules.Proofs.Evaluation.Independence
import RangeRules.Proofs.SourceArgument.Agreement
import RangeRules.Proofs.Interval.Comparison
import RangeRules.Proofs.Interval.Tightness
import RangeRules.Proofs.Evaluation.Formation
import RangeRules.Proofs.Report.Position
import RangeRules.Proofs.Evaluation.Points
import RangeRules.Proofs.Evaluation.Editing
import RangeRules.Proofs.Program.Chains
import RangeRules.Proofs.Program.Parentheses
import RangeRules.Proofs.Program.Quotation
import RangeRules.Proofs.Program.Nesting
import RangeRules.Proofs.Program.Gaps
import RangeRules.Proofs.Program.SyntaxErrors
import RangeRules.Proofs.Bindings.Indexed
import RangeRules.Proofs.Value.Lift
import RangeRules.Proofs.SourceArgument.Name
import RangeRules.Proofs.Text.Coordinates
