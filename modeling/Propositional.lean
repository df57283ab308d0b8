import Propositional.Formula.Grammar
import Propositional.Main
import Propositional.Proofs.Fault
import Propositional.Proofs.Runs
import Propositional.Proofs.Brackets
import Propositional.Proofs.Text.Normal
import Propositional.Proofs.Token.Names
import Propositional.Proofs.Token.Cancellation
import Propositional.Proofs.Token.Spelling
import Propositional.Proofs.Token.Unreadable
import Propositional.Proofs.Token.Placement
import Propositional.Proofs.Arrangement.Grammar
import Propositional.Proofs.Arrangement.Conservation
import Propositional.Proofs.Arrangement.Acceptance
import Propositional.Proofs.Arrangement.Outcome
import Propositional.Proofs.Arrangement.Order
import Propositional.Proofs.Arrangement.Names
import Propositional.Proofs.Arrangement.Stack
import Propositional.Proofs.Evaluation.Outcome
import Propositional.Proofs.Evaluation.Listing
import Propositional.Proofs.Evaluation.Lookup
import Propositional.Proofs.Evaluation.Trace
import Propositional.Proofs.Evaluation.Restriction
import Propositional.Proofs.Table.Rows
import Propositional.Proofs.Formula.Levels
import Propositional.Proofs.Formula.Reduction
import Propositional.Proofs.Formula.Printing
import Propositional.Proofs.Formula.Placement
import Propositional.Proofs.Formula.Context
import Propositional.Proofs.Formula.Enclosure
import Propositional.Proofs.Formula.Regrouping
import Propositional.Proofs.Table.Meaning
import Propositional.Proofs.Table.RoundTrip
import Propositional.Proofs.Table.Acceptance
import Propositional.Proofs.Table.Headings
import Propositional.Proofs.Table.Minimality
import Propositional.Proofs.Table.Unambiguity
import Propositional.Proofs.Evaluation.Failure
import Propositional.Proofs.Evaluation.Agreement
import Propositional.Proofs.Table.Uniformity
import Propositional.Proofs.Table.Closure
import Propositional.Proofs.Table.Numbering
import Propositional.Proofs.Table.Columns
import Propositional.Proofs.Table.Drawing
import Propositional.Proofs.Arrangement.Substitution
import Propositional.Proofs.Arrangement.DoubleNegation
import Propositional.Proofs.Console.Dialogue
import Propositional.Proofs.Reading
import Propositional.Proofs.Table.DoubleNegation
import Propositional.Proofs.Console.OneShot
