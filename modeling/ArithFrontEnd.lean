import ArithFrontEnd.Analysis.Loops
import ArithFrontEnd.CommandLine.Directory
import ArithFrontEnd.Engine.Layout
import ArithFrontEnd.Expression.Evaluation
import ArithFrontEnd.Expression.Written
import ArithFrontEnd.Grammar.Derivation
import ArithFrontEnd.Grammar.Description
import ArithFrontEnd.Grammar.Ledger
import ArithFrontEnd.Grammar.Printer
import ArithFrontEnd.Main
import ArithFrontEnd.Optimizer.Constants
import ArithFrontEnd.Optimizer.Indexed
import ArithFrontEnd.Optimizer.Symbolic
import ArithFrontEnd.Proofs.Analysis.First
import ArithFrontEnd.Proofs.Analysis.FixedPoint
import ArithFrontEnd.Proofs.Analysis.Follow
import ArithFrontEnd.Proofs.Analysis.Loops
import ArithFrontEnd.Proofs.Analysis.Successors
import ArithFrontEnd.Proofs.Arithmetic.NumeralText
import ArithFrontEnd.Proofs.Engine.Attributes
import ArithFrontEnd.Proofs.Engine.Halting
import ArithFrontEnd.Proofs.Engine.Moves
import ArithFrontEnd.Proofs.Engine.StackShape
import ArithFrontEnd.Proofs.Engine.TokenValues
import ArithFrontEnd.Proofs.Engine.Verdicts
import ArithFrontEnd.Proofs.Engine.Wiring
import ArithFrontEnd.Proofs.Expression.Agreement
import ArithFrontEnd.Proofs.Expression.Attributes
import ArithFrontEnd.Proofs.Expression.Calculation
import ArithFrontEnd.Proofs.Expression.Cells
import ArithFrontEnd.Proofs.Expression.Descents
import ArithFrontEnd.Proofs.Expression.Failure
import ArithFrontEnd.Proofs.Expression.Lexemes
import ArithFrontEnd.Proofs.Expression.Meaning
import ArithFrontEnd.Proofs.Expression.Operands
import ArithFrontEnd.Proofs.Expression.Readings
import ArithFrontEnd.Proofs.Expression.Recognition
import ArithFrontEnd.Proofs.Expression.Signs
import ArithFrontEnd.Proofs.Expression.Simulation
import ArithFrontEnd.Proofs.Grammar.Beginnings
import ArithFrontEnd.Proofs.Grammar.Declaring
import ArithFrontEnd.Proofs.Grammar.Histories
import ArithFrontEnd.Proofs.Grammar.LeftmostDerivation
import ArithFrontEnd.Proofs.Grammar.Loading
import ArithFrontEnd.Proofs.Grammar.Rendering
import ArithFrontEnd.Proofs.Grammar.Reprinting
import ArithFrontEnd.Proofs.Grammar.WellFormed
import ArithFrontEnd.Proofs.GrammarText.Accepting
import ArithFrontEnd.Proofs.GrammarText.Flattening
import ArithFrontEnd.Proofs.GrammarText.Mistakes
import ArithFrontEnd.Proofs.Optimizer.Canonical
import ArithFrontEnd.Proofs.Optimizer.Coherence
import ArithFrontEnd.Proofs.Optimizer.Correctness
import ArithFrontEnd.Proofs.Optimizer.Emission
import ArithFrontEnd.Proofs.Optimizer.EntryNames
import ArithFrontEnd.Proofs.Optimizer.Folding
import ArithFrontEnd.Proofs.Optimizer.FreshNames
import ArithFrontEnd.Proofs.Optimizer.Meaning
import ArithFrontEnd.Proofs.Optimizer.Minimality
import ArithFrontEnd.Proofs.Optimizer.Naming
import ArithFrontEnd.Proofs.Optimizer.Nodes
import ArithFrontEnd.Proofs.Optimizer.Rebuilding
import ArithFrontEnd.Proofs.Optimizer.Reoptimization
import ArithFrontEnd.Proofs.Optimizer.Results
import ArithFrontEnd.Proofs.Optimizer.Retracing
import ArithFrontEnd.Proofs.Optimizer.Settling
import ArithFrontEnd.Proofs.Optimizer.Sharing
import ArithFrontEnd.Proofs.Optimizer.SingleAssignment
import ArithFrontEnd.Proofs.Optimizer.Unfolding
import ArithFrontEnd.Proofs.Optimizer.WritingOrder
import ArithFrontEnd.Proofs.Prediction.Acceptance
import ArithFrontEnd.Proofs.Prediction.Acyclic
import ArithFrontEnd.Proofs.Prediction.Cells
import ArithFrontEnd.Proofs.Prediction.Detection
import ArithFrontEnd.Proofs.Prediction.Faults
import ArithFrontEnd.Proofs.Prediction.Language
import ArithFrontEnd.Proofs.Prediction.Offsets
import ArithFrontEnd.Proofs.Prediction.Recognizers
import ArithFrontEnd.Proofs.Prediction.Routing
import ArithFrontEnd.Proofs.Prediction.Selection
import ArithFrontEnd.Proofs.Prediction.Stopping
import ArithFrontEnd.Proofs.Quadruple.Rewriting
import ArithFrontEnd.Proofs.Quadruple.RoundTrip
import ArithFrontEnd.Proofs.Source.Covering
import ArithFrontEnd.Proofs.Source.Recognizing
import ArithFrontEnd.Proofs.Source.Respelling
import ArithFrontEnd.Proofs.Source.Scanning
import ArithFrontEnd.Proofs.Text.LongestMatch
import ArithFrontEnd.Source.Lexeme
