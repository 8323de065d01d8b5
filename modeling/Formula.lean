import Formula.Engine.Basic
import Formula.Engine.Storage
import Formula.Expr.Written
import Formula.Proofs.Grammar.Derivation
import Formula.Proofs.Grammar.Reading
import Formula.Proofs.Grammar.Completeness
import Formula.Proofs.Grammar.Cost
import Formula.Proofs.Grammar.Recognition
import Formula.Proofs.Grammar.Recognition.Chain
import Formula.Proofs.Grammar.Recognition.Primary
import Formula.Proofs.Grammar.Recognition.Cycle
import Formula.Proofs.Grammar.Soundness
import Formula.Proofs.Grammar.Depth
import Formula.Proofs.Grammar.Exactness
import Formula.Proofs.Grammar.Height
import Formula.Proofs.Grammar.Lockstep
import Formula.Proofs.Grammar.Reuse
import Formula.Proofs.Token.Classes
import Formula.Proofs.Token.Spelling
import Formula.Proofs.Decimal.Bits
import Formula.Proofs.Decimal.Nearest
import Formula.Proofs.Decimal.Shortest
import Formula.Proofs.Written.WellFormed
import Formula.Proofs.Written.Display
import Formula.Proofs.Written.ReadBack
import Formula.Proofs.Token.Lexed
import Formula.Proofs.Written.Accepted
import Formula.Proofs.Written.Tallest
import Formula.Proofs.Written.Recursion
import Formula.Proofs.Eval.Steps
import Formula.Proofs.Eval.Dependencies
import Formula.Proofs.Engine.Checking
import Formula.Proofs.Engine.Dialects
import Formula.Proofs.Token.Spans
import Formula.Proofs.Grammar.Located
import Formula.Proofs.Grammar.Reported
import Formula.Proofs.Token.Munch
import Formula.Proofs.Token.Separation
import Formula.Proofs.Grammar.Layout
import Formula.Proofs.Engine.Layout
import Formula.Proofs.Engine.Records
import Formula.Proofs.Written.Embedding
import Formula.Proofs.Grammar.Assignments
import Formula.Proofs.Written.Nodes
import Formula.Proofs.Text.ByteOrder
import Formula.Proofs.Eval.History
import Formula.Proofs.Eval.Views
import Formula.Proofs.Eval.Machine
import Formula.Proofs.Eval.Arity
import Formula.Proofs.Engine.NullaryCalls
import Formula.Proofs.Eval.Substitution
import Formula.Proofs.Grammar.Machine
import Formula.Proofs.Grammar.Tracking
import Formula.Proofs.Grammar.Counter
import Formula.Proofs.Json.Texts
import Formula.Proofs.Json.Skipping
import Formula.Proofs.Json.Objects
import Formula.Proofs.Json.Wanted
import Formula.Proofs.Engine.Settings
import Formula.Proofs.Decimal.Rounding
import Formula.Proofs.Decimal.Arithmetic
import Formula.Proofs.Decimal.Seventeen
import Formula.Proofs.Decimal.Bounds
import Formula.Proofs.Json.Numbers
import Formula.Proofs.Json.Written
import Formula.Proofs.Engine.Storage
