import Monkey.Expr.Equality
import Monkey.Main
import Monkey.Proofs.Rewriting
import Monkey.Proofs.Frame
import Monkey.Proofs.Clean
import Monkey.Proofs.Stored
import Monkey.Proofs.Exceptions
import Monkey.Proofs.Agreement
import Monkey.Proofs.Recognition
import Monkey.Proofs.Lexing
import Monkey.Proofs.RoundTrip
import Monkey.Proofs.Accounting
import Monkey.Proofs.ExactReading
import Monkey.Proofs.Allocation
import Monkey.Proofs.Onward
import Monkey.Proofs.Renaming
import Monkey.Proofs.Simulation
import Monkey.Proofs.Independence
import Monkey.Proofs.Matching
import Monkey.Proofs.Comparison
import Monkey.Proofs.Footing
import Monkey.Proofs.Budget
import Monkey.Proofs.OnTheSpot
import Monkey.Proofs.Actions
import Monkey.Proofs.Reaching
import Monkey.Proofs.Turns
import Monkey.Proofs.RaisedLimit
import Monkey.Proofs.Awaiting
import Monkey.Proofs.ActiveCalls
import Monkey.Proofs.Handles
import Monkey.Proofs.SharedRegistry
import Monkey.Proofs.Hosts
import Monkey.Proofs.Endless
import Monkey.Proofs.Lockstep
import Monkey.Proofs.Alongside
import Monkey.Proofs.Expanding
import Monkey.Proofs.SourceReading
import Monkey.Proofs.MacroFree
import Monkey.Proofs.Phases
import Monkey.Proofs.Holding
import Monkey.Proofs.Confined
import Monkey.Proofs.Nesting
import Monkey.Proofs.Joins
import Monkey.Proofs.Spelling
import Monkey.Proofs.Tokenization
import Monkey.Proofs.Seam
import Monkey.Proofs.Transfer
import Monkey.Proofs.Shielding
import Monkey.Proofs.Piecewise
import Monkey.Proofs.FailedSource
import Monkey.Proofs.Reserved
import Monkey.Proofs.LexicalScopes
import Monkey.Proofs.Interaction
import Monkey.Proofs.Enclave
import Monkey.Proofs.Staying
import Monkey.Proofs.MacroCalls
import Monkey.Proofs.MacroLiterals
import Monkey.Proofs.ExpandedPrograms
import Monkey.Proofs.Templates
import Monkey.Proofs.WithoutMacros
import Monkey.Proofs.Postorder
import Monkey.Proofs.Scalars
import Monkey.Proofs.KeyOrder
import Monkey.Proofs.HashLiterals
import Monkey.Proofs.Laws
import Monkey.Proofs.Blame
import Monkey.Proofs.Layout
import Monkey.Proofs.Progress
import Monkey.Proofs.Ledgers
import Monkey.Proofs.Memory
import Monkey.Proofs.Equivalence
import Monkey.Proofs.Settling
import Monkey.Proofs.CallLimit
import Monkey.Proofs.MapReduce
