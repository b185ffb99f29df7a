import Reckon.Source
import Reckon.Source.Rows
import Reckon.Operator
import Reckon.Numeral
import Reckon.Fault
import Reckon.Number.Binary64
import Reckon.Number
import Reckon.Number.Shortest
import Reckon.Number.Text
import Reckon.Number.Literal
import Reckon.Token
import Reckon.Statement
import Reckon.Postfix
import Reckon.Program
import Reckon.Object
import Reckon.Entropy
import Reckon.Store
import Reckon.Store.Snapshot
import Reckon.Store.Reclaim
import Reckon.Builtin
import Reckon.Machine
import Reckon.Session
import Reckon.JsonValue
import Reckon.Diagnostic.Catalogue
import Reckon.Diagnostic
import Reckon.Diagnostic.Text
import Reckon.Diagnostic.Json
import Reckon.Listing
import Reckon.CommandLine
import Reckon.Main
import Reckon.Proofs.Expression
import Reckon.Proofs.Precedence
import Reckon.Proofs.Heights
import Reckon.Proofs.Acceptance
import Reckon.Proofs.Faults
import Reckon.Proofs.Execution
import Reckon.Proofs.Lockstep
import Reckon.Proofs.Functions
import Reckon.Proofs.Sessions
import Reckon.Proofs.Bindings
import Reckon.Proofs.Evaluation
import Reckon.Proofs.Compilation
import Reckon.Proofs.Correctness
import Reckon.Proofs.Completion
import Reckon.Proofs.Confinement
import Reckon.Proofs.Infix
import Reckon.Proofs.Recognition
import Reckon.Proofs.Spreading
import Reckon.Proofs.Leftovers
import Reckon.Proofs.Histories
import Reckon.Proofs.RoundTrip
import Reckon.Proofs.Spans
import Reckon.Proofs.Lexemes
import Reckon.Proofs.Places
import Reckon.Proofs.Pieces
import Reckon.Proofs.Carrying
import Reckon.Proofs.Phases
import Reckon.Proofs.Elsewhere
import Reckon.Proofs.Work
import Reckon.Proofs.Joining
import Reckon.Proofs.Changes
import Reckon.Proofs.Effects
import Reckon.Proofs.Purity
import Reckon.Proofs.Handles
import Reckon.Proofs.Retention
import Reckon.Proofs.Pointing
import Reckon.Proofs.Blame
import Reckon.Proofs.Surrender
import Reckon.Proofs.Restitution
import Reckon.Proofs.Rebinding
import Reckon.Proofs.Surroundings
import Reckon.Proofs.Compounding
import Reckon.Proofs.Scanning
import Reckon.Proofs.Depiction
import Reckon.Proofs.Arithmetic
import Reckon.Proofs.WholeFloats
import Reckon.Proofs.Overflow
import Reckon.Proofs.Brackets
import Reckon.Proofs.Tokenization
import Reckon.Proofs.Denotation
import Reckon.Proofs.Wording
import Reckon.Proofs.Arrangement
import Reckon.Proofs.Accounting
import Reckon.Proofs.Noting
import Reckon.Proofs.Teardown
import Reckon.Proofs.Alignment
import Reckon.Proofs.Exactness
import Reckon.Proofs.Partition
import Reckon.Proofs.Underlining
