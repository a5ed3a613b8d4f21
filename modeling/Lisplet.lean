import Lisplet.Main
import Lisplet.Toolkit
import Lisplet.Folder
import Lisplet.Proofs.Reader.Faults
import Lisplet.Proofs.Reader.Comments
import Lisplet.Proofs.Program.RoundTrip
import Lisplet.Proofs.Decimal.Finite
import Lisplet.Proofs.Value.Parts
import Lisplet.Proofs.Store.Frames
import Lisplet.Proofs.Library.Results
import Lisplet.Proofs.Eval.Discipline
import Lisplet.Proofs.Program.Execution
import Lisplet.Proofs.Eval.Standard
import Lisplet.Proofs.Program.Legibility
import Lisplet.Proofs.Eval.Scoping
import Lisplet.Proofs.Eval.Naming
import Lisplet.Proofs.Program.Confinement
import Lisplet.Proofs.Program.Hosting
import Lisplet.Proofs.Program.ScopeGraph
import Lisplet.Proofs.Store.Lookup
import Lisplet.Proofs.Reader.Shift
import Lisplet.Proofs.Eval.Log
import Lisplet.Proofs.Program.Concatenation
import Lisplet.Proofs.Eval.Rules
import Lisplet.Proofs.Program.Counters
import Lisplet.Proofs.Eval.Context
import Lisplet.Proofs.Program.Sequencing
import Lisplet.Proofs.Program.Closures
import Lisplet.Proofs.Program.Totals
import Lisplet.Proofs.Program.Pieces
import Lisplet.Proofs.Reader.Families
import Lisplet.Proofs.Library.Integers
import Lisplet.Proofs.Library.Comparison
import Lisplet.Proofs.Library.Division
import Lisplet.Proofs.Library.Operands
import Lisplet.Proofs.Reader.Outline
import Lisplet.Proofs.Reader.Closers
import Lisplet.Proofs.Reader.Separators
import Lisplet.Proofs.Text.Bytes
import Lisplet.Proofs.Location
import Lisplet.Proofs.Program.Visibility
import Lisplet.Proofs.Library.Counts
import Lisplet.Proofs.Value.Equality
import Lisplet.Proofs.Eval.Termination
import Lisplet.Proofs.Session
import Lisplet.Proofs.Reader.Classes
import Lisplet.Proofs.Reader.Descent.Progress
