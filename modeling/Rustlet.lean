import Rustlet.Session
import Rustlet.Text.Lines
import Rustlet.Proofs.Lockstep
import Rustlet.Proofs.Lockstep.Rules
import Rustlet.Proofs.Lockstep.Run
import Rustlet.Proofs.StrictMoves
import Rustlet.Proofs.Parallel
import Rustlet.Proofs.Parallel.Rules
import Rustlet.Proofs.TextContents
import Rustlet.Proofs.Declarations
import Rustlet.Proofs.Registration
import Rustlet.Proofs.RegistryHistory
import Rustlet.Proofs.Reordering
import Rustlet.Proofs.Printer
import Rustlet.Proofs.Reading
import Rustlet.Proofs.Reading.Levels
import Rustlet.Proofs.Reading.Expressions
import Rustlet.Proofs.Reading.Statements
import Rustlet.Proofs.RoundTrip
import Rustlet.Proofs.Proper.Rules
import Rustlet.Proofs.Extent
import Rustlet.Proofs.Terminated
import Rustlet.Proofs.Instances
import Rustlet.Proofs.Showing
import Rustlet.Proofs.Unfolding
import Rustlet.Proofs.DeclaredFields
import Rustlet.Proofs.Templates
import Rustlet.Proofs.Balance
import Rustlet.Proofs.Traces
import Rustlet.Proofs.Moves
import Rustlet.Proofs.Confinement
import Rustlet.Proofs.Confinement.Rules
import Rustlet.Proofs.Scoping
import Rustlet.Proofs.Assignment
import Rustlet.Proofs.FirstError
import Rustlet.Proofs.Mirror
import Rustlet.Proofs.Mirror.Rules
import Rustlet.Proofs.Wording
import Rustlet.Proofs.Erasure
import Rustlet.Proofs.Layout
import Rustlet.Proofs.Literals
import Rustlet.Proofs.NumberText
import Rustlet.Proofs.Streams
import Rustlet.Proofs.Places
import Rustlet.Proofs.Tiling
import Rustlet.Proofs.Naming
import Rustlet.Proofs.WellFormed
import Rustlet.Proofs.StartValues
import Rustlet.Proofs.Directives
import Rustlet.Proofs.TruePlaces
import Rustlet.Proofs.LineByLine
import Rustlet.Proofs.Diagnostics
import Rustlet.Proofs.Indexed.Outcome
import Rustlet.Proofs.Headroom
import Rustlet.Proofs.CallForms
import Rustlet.Proofs.EntryPoint
