import Unravel.Main
import Unravel.Proofs.Walk.Refinement
import Unravel.Proofs.Inlining.Preservation
import Unravel.Proofs.Strings.Denotation
import Unravel.Proofs.Strings.Simultaneity
import Unravel.Proofs.Walk.Touring
import Unravel.Proofs.Simplification.NormalForm
import Unravel.Proofs.Simplification.Values
import Unravel.Proofs.Simplification.Numbers
import Unravel.Proofs.Pipeline.Bookkeeping
import Unravel.Proofs.Pipeline.Totals
import Unravel.Proofs.Strings.Indexing
import Unravel.Proofs.Pass.Safety
import Unravel.Proofs.Inlining.Sequence
import Unravel.Proofs.Strings.Backing
import Unravel.Proofs.Inlining.Slots
import Unravel.Proofs.Renaming.Shorthand
import Unravel.Proofs.Simplification.Capture
import Unravel.Proofs.Strings.Agreement
import Unravel.Proofs.Strings.Following
import Unravel.Proofs.Walk.Scoping
import Unravel.Proofs.Strings.Rotation
import Unravel.Proofs.Inlining.Cycles
import Unravel.Proofs.Inlining.Termination
import Unravel.Proofs.Command.Output
