import NibTape.Fuzz.Arguments
import NibTape.Main
import NibTape.PolicyCatalog
import NibTape.Program.Mnemonic
import NibTape.Proofs.Execution
import NibTape.Proofs.Scene
import NibTape.Proofs.Step
import NibTape.Proofs.Safety
import NibTape.Proofs.Agreement
import NibTape.Proofs.Nesting
import NibTape.Proofs.Block
import NibTape.Proofs.Structured
import NibTape.Proofs.Failure
import NibTape.Proofs.Parallel
import NibTape.Proofs.StepSize
import NibTape.Proofs.Inert
import NibTape.Proofs.Wrapping
import NibTape.Proofs.Lockstep
import NibTape.Proofs.Input
import NibTape.Proofs.Budget
import NibTape.Proofs.Pairing
import NibTape.Proofs.Sequence
import NibTape.Proofs.Casing
import NibTape.Proofs.Dialogue
import NibTape.Proofs.Folding
import NibTape.Proofs.Growth
import NibTape.Proofs.Provenance
import NibTape.Proofs.ExitStatus
import NibTape.Proofs.Insertion
import NibTape.Proofs.DeadLoop
import NibTape.Proofs.RoundTrip
import NibTape.Proofs.Closing
import NibTape.Proofs.Generation
import NibTape.Proofs.Recurrence
import NibTape.Proofs.Endless
import NibTape.Proofs.Matching
import NibTape.Proofs.Walk
import NibTape.Proofs.LinearLoop
import NibTape.Proofs.GrowthRecord
import NibTape.Proofs.Verbosity
import NibTape.Proofs.CellHistory
import NibTape.Proofs.Duration
import NibTape.Proofs.Cancelling
import NibTape.Proofs.NestingDepth
import NibTape.Proofs.Overshoot
import NibTape.Proofs.Numeral
import NibTape.Proofs.Setup
import NibTape.Proofs.Switches
import NibTape.Proofs.Counting
import NibTape.Proofs.Listing
import NibTape.Proofs.Stacking
