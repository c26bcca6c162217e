import ThreeAddress.Main
import ThreeAddress.Proofs.Compile.Grouping
import ThreeAddress.Proofs.Compile.HitCounts
import ThreeAddress.Proofs.Compile.LoopFree
import ThreeAddress.Proofs.Compile.Saved
import ThreeAddress.Proofs.Compile.Soundness
import ThreeAddress.Proofs.Compile.Variables
import ThreeAddress.Proofs.Graph.Building
import ThreeAddress.Proofs.Layout.ControlFlow
import ThreeAddress.Proofs.Layout.Dumping
import ThreeAddress.Proofs.Layout.Flow
import ThreeAddress.Proofs.Layout.Labels
import ThreeAddress.Proofs.Layout.Patching
import ThreeAddress.Proofs.Layout.Segments
import ThreeAddress.Proofs.Lowering.Defects
import ThreeAddress.Proofs.Lowering.LinearUse
import ThreeAddress.Proofs.Machine.Atomicity
import ThreeAddress.Proofs.Machine.Confinement
import ThreeAddress.Proofs.Machine.Erasure
import ThreeAddress.Proofs.Machine.FloorDivision
import ThreeAddress.Proofs.Machine.Lifecycle
import ThreeAddress.Proofs.Machine.Restart
import ThreeAddress.Proofs.Machine.StepLimit
import ThreeAddress.Proofs.Source.RoundTrip
import ThreeAddress.Proofs.Wire.RoundTrip
