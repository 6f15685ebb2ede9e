import StackMaps.Main
import StackMaps.Proofs.Descriptor.Rereading
import StackMaps.Proofs.Flow.ConsistentDepth
import StackMaps.Proofs.Flow.ControlFlow
import StackMaps.Proofs.Flow.Handlers
import StackMaps.Proofs.Flow.Rerunning
import StackMaps.Proofs.Flow.Termination
import StackMaps.Proofs.Flow.Tracking
import StackMaps.Proofs.Flow.WideLocals
import StackMaps.Proofs.Flow.Widening
import StackMaps.Proofs.Frame.Reading
import StackMaps.Proofs.Hierarchy.Declarations
import StackMaps.Proofs.Listing.DynamicCalls
import StackMaps.Proofs.Listing.Literals
import StackMaps.Proofs.Listing.Recomputing
import StackMaps.Proofs.Overflow
import StackMaps.Proofs.Slots.ClassJoins
import StackMaps.Proofs.Slots.Monotonicity
