import SharedPlan.Main
import SharedPlan.Document.Writer
import SharedPlan.Proofs.Analysis.Converging
import SharedPlan.Proofs.Analysis.Demanded
import SharedPlan.Proofs.Analysis.Dropped
import SharedPlan.Proofs.Analysis.Equations
import SharedPlan.Proofs.Analysis.Memory
import SharedPlan.Proofs.Analysis.Reordered
import SharedPlan.Proofs.Planner.Atomic
import SharedPlan.Proofs.Planner.Erased
import SharedPlan.Proofs.Document.RoundTrip
import SharedPlan.Proofs.Graph.Cycles
import SharedPlan.Proofs.Planner.Interleaved
import SharedPlan.Proofs.Routing.Delivery
import SharedPlan.Proofs.Routing.Isolation
import SharedPlan.Proofs.Routing.RoundTrip
import SharedPlan.Proofs.Analysis.Bounded
import SharedPlan.Proofs.Graph.Arena
import SharedPlan.Proofs.Names.Ledger
import SharedPlan.Proofs.Planner.Cleared
import SharedPlan.Proofs.Routing.Mirrored
import SharedPlan.Proofs.Names.Interner
import SharedPlan.Proofs.Names.Word
import SharedPlan.Proofs.Options.RoundTrip
import SharedPlan.Proofs.Routing.Drawing
import SharedPlan.Proofs.Waypoint.InPlace
