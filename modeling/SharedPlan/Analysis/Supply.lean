import SharedPlan.Attempt
import SharedPlan.Graph.Basic
import SharedPlan.Waypoint.Supply

/-!
# SharedPlan.Analysis.Supply

The bottom-up pass.  Waypoints are visited in a given order; each emits what it
has for every active query, and the receivers of its edges take it in.  One pass
serves all queries.
-/

namespace SharedPlan

namespace PlanGraph

/-- Let a waypoint emit, and keep what it stored in doing so. -/
def emitAt (id : WaypointId) (active : QuerySet) : Attempt PlanGraph QuerySlots :=
  .ofOutcome fun g =>
    match g.waypoint id with
    | .error e => (.error e, g)
    | .ok w =>
      let (w, emitted) := w.emit active
      (emitted, g.replace w)

/-- Hand what was emitted to the receiver of an edge. -/
def deliver (emitted : QuerySlots) (e : Edge) : Attempt PlanGraph Unit :=
  .update fun g => do
    let w ← g.waypoint e.receiver
    return g.replace (w.receive e.kind emitted)

/-- Visit one waypoint. -/
def supplyFrom (active : QuerySet) (id : WaypointId) : Attempt PlanGraph Unit := do
  let emitted ← emitAt id active
  ((← get).outputs id).forM fun e =>
    if e.receiver.isSentinel then pure () else deliver emitted e

/-- The bottom-up pass over the waypoints of an order. -/
def supplyPass (order : List WaypointId) (active : QuerySet) : Attempt PlanGraph Unit :=
  order.forM (supplyFrom active)

end PlanGraph

end SharedPlan
