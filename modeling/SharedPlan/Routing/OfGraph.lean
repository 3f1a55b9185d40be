import SharedPlan.Graph.Basic
import SharedPlan.Routing.Table

/-!
# SharedPlan.Routing.OfGraph

The routing table of an analysed plan graph.  Over an edge between two waypoints
travel the exits that the receiver recorded for edges of its kind, as far as the
sender is registered for their queries.
-/

namespace SharedPlan

namespace PlanGraph

/-- Add what travels over one edge. -/
def routeEdge (g : PlanGraph) (t : RoutingTable) (e : Edge) : Except PlanError RoutingTable := do
  let sender ← g.waypoint e.sender
  let receiver ← g.waypoint e.receiver
  let travelling := (receiver.allExits e.kind).filter fun x => sender.covers x.query
  travelling.foldlM (fun t x => t.addLink e.sender e.receiver x) t

/-- The routing table of the graph. -/
def routing (g : PlanGraph) : Except PlanError RoutingTable := do
  let t ← g.ids.foldlM RoutingTable.addNode .empty
  g.edges.foldlM g.routeEdge t

end PlanGraph

end SharedPlan
