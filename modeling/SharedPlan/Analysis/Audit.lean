import SharedPlan.Graph.Basic

/-!
# SharedPlan.Analysis.Audit

Checks after the demand walk of a query: every waypoint that the walk entered
holds an exit for it, and which waypoints it is registered on were never entered.
-/

namespace SharedPlan

namespace PlanGraph

/-- Fails unless every waypoint of a set recorded an exit for a query. -/
def checkExits (g : PlanGraph) (q : QueryId) (reached : OrdSet WaypointId) :
    Except PlanError Unit :=
  reached.toList.forM fun id => do
    let w ← g.waypoint id
    if (w.flow q).hasExit then return else throw (.missingExit w.name q)

/-- The waypoints that a query is registered on and that are not in a set, in
the order they were added. -/
def unreachable (g : PlanGraph) (q : QueryId) (reached : OrdSet WaypointId) : List WaypointId :=
  (g.waypoints.filter fun w => w.covers q && w.id ∉ reached).map (·.id)

end PlanGraph

end SharedPlan
