import SharedPlan.Analysis.Audit
import SharedPlan.Analysis.Demand
import SharedPlan.Analysis.Supply
import SharedPlan.Graph.Order
import SharedPlan.Options.Basic
import SharedPlan.QuerySet

/-!
# SharedPlan.Analysis.Cycle

A whole analysis: the order and the roots are found before anything changes, then
every waypoint begins a cycle, one supply pass serves all active queries, each
active query walks its demand, and the audit follows.  The first failure ends it.
-/

namespace SharedPlan

/-- What an analysis found. -/
structure AnalysisReport where
  /-- The order of the bottom-up pass. -/
  order : List WaypointId
  /-- The steps of each query's demand walk. -/
  visits : OrdMap QueryId Nat
  /-- The waypoints that a query is registered on but does not reach. -/
  unreachable : List (QueryId × WaypointId)
  deriving DecidableEq

namespace PlanGraph

/-- The root of a query; a query without one is an error. -/
def rootOf (g : PlanGraph) (q : QueryId) : Except PlanError (QueryId × WaypointId) :=
  match g.root? q with
  | some root => .ok (q, root)
  | none => .error (.missingRoot q)

/-- The roots of the active queries, ascending. -/
def activeRoots (g : PlanGraph) (active : QuerySet) :
    Except PlanError (List (QueryId × WaypointId)) :=
  active.toList.mapM g.rootOf

/-- Walk the demand of one query after another. -/
def demandWalks (limit : Nat) (roots : List (QueryId × WaypointId)) :
    Attempt PlanGraph (List (QueryId × WalkReport)) :=
  roots.mapM fun r => do
    let report ← demandWalk r.1 r.2 limit
    return (r.1, report)

/-- Audit the walks, and list what they did not reach, as the options say. -/
def audit (g : PlanGraph) (options : PlannerOptions) (walks : List (QueryId × WalkReport)) :
    Except PlanError (List (QueryId × WaypointId)) := do
  let strays ← walks.mapM fun r => do
    if options.verifyExits then g.checkExits r.1 r.2.entered
    return if options.warnUnreachable then (g.unreachable r.1 r.2.entered).map (r.1, ·) else []
  return strays.flatten

/-- Analyse the graph for the active queries. -/
def analyze (active : QuerySet) (options : PlannerOptions) : Attempt PlanGraph AnalysisReport := do
  let order ← .ofExcept (← get).topologicalOrder
  let roots ← .ofExcept ((← get).activeRoots active)
  modify beginCycle
  supplyPass order active
  let walks ← demandWalks options.maxWalkSteps.toNat roots
  let unreachable ← .ofExcept ((← get).audit options walks)
  return ⟨order, .ofList (walks.map fun r => (r.1, r.2.steps)), unreachable⟩

end PlanGraph

end SharedPlan
