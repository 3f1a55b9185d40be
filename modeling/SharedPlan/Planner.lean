import SharedPlan.Analysis.Cycle
import SharedPlan.Config
import SharedPlan.Document.Basic
import SharedPlan.Routing.OfGraph

/-!
# SharedPlan.Planner

A planner: settings, a plan under construction, and the snapshot published last.

A compile cycle analyses the graph for the active queries and compiles its
routing.  Only a cycle that succeeds publishes a snapshot and counts; one that
fails leaves the snapshot and the counter as they are.  The counter is a word,
which begins anew at `2 ^ 64`.
-/

namespace SharedPlan

/-- What a successful cycle publishes. -/
structure Snapshot where
  /-- The number of the cycle; zero before the first. -/
  cycle : UInt64
  routing : RoutingTable
  /-- The record of each waypoint in the order they were added. -/
  configs : List WaypointConfig
  /-- The queries that were active. -/
  queries : QuerySet
  deriving DecidableEq, Inhabited

namespace Snapshot

/-- The snapshot of a planner that has not compiled yet. -/
def initial : Snapshot := ⟨0, .empty, [], ∅⟩

/-- The record of a waypoint by its name. -/
def config? (s : Snapshot) (name : String) : Option WaypointConfig :=
  s.configs.find? fun c => c.name = name

end Snapshot

/-- A plan under construction with its settings and what was published of it. -/
structure Planner where
  options : PlannerOptions
  workspace : Workspace
  /-- The number of cycles that succeeded. -/
  cycle : UInt64
  /-- The snapshot published last. -/
  snapshot : Snapshot
  deriving DecidableEq

namespace Planner

/-- A planner without waypoints and queries. -/
def new (options : PlannerOptions) (attributes : Attributes) : Planner :=
  { options
    workspace :=
      { names := .initial, queries := .withCapacity options.maxQueries.toNat, attributes
        graph := .empty }
    cycle := 0
    snapshot := .initial }

/-- A step on the plan under construction. -/
def build {α : Type} (step : Attempt Workspace α) : Attempt Planner α :=
  step.within (·.workspace) fun p ws => { p with workspace := ws }

/-- The planner whose plan is a document. -/
def ofDocument (options : PlannerOptions) (d : PlanDocument) : Except PlanError Planner :=
  match (build (Workspace.apply d)).outcome (new options d.attributeRegistry) with
  | (.ok (), p) => .ok p
  | (.error e, _) => .error e

/-- Delete a query by name or alias. -/
def deleteQuery (p : Planner) (name : String) : Bool × Planner :=
  let (deleted, workspace) := p.workspace.deleteQuery name
  (deleted, { p with workspace })

/-- Delete every query. -/
def clearQueries (p : Planner) : Planner := { p with workspace := p.workspace.clearQueries }

/-- Analyse the graph and compile its routing. -/
def analyzeAndRoute (active : QuerySet) (options : PlannerOptions) :
    Attempt PlanGraph RoutingTable := do
  let _ ← PlanGraph.analyze active options
  .ofExcept (← get).routing

/-- Run a compile cycle. -/
def compile : Attempt Planner Snapshot :=
  .ofOutcome fun p =>
    let active := p.workspace.queries.active
    let (routed, graph) := (analyzeAndRoute active p.options).outcome p.workspace.graph
    let p := { p with workspace := { p.workspace with graph } }
    match routed with
    | .error e => (.error e, p)
    | .ok routing =>
      let snapshot := ⟨p.cycle + 1, routing, graph.waypoints.map (·.config), active⟩
      (.ok snapshot, { p with cycle := p.cycle + 1, snapshot })

/-- Run a compile cycle unless another one is running. -/
def tryCompile (inFlight : Bool) : Attempt Planner Snapshot :=
  if inFlight then .ofExcept (.error .compileInFlight) else compile

end Planner

end SharedPlan
