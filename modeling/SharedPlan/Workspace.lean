import SharedPlan.Attempt
import SharedPlan.Graph.Basic
import SharedPlan.Names.Attributes
import SharedPlan.Names.Waypoints
import SharedPlan.Names.Queries
import SharedPlan.Waypoint.Duty

/-!
# SharedPlan.Workspace

A plan under construction: the three registries and the graph, and the calls that
build it by name.

A call first resolves every name it mentions, queries before attributes before
waypoints, and then makes one change to the graph; a call that fails changes
nothing but the counters of the interner.
-/

namespace SharedPlan

/-- The registries and the graph of a plan. -/
structure Workspace where
  names : WaypointNames
  queries : QueryRegistry
  attributes : Attributes
  graph : PlanGraph
  deriving DecidableEq, Inhabited

/-- A waypoint to be created, with what its role is created with. -/
inductive WaypointSpec where
  | scanner (name relation : String) (columns : List String)
  | textLoader (name : String) (columns files : List String)
  | ingest (name adapter : String) (columns : List String)
  | selection (name : String)
  | join (name : String) (lhsColumns lhsKeys : List String)
  | aggregate (name : String)
  | transform (name : String)
  | iterative (name : String)
  | print (name : String)
  | cache (name : String)
  | compact (name : String)
  | cluster (name relation column : String)
  deriving DecidableEq

/-- A registration of queries on a waypoint. -/
inductive Registration where
  | scanner (waypoint : String) (queries : List String)
  | writer (waypoint query : String) (columns : List String)
  | scanRange (waypoint query : String) (range : ScanRange)
  | textLoader (waypoint : String) (queries : List String)
  | ingest (waypoint : String) (queries : List String)
  | filter (waypoint query : String) (columns : List String)
  | synthesized (waypoint query column : String) (dependsOn : List String)
  | bypass (waypoint query : String)
  | join (waypoint query : String) (rhsColumns rhsKeys : List String) (kind : JoinKind)
  | aggregate (waypoint query : String) (outputs inputs states : List String)
      (returnAsState : Bool)
  | transform (waypoint query : String) (outputs inputs states : List String)
  | iterative (waypoint query : String) (outputs states : List String)
  | print (waypoint query : String) (columns : List String) (header : Option String)
  | cache (waypoint query : String)
  | compact (waypoint query : String)
  | cluster (waypoint query : String)
  deriving DecidableEq

namespace WaypointSpec

/-- The name of the waypoint to be created. -/
def name : WaypointSpec → String
  | scanner n _ _ | textLoader n _ _ | ingest n _ _ | selection n | join n _ _ | aggregate n
  | transform n | iterative n | print n | cache n | compact n | cluster n _ _ => n

end WaypointSpec

namespace Registration

/-- The name of the waypoint registered on. -/
def waypoint : Registration → String
  | scanner w _ | writer w _ _ | scanRange w _ _ | textLoader w _ | ingest w _ | filter w _ _
  | synthesized w _ _ _ | bypass w _ | join w _ _ _ _ | aggregate w _ _ _ _ _
  | transform w _ _ _ _ | iterative w _ _ _ | print w _ _ _ | cache w _ | compact w _
  | cluster w _ => w

/-- The names of the queries registered. -/
def queries : Registration → List String
  | scanner _ qs | textLoader _ qs | ingest _ qs => qs
  | writer _ q _ | scanRange _ q _ | filter _ q _ | synthesized _ q _ _ | bypass _ q
  | join _ q _ _ _ | aggregate _ q _ _ _ _ | transform _ q _ _ _ | iterative _ q _ _
  | print _ q _ _ | cache _ q | compact _ q | cluster _ q => [q]

end Registration

namespace Workspace

/-! ## Names -/

/-- The waypoint that a name stands for. -/
def waypointId (ws : Workspace) (name : String) : Except PlanError WaypointId :=
  match ws.names.lookup name with
  | some id => .ok id
  | none => .error (.unknownWaypoint name)

/-- The waypoints that names stand for. -/
def waypointIds (ws : Workspace) (names : List String) : Except PlanError (List WaypointId) :=
  names.mapM ws.waypointId

/-- The role of a waypoint to be created. -/
def roleOf (ws : Workspace) : WaypointSpec → Except PlanError Role
  | .scanner _ relation columns => do
    return .scanner relation (← ws.attributes.resolveSet columns) ∅
  | .textLoader _ columns files => do
    return .textLoader (← ws.attributes.resolveSet columns) files
  | .ingest _ adapter columns => do return .ingest adapter (← ws.attributes.resolveSet columns)
  | .selection _ => .ok (.selection ∅)
  | .join _ columns keys => do
    let columns ← ws.attributes.resolveSet columns
    return .join columns (← ws.attributes.resolveList keys) ∅
  | .aggregate _ => .ok (.aggregate ∅)
  | .transform _ => .ok (.transform ∅)
  | .iterative _ => .ok (.iterative ∅)
  | .print _ => .ok (.print ∅)
  | .cache _ => .ok (.cache ∅)
  | .compact _ => .ok (.compact ∅)
  | .cluster _ relation column => do return .cluster relation (← ws.attributes.resolve column)

/-- The duty that a registration stands for. -/
def dutyOf (ws : Workspace) : Registration → Except PlanError Duty
  | .scanner .. => .ok .scan
  | .writer _ _ columns => do return .write (← ws.attributes.resolveSet columns)
  | .scanRange _ _ range => .ok (.scanRange range)
  | .textLoader .. => .ok .loadText
  | .ingest .. => .ok .ingest
  | .filter _ _ columns => do return .filter (← ws.attributes.resolveSet columns)
  | .synthesized _ _ column dependsOn => do
    let slot ← ws.attributes.resolve column
    return .synthesize slot (← ws.attributes.resolveSet dependsOn)
  | .bypass .. => .ok .bypass
  | .join _ _ columns keys kind => do
    let columns ← ws.attributes.resolveSet columns
    return .join columns (← ws.attributes.resolveList keys) kind
  | .aggregate _ _ outputs inputs states _ => do
    let outputs ← ws.attributes.resolveSet outputs
    let inputs ← ws.attributes.resolveSet inputs
    return .aggregate outputs inputs (← ws.waypointIds states)
  | .transform _ _ outputs inputs states => do
    let outputs ← ws.attributes.resolveSet outputs
    let inputs ← ws.attributes.resolveSet inputs
    return .transform outputs inputs (← ws.waypointIds states)
  | .iterative _ _ outputs states => do
    let outputs ← ws.attributes.resolveSet outputs
    return .iterate outputs (← ws.waypointIds states)
  | .print _ _ columns header => do return .print (← ws.attributes.resolveSet columns) header
  | .cache .. => .ok .cache
  | .compact .. => .ok .compact
  | .cluster .. => .ok .cluster

/-! ## Building -/

/-- Create a waypoint.  Its name is interned before the graph is asked, and a
name that the graph refuses stays interned. -/
def create (spec : WaypointSpec) : Attempt Workspace WaypointId :=
  .ofOutcome fun ws =>
    match ws.roleOf spec with
    | .error e => (.error e, ws)
    | .ok role =>
      let (id, names) := ws.names.intern spec.name
      match ws.graph.addWaypoint (.fresh id spec.name role) with
      | .error e => (.error e, { ws with names })
      | .ok graph => (.ok id, { ws with names, graph })

/-- Connect two waypoints. -/
def connect (sender receiver : String) (kind : EdgeKind) : Attempt Workspace Unit :=
  .update fun ws => do
    let senderId ← ws.waypointId sender
    let receiverId ← ws.waypointId receiver
    return { ws with graph := ← ws.graph.addEdge senderId receiverId kind }

/-- Register queries for a duty on a waypoint. -/
def assign (waypoint : String) (queries : List QueryId) (duty : Duty) (ws : Workspace) :
    Except PlanError Workspace := do
  let id ← ws.waypointId waypoint
  let w ← ws.graph.waypoint id
  if w.kind ∈ duty.kinds then
    let graph := ws.graph.replace (queries.foldl (·.enrol · duty) w)
    let graph ← if duty.rooted then queries.foldlM (·.setRoot · id) graph else .ok graph
    return { ws with graph }
  else throw (.wrongKind waypoint duty.kinds w.kind)

/-- Have an aggregate hand on its result for a query as state. -/
def returnAsState (waypoint query : String) : Attempt Workspace Unit :=
  .update fun ws => do
    let q ← ws.queries.resolve query
    ws.assign waypoint [q] .returnAsState

/-- Carry out a registration, but for the flag of an aggregate. -/
def registerDuty (r : Registration) : Attempt Workspace Unit :=
  .update fun ws => do
    let queries ← r.queries.mapM ws.queries.resolve
    let duty ← ws.dutyOf r
    ws.assign r.waypoint queries duty

/-- Carry out a registration. -/
def register (r : Registration) : Attempt Workspace Unit := do
  registerDuty r
  match r with
  | .aggregate waypoint query _ _ _ true => returnAsState waypoint query
  | _ => return

/-! ## Queries -/

/-- Give a new query an id. -/
def addQuery (name : String) : Attempt Workspace QueryId :=
  .ofOutcome fun ws =>
    match ws.queries.add name with
    | .error e => (.error e, ws)
    | .ok (q, queries) => (.ok q, { ws with queries })

/-- Give an active query another name. -/
def addAlias (name : String) (q : QueryId) : Attempt Workspace Unit :=
  .update fun ws => do return { ws with queries := ← ws.queries.addAlias name q }

/-- Delete the query that a name or alias stands for: every waypoint forgets it,
and its id is free again. -/
def deleteQuery (ws : Workspace) (name : String) : Bool × Workspace :=
  match ws.queries.lookup name with
  | none => (false, ws)
  | some q => (true, { ws with graph := ws.graph.deleteQuery q, queries := ws.queries.remove q })

/-- Delete every query; waypoints and edges stay. -/
def clearQueries (ws : Workspace) : Workspace :=
  { ws with
    graph := ws.graph.clearQueries
    queries := ws.queries.active.toList.foldl (·.remove ·) ws.queries }

end Workspace

end SharedPlan
