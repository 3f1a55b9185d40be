import SharedPlan.Workspace

/-!
# SharedPlan.Document.Basic

A plan document: a complete plan by name, and how it is carried out.

Applying a document adds the queries that are not there yet, then aliases, then
waypoints, edges and registrations, each list in its order.  The first failure ends
it, and what was done before stays done.
-/

namespace SharedPlan

/-- An edge of a document. -/
structure EdgeSpec where
  sender : String
  receiver : String
  kind : EdgeKind
  deriving DecidableEq

/-- A complete plan by name. -/
structure PlanDocument where
  /-- Attribute names; slots are given in this order. -/
  attributes : List String
  queries : List String
  /-- Further names of queries. -/
  aliases : OrdMap String String
  waypoints : List WaypointSpec
  edges : List EdgeSpec
  registrations : List Registration
  deriving DecidableEq, Inhabited

namespace PlanDocument

/-- The registry of the declared attributes. -/
def attributeRegistry (d : PlanDocument) : Attributes := .ofNames d.attributes

end PlanDocument

namespace Workspace

/-- Add a query unless its name already stands for one. -/
def declareQuery (name : String) : Attempt Workspace Unit := do
  if ((← get).queries.lookup name).isNone then
    let _ ← addQuery name

/-- Add an alias unless it already stands for the query. -/
def declareAlias (name query : String) : Attempt Workspace Unit := do
  let q ← .ofExcept ((← get).queries.resolve query)
  if (← get).queries.lookup name ≠ some q then addAlias name q

/-- What an unknown attribute means where a document creates a waypoint. -/
def undeclared (waypoint : String) : PlanError → PlanError
  | .unknownAttribute attr => .undeclaredAttribute waypoint attr
  | e => e

/-- Create a waypoint of a document. -/
def declareWaypoint (spec : WaypointSpec) : Attempt Workspace Unit :=
  .ofOutcome fun ws =>
    match (create spec).outcome ws with
    | (.ok _, ws) => (.ok (), ws)
    | (.error e, ws) => (.error (undeclared spec.name e), ws)

/-- Carry out a document. -/
def apply (d : PlanDocument) : Attempt Workspace Unit := do
  d.queries.forM declareQuery
  d.aliases.entries.forM fun e => declareAlias e.1 e.2
  d.waypoints.forM declareWaypoint
  d.edges.forM fun e => connect e.sender e.receiver e.kind
  d.registrations.forM register

end Workspace

end SharedPlan
