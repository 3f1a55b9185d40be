import SharedPlan.Error
import SharedPlan.Ordered.Map

/-!
# SharedPlan.Routing.Table

The routing table: which query exits travel over which link.

Every link is stored twice, with its sender under the receivers and with its
receiver under the senders, so that looking along a link and looking against it
each read one entry.  `addNode` and `addLink` are the only ways to grow a table; a
call that fails answers no table, so nothing is ever half stored.
-/

namespace SharedPlan

/-- Exits grouped by the neighbour they travel to or come from. -/
abbrev Routes := OrdMap WaypointId ExitSet

/-- The links at one waypoint. -/
structure NodeLinks where
  /-- The exits that arrive, by sender. -/
  senders : Routes
  /-- The exits that leave, by receiver. -/
  receivers : Routes
  deriving DecidableEq, Inhabited

/-- The links at every waypoint. -/
structure RoutingTable where
  nodes : OrdMap WaypointId NodeLinks
  deriving DecidableEq, Inhabited

namespace RoutingTable

/-- The table without waypoints. -/
def empty : RoutingTable := ⟨∅⟩

/-- Whether the table lists a waypoint. -/
def contains (t : RoutingTable) (id : WaypointId) : Bool := t.nodes.contains id

/-- The links at a waypoint; an unlisted one is an error. -/
def node (t : RoutingTable) (id : WaypointId) : Except PlanError NodeLinks :=
  match t.nodes.get? id with
  | some links => .ok links
  | none => .error (.unknownId id)

/-- List a waypoint. -/
def addNode (t : RoutingTable) (id : WaypointId) : Except PlanError RoutingTable :=
  if t.contains id then .error (.duplicateWaypoint id.text)
  else .ok ⟨t.nodes.insert id ⟨∅, ∅⟩⟩

/-- Add an exit to those of a neighbour. -/
def addExit (routes : Routes) (neighbour : WaypointId) (exit : QueryExit) : Routes :=
  routes.alter neighbour fun exits => (exits.getD ∅).insert exit

/-- Let an exit travel over the link between two listed waypoints.  Of two
unlisted ends the receiver is reported. -/
def addLink (t : RoutingTable) (sender receiver : WaypointId) (exit : QueryExit) :
    Except PlanError RoutingTable :=
  if !t.contains receiver then .error (.unknownId receiver)
  else if !t.contains sender then .error (.unknownId sender)
  else
    let leaving := t.nodes.alter sender fun links =>
      let links := links.getD default
      { links with receivers := addExit links.receivers receiver exit }
    .ok ⟨leaving.alter receiver fun links =>
      let links := links.getD default
      { links with senders := addExit links.senders sender exit }⟩

/-- Every link with its exits, ordered by sender and then by receiver. -/
def links (t : RoutingTable) : List (WaypointId × WaypointId × ExitSet) :=
  t.nodes.entries.flatMap fun n => n.2.receivers.entries.map fun r => (n.1, r.1, r.2)

/-- The exits that travel over a link, if there is such a link. -/
def link? (t : RoutingTable) (sender receiver : WaypointId) : Option ExitSet :=
  (t.nodes.get? sender).bind fun links => links.receivers.get? receiver

/-- The fan-out at a waypoint: for every receiver, the destinations that travel
to it.  Receivers without any are left out. -/
def fanOut (t : RoutingTable) (id : WaypointId) (destinations : ExitSet) :
    Except PlanError Routes := do
  let links ← t.node id
  return links.receivers.filterMap fun _ exits =>
    let shared := exits ∩ destinations
    if shared.isEmpty then none else some shared

/-- The senders whose link to a waypoint carries an exit. -/
def carriers (t : RoutingTable) (id : WaypointId) (target : QueryExit) :
    Except PlanError (List WaypointId) := do
  let links ← t.node id
  return (links.senders.filter fun _ exits => target ∈ exits).keys

end RoutingTable

end SharedPlan
