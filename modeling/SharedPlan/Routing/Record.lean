import SharedPlan.Json.Fields
import SharedPlan.Json.Printer
import SharedPlan.Json.Reader
import SharedPlan.Routing.Table

/-!
# SharedPlan.Routing.Record

Routing tables as JSON: the list of waypoints, and a record for each link with the
exits that travel over it.  Reading replays the records on an empty table, so
records of one link may be split, repeated and reordered.
-/

namespace SharedPlan

/-- The exits of a link, as they are written. -/
structure LinkRecord where
  sender : WaypointId
  receiver : WaypointId
  exits : List QueryExit
  deriving DecidableEq

/-- A routing table, as it is written. -/
structure RoutingRecord where
  nodes : List WaypointId
  links : List LinkRecord
  deriving DecidableEq

/-! ## Writing -/

/-- A waypoint by its number. -/
def WaypointId.toJson (w : WaypointId) : Json := .ofNat w.val.toNat

/-- A query by its number. -/
def QueryId.toJson (q : QueryId) : Json := .ofNat q.val.toNat

/-- A query exit as the record of its parts. -/
def QueryExit.toJson (e : QueryExit) : Json :=
  .record [("query", e.query.toJson), ("exit", e.exit.toJson)]

/-- The exits of a link. -/
def LinkRecord.toJson (l : LinkRecord) : Json :=
  .record
    [("from", l.sender.toJson), ("to", l.receiver.toJson), ("exits", .ofList (·.toJson) l.exits)]

/-- A routing table. -/
def RoutingRecord.toJson (r : RoutingRecord) : Json :=
  .record [("nodes", .ofList (·.toJson) r.nodes), ("links", .ofList (·.toJson) r.links)]

namespace RoutingTable

/-- What is written of a table. -/
def toRecord (t : RoutingTable) : RoutingRecord :=
  ⟨t.nodes.keys, t.links.map fun (sender, receiver, exits) => ⟨sender, receiver, exits.toList⟩⟩

/-- A table as text, with one item or member to a line. -/
def toText (t : RoutingTable) : String := t.toRecord.toJson.pretty

end RoutingTable

/-! ## Reading -/

open Json (fields? required list?)

/-- A waypoint by its number. -/
def WaypointId.ofJson? (j : Json) : Option WaypointId :=
  (j.natBelow? UInt32.size).map fun n => ⟨n.toUInt32⟩

/-- A query by its number. -/
def QueryId.ofJson? (j : Json) : Option QueryId := (j.natBelow? UInt8.size).map fun n => ⟨n.toUInt8⟩

/-- A query exit from the record of its parts. -/
def QueryExit.ofJson? (j : Json) : Option QueryExit := do
  let [query, exit] ← fields? ["query", "exit"] j | none
  return ⟨← required QueryId.ofJson? query, ← required WaypointId.ofJson? exit⟩

/-- The exits of a link. -/
def LinkRecord.ofJson? (j : Json) : Option LinkRecord := do
  let [sender, receiver, exits] ← fields? ["from", "to", "exits"] j | none
  return ⟨← required WaypointId.ofJson? sender, ← required WaypointId.ofJson? receiver,
    ← required (list? QueryExit.ofJson?) exits⟩

/-- A routing table. -/
def RoutingRecord.ofJson? (j : Json) : Option RoutingRecord := do
  let [nodes, links] ← fields? ["nodes", "links"] j | none
  return ⟨← required (list? WaypointId.ofJson?) nodes, ← required (list? LinkRecord.ofJson?) links⟩

namespace RoutingTable

/-- Add the exits of a record. -/
def addRecord (t : RoutingTable) (l : LinkRecord) : Except PlanError RoutingTable :=
  l.exits.foldlM (fun t exit => t.addLink l.sender l.receiver exit) t

/-- The table that what is written stands for. -/
def ofRecord (r : RoutingRecord) : Except PlanError RoutingTable := do
  let t ← r.nodes.foldlM addNode empty
  r.links.foldlM addRecord t

/-- The table that a text is.  Of a replay that fails, its wording is kept. -/
def parse (text : String) : Except PlanError RoutingTable :=
  match (Json.parse? text).bind RoutingRecord.ofJson? with
  | none => .error .malformedTable
  | some r =>
    match ofRecord r with
    | .ok t => .ok t
    | .error e => .error (.unreplayableTable e.message)

end RoutingTable

end SharedPlan
