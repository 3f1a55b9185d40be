import SharedPlan.Error
import SharedPlan.Waypoint.Basic

/-!
# SharedPlan.Graph.Basic

The plan graph: waypoints in the order they were added, edges in the order they
were placed, and the root of each query.

The two sentinels exist only as ends of edges: a source has an edge from the
bottom sentinel, a sink and every root an edge to the top sentinel, and these are
placed by the graph itself.  Waypoints are never removed; deleting a query clears
what the waypoints keep for it.
-/

namespace SharedPlan

/-- A directed edge. -/
structure Edge where
  sender : WaypointId
  receiver : WaypointId
  kind : EdgeKind
  deriving DecidableEq, Inhabited

/-- Whether an end of the edge is a sentinel. -/
def Edge.touchesSentinel (e : Edge) : Bool := e.sender.isSentinel || e.receiver.isSentinel

/-- Waypoints, edges and roots. -/
structure PlanGraph where
  /-- The waypoints in the order they were added. -/
  waypoints : List Waypoint
  /-- The edges, sentinel edges included, in the order they were placed. -/
  links : List Edge
  /-- The root of each query. -/
  roots : OrdMap QueryId WaypointId
  deriving DecidableEq

namespace PlanGraph

/-- The graph without waypoints. -/
def empty : PlanGraph := ⟨[], [], ∅⟩

instance : Inhabited PlanGraph := ⟨empty⟩

/-- The waypoint with an id. -/
def find? (g : PlanGraph) (id : WaypointId) : Option Waypoint :=
  g.waypoints.find? fun w => w.id = id

/-- Whether the graph holds a waypoint with an id. -/
def contains (g : PlanGraph) (id : WaypointId) : Bool := (g.find? id).isSome

/-- The waypoint with an id; an unknown id is an error. -/
def waypoint (g : PlanGraph) (id : WaypointId) : Except PlanError Waypoint :=
  match g.find? id with
  | some w => .ok w
  | none => .error (.unknownId id)

/-- Put a waypoint in the place of the one with its id. -/
def replace (g : PlanGraph) (w : Waypoint) : PlanGraph :=
  { g with waypoints := g.waypoints.map fun v => if v.id = w.id then w else v }

/-- Change every waypoint. -/
def mapWaypoints (g : PlanGraph) (f : Waypoint → Waypoint) : PlanGraph :=
  { g with waypoints := g.waypoints.map f }

/-- The ids of the waypoints in the order they were added. -/
def ids (g : PlanGraph) : List WaypointId := g.waypoints.map (·.id)

/-- The number of waypoints. -/
def size (g : PlanGraph) : Nat := g.waypoints.length

/-- The edges into a waypoint, the one from the bottom sentinel included. -/
def inputs (g : PlanGraph) (id : WaypointId) : List Edge :=
  if g.contains id then g.links.filter fun e => e.receiver = id else []

/-- The edges out of a waypoint, the one to the top sentinel included. -/
def outputs (g : PlanGraph) (id : WaypointId) : List Edge :=
  if g.contains id then g.links.filter fun e => e.sender = id else []

/-- The edges out of a waypoint that lead to other waypoints. -/
def successors (g : PlanGraph) (id : WaypointId) : List Edge :=
  (g.outputs id).filter fun e => !e.touchesSentinel

/-- The edges between waypoints, grouped by their sender in the order of the waypoints. -/
def edges (g : PlanGraph) : List Edge := g.ids.flatMap g.successors

/-- The root of a query. -/
def root? (g : PlanGraph) (q : QueryId) : Option WaypointId := g.roots.get? q

/-! ## Construction -/

/-- Place an edge. -/
def link (g : PlanGraph) (sender receiver : WaypointId) (kind : EdgeKind) : PlanGraph :=
  { g with links := g.links ++ [⟨sender, receiver, kind⟩] }

/-- Add a waypoint, with the sentinel edge of its kind. -/
def addWaypoint (g : PlanGraph) (w : Waypoint) : Except PlanError PlanGraph :=
  if w.id.isSentinel then .error (.invalidEdge w.id w.id .sentinelWaypoint)
  else if g.contains w.id then .error (.duplicateWaypoint w.name)
  else
    let g := { g with waypoints := g.waypoints ++ [w] }
    let g := if w.kind.isSource then g.link .bottom w.id .flowThrough else g
    .ok (if w.kind.isSink then g.link w.id .top .terminating else g)

/-- Connect two waypoints.  An edge that is there already stays as it is, and
between two waypoints there is at most one. -/
def addEdge (g : PlanGraph) (sender receiver : WaypointId) (kind : EdgeKind) :
    Except PlanError PlanGraph :=
  if sender.isSentinel || receiver.isSentinel then
    .error (.invalidEdge sender receiver .sentinelEdge)
  else if !g.contains sender then .error (.unknownId sender)
  else if !g.contains receiver then .error (.unknownId receiver)
  else
    match (g.outputs sender).find? fun e => e.receiver = receiver with
    | some e => if e.kind = kind then .ok g else .error (.invalidEdge sender receiver .otherKind)
    | none => .ok (g.link sender receiver kind)

/-- Make a waypoint the root of a query; a root has an edge to the top sentinel. -/
def setRoot (g : PlanGraph) (q : QueryId) (id : WaypointId) : Except PlanError PlanGraph :=
  if !g.contains id then .error (.unknownId id)
  else
    let rooted :=
      if (g.outputs id).any fun e => e.receiver = .top then g else g.link id .top .terminating
    .ok { rooted with roots := rooted.roots.insert q id }

/-- Forget a query on every waypoint, and its root. -/
def deleteQuery (g : PlanGraph) (q : QueryId) : PlanGraph :=
  { g.mapWaypoints (·.deleteQuery q) with roots := g.roots.erase q }

/-- Forget every query and every root; waypoints and edges stay. -/
def clearQueries (g : PlanGraph) : PlanGraph :=
  { g.mapWaypoints (·.clear) with roots := ∅ }

/-- Begin a cycle on every waypoint. -/
def beginCycle (g : PlanGraph) : PlanGraph := g.mapWaypoints (·.beginCycle)

/-! ## Look-ups after a change -/

@[simp] theorem ids_replace (g : PlanGraph) (w : Waypoint) : (g.replace w).ids = g.ids := by
  simp only [ids, replace, List.map_map]
  refine List.map_congr_left fun v _ => ?_
  by_cases h : v.id = w.id <;> simp [h]

/-- The new waypoint is found under its id if one was before. -/
theorem find?_replace (g : PlanGraph) (w : Waypoint) (id : WaypointId) :
    (g.replace w).find? id =
      if id = w.id then (g.find? id).map fun _ => w else g.find? id := by
  simp only [find?, replace]
  induction g.waypoints with
  | nil => simp
  | cons v rest ih =>
    rw [List.map_cons, List.find?_cons, List.find?_cons, ih]
    by_cases hv : v.id = w.id
    · by_cases hw : id = w.id
      · simp [hv, hw]
      · simp [hv, hw, Ne.symm hw]
    · by_cases hw : v.id = id
      · simp [hw, show id ≠ w.id from fun e => hv (hw.trans e)]
      · simp [hv, hw]

theorem ids_mapWaypoints {f : Waypoint → Waypoint} (hf : ∀ w, (f w).id = w.id) (g : PlanGraph) :
    (g.mapWaypoints f).ids = g.ids := by
  simp only [ids, mapWaypoints, List.map_map, Function.comp_def, hf]

/-- Every waypoint is found changed. -/
theorem find?_mapWaypoints {f : Waypoint → Waypoint} (hf : ∀ w, (f w).id = w.id)
    (g : PlanGraph) (id : WaypointId) :
    (g.mapWaypoints f).find? id = (g.find? id).map f := by
  rw [find?, mapWaypoints, List.find?_map]
  simp only [Function.comp_def, hf, find?]

end PlanGraph

end SharedPlan
