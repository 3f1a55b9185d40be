import SharedPlan.Graph.Basic

/-!
# SharedPlan.Graph.Order

The topological order of the waypoints over the edges between them.

Waypoints without open inputs wait in a queue; taking one closes its edges, and
the receivers that have no open input left join the queue in the order of their
ids.  A waypoint that never joins is on a cycle or behind one.
-/

namespace SharedPlan

namespace PlanGraph

/-- The number of edges from other waypoints into each waypoint. -/
def openInputs (g : PlanGraph) : OrdMap WaypointId Nat :=
  g.edges.foldl (fun d e => d.alter e.receiver fun n => n.getD 0 + 1)
    (OrdMap.ofList (g.ids.map (·, 0)))

/-- Close edges: count each receiver down, and collect those that reach zero. -/
def closeEdges : List Edge → OrdMap WaypointId Nat → OrdMap WaypointId Nat × OrdSet WaypointId
  | [], d => (d, ∅)
  | e :: rest, d =>
    match d.get? e.receiver with
    | none => closeEdges rest d
    | some n =>
      let (d', ready) := closeEdges rest (d.insert e.receiver (n - 1))
      (d', if n - 1 = 0 then ready.insert e.receiver else ready)

/-- Take waypoints from the queue, at most as many as the bound says.  The
answer is the waypoints taken and the inputs still open. -/
def drain (g : PlanGraph) :
    Nat → List WaypointId → OrdMap WaypointId Nat → List WaypointId × OrdMap WaypointId Nat
  | 0, _, d => ([], d)
  | _, [], d => ([], d)
  | n + 1, id :: queue, d =>
    let (d, ready) := closeEdges (g.successors id) d
    let (order, d) := g.drain n (queue ++ ready.toList) d
    (id :: order, d)

/-- The waypoints without open inputs, ascending. -/
def initialQueue (d : OrdMap WaypointId Nat) : List WaypointId :=
  (d.filter fun _ n => n = 0).keys

/-- The order in which waypoints are visited bottom-up, ties broken by id; each
waypoint joins the queue at most once, so their number bounds the run.  If some
are left over, the one with the least id among those with open inputs is
reported. -/
def topologicalOrder (g : PlanGraph) : Except PlanError (List WaypointId) :=
  let (order, left) := g.drain g.size (initialQueue g.openInputs) g.openInputs
  if order.length < g.size then
    let stuck := ((left.filter fun _ n => 0 < n).keys.head?).getD .bottom
    .error (.cycleDetected (((g.find? stuck).map (·.name)).getD stuck.text))
  else .ok order

end PlanGraph

end SharedPlan
