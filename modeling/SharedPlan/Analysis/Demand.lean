import SharedPlan.Attempt
import SharedPlan.Graph.Basic
import SharedPlan.Waypoint.Demand

/-!
# SharedPlan.Analysis.Demand

The top-down pass of one query: a walk from its root over input edges, last
found first walked.

The walk remembers, for every arrival at a waypoint with some exit, what has been
asked there.  A visit that asks for nothing new is skipped, so shared parts of the
graph are walked once for each distinct demand and not once for each path.  The
number of steps, skipped visits included, is bounded by the caller.
-/

namespace SharedPlan

/-- A waypoint, and the exit at which what it carries is consumed. -/
structure Arrival where
  waypoint : WaypointId
  exit : WaypointId
  deriving DecidableEq, Inhabited

instance : Ord Arrival := ⟨compareLex (compareOn Arrival.waypoint) (compareOn Arrival.exit)⟩

instance : Std.TransOrd Arrival :=
  inferInstanceAs (Std.TransCmp (compareLex (compareOn Arrival.waypoint) (compareOn Arrival.exit)))

instance : Std.LawfulEqOrd Arrival where
  eq_of_compare {a b} h := by
    have h : compare a.waypoint b.waypoint = .eq ∧ compare a.exit b.exit = .eq :=
      Ordering.then_eq_eq.1 h
    cases a; cases b; congr 1
    · exact Std.LawfulEqCmp.eq_of_compare h.1
    · exact Std.LawfulEqCmp.eq_of_compare h.2

/-- An arrival that is still to be walked, with what it asks for. -/
structure Visit where
  arrival : Arrival
  needed : SlotSet
  deriving DecidableEq

/-- The state of a walk. -/
structure Walk where
  graph : PlanGraph
  /-- What has been asked at each arrival. -/
  asked : OrdMap Arrival SlotSet
  /-- The waypoints whose inputs were walked. -/
  entered : OrdSet WaypointId
  /-- The visits to be walked, the next one first. -/
  stack : List Visit
  deriving DecidableEq

/-- The result of a walk. -/
structure WalkReport where
  /-- The visits taken from the stack. -/
  steps : Nat
  /-- The waypoints whose inputs were walked. -/
  entered : OrdSet WaypointId
  deriving DecidableEq

namespace Walk

/-- The walk of a query before its first step. -/
def start (g : PlanGraph) (root : WaypointId) : Walk := ⟨g, ∅, ∅, [⟨⟨root, root⟩, ∅⟩]⟩

/-- What an arrival is asked for altogether once a visit is added, if the visit
adds anything. -/
def demandAt (s : Walk) (v : Visit) : Option SlotSet :=
  match s.asked.get? v.arrival with
  | none => some v.needed
  | some seen => if v.needed ⊆ seen then none else some (seen ∪ v.needed)

/-- The exit that a waypoint records over an input edge: its own if the stream
ends here, else that of the stream which goes on. -/
def exitOver (a : Arrival) : EdgeKind → WaypointId
  | .flowThrough => a.exit
  | .terminating => a.waypoint

/-- Pass a demand over one input edge.  The sender is visited next if the
waypoint carries the query over the edge. -/
def cross (q : QueryId) (a : Arrival) (needed : SlotSet) (e : Edge) (s : Walk) :
    Except PlanError Walk := do
  let w ← s.graph.waypoint a.waypoint
  let exit := exitOver a e.kind
  let (below, w) ← w.ask e.kind q needed ⟨q, exit⟩
  let stack :=
    if w.holdsExit e.kind ⟨q, exit⟩ && !e.sender.isSentinel then
      ⟨⟨e.sender, exit⟩, below⟩ :: s.stack
    else s.stack
  return { s with graph := s.graph.replace w, stack }

/-- Pass a demand over input edges one after another, keeping what was done
before a failure. -/
def crossAll (q : QueryId) (a : Arrival) (needed : SlotSet) :
    List Edge → Walk → Except PlanError Unit × Walk
  | [], s => (.ok (), s)
  | e :: rest, s =>
    match cross q a needed e s with
    | .ok s => crossAll q a needed rest s
    | .error e => (.error e, s)

/-- Walk one visit. -/
def visit (q : QueryId) (v : Visit) (s : Walk) : Except PlanError Unit × Walk :=
  match s.graph.waypoint v.arrival.waypoint with
  | .error e => (.error e, s)
  | .ok w =>
    if w.covers q then
      match s.demandAt v with
      | none => (.ok (), s)
      | some needed =>
        crossAll q v.arrival needed (s.graph.inputs v.arrival.waypoint)
          { s with
            asked := s.asked.insert v.arrival needed
            entered := s.entered.insert v.arrival.waypoint }
    else (.ok (), s)

/-- Walk until no visit is left, taking at most `remaining` steps of `limit`. -/
def run (q : QueryId) (limit : Nat) : Nat → Walk → Except PlanError WalkReport × PlanGraph
  | remaining, s =>
    match s.stack with
    | [] => (.ok ⟨limit - remaining, s.entered⟩, s.graph)
    | v :: rest =>
      match remaining with
      | 0 => (.error (.walkLimit q limit), s.graph)
      | remaining + 1 =>
        match visit q v { s with stack := rest } with
        | (.ok (), s) => run q limit remaining s
        | (.error e, s) => (.error e, s.graph)

end Walk

namespace PlanGraph

/-- The top-down pass of a query from its root, in at most `limit` steps. -/
def demandWalk (q : QueryId) (root : WaypointId) (limit : Nat) : Attempt PlanGraph WalkReport :=
  .ofOutcome fun g => Walk.run q limit limit (Walk.start g root)

end PlanGraph

end SharedPlan
