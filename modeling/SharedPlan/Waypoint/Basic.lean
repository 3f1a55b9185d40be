import SharedPlan.Waypoint.Flow
import SharedPlan.Waypoint.Role

/-!
# SharedPlan.Waypoint.Basic

A waypoint: its id and name, the common record it keeps for each query, and its
role.  Deleting a query sets everything kept for it back to the default, so a
deleted query leaves no trace on a waypoint.
-/

namespace SharedPlan

/-- A node of the plan graph. -/
structure Waypoint where
  id : WaypointId
  name : String
  /-- The common record of each query. -/
  flows : QueryTable Flow
  role : Role
  deriving DecidableEq

namespace Waypoint

/-- A waypoint on which no query is registered. -/
def fresh (id : WaypointId) (name : String) (role : Role) : Waypoint := ⟨id, name, ∅, role⟩

/-- The kind of a waypoint. -/
def kind (w : Waypoint) : WaypointKind := w.role.kind

/-- The common record of a query. -/
def flow (w : Waypoint) (q : QueryId) : Flow := w.flows.get q

/-- Whether a query is registered here. -/
def covers (w : Waypoint) (q : QueryId) : Bool := (w.flow q).covered

/-- The queries registered here, ascending. -/
def covered (w : Waypoint) : List QueryId := w.flows.select (·.covered)

/-- The queries that pass untouched, ascending. -/
def bypassed (w : Waypoint) : List QueryId := w.flows.select (·.bypassed)

/-- Change the common record of a query. -/
def modifyFlow (w : Waypoint) (q : QueryId) (f : Flow → Flow) : Waypoint :=
  { w with flows := w.flows.modify q f }

/-- Every exit of one kind recorded here, ordered by query and waypoint. -/
def allExits (w : Waypoint) (kind : EdgeKind) : List QueryExit :=
  w.flows.stored.entries.flatMap fun e =>
    (match kind with
      | .flowThrough => e.2.exits
      | .terminating => e.2.terminatingExits).toList.map fun x => ⟨e.1, x⟩

/-- Whether an exit of one kind is recorded here. -/
def holdsExit (w : Waypoint) (kind : EdgeKind) (e : QueryExit) : Bool :=
  match kind with
  | .flowThrough => e.exit ∈ (w.flow e.query).exits
  | .terminating => e.exit ∈ (w.flow e.query).terminatingExits

/-- Record an exit of one kind. -/
def recordExit (w : Waypoint) (kind : EdgeKind) (e : QueryExit) : Waypoint :=
  w.modifyFlow e.query fun f =>
    match kind with
    | .flowThrough => { f with exits := f.exits.insert e.exit }
    | .terminating => { f with terminatingExits := f.terminatingExits.insert e.exit }

/-- The waypoint at the start of a cycle. -/
def beginCycle (w : Waypoint) : Waypoint :=
  { w with flows := w.flows.mapAll Flow.beginCycle, role := w.role.beginCycle }

/-- Forget a query. -/
def deleteQuery (w : Waypoint) (q : QueryId) : Waypoint :=
  { w with flows := w.flows.forget q, role := w.role.forget q }

/-- Forget every query. -/
def clear (w : Waypoint) : Waypoint := { w with flows := ∅, role := w.role.clear }

/-! ## The common record after each operation -/

/-- Only the record of the query is changed. -/
theorem flow_modifyFlow (w : Waypoint) (q r : QueryId) (f : Flow → Flow) :
    (w.modifyFlow q f).flow r = if r = q then f (w.flow q) else w.flow r :=
  QueryTable.get_modify ..

@[simp] theorem flow_beginCycle (w : Waypoint) (q : QueryId) :
    w.beginCycle.flow q = (w.flow q).beginCycle :=
  QueryTable.get_mapAll Flow.beginCycle_default ..

/-- Only the record of the deleted query is forgotten. -/
theorem flow_deleteQuery (w : Waypoint) (q r : QueryId) :
    (w.deleteQuery q).flow r = if r = q then default else w.flow r :=
  QueryTable.get_forget ..

end Waypoint

end SharedPlan
