import SharedPlan.Error
import SharedPlan.Waypoint.Basic

/-!
# SharedPlan.Waypoint.Demand

The downward step of the analysis at one waypoint: given what a query needs from
it, what it needs in turn over one of its input edges, and the exit it records.

`Waypoint.ask` either fails and changes nothing, or answers the demand for the
edge together with the changed waypoint.  A waypoint that records no exit does
not carry the query over the edge.
-/

namespace SharedPlan

namespace Waypoint

/-- Fails unless what is demanded for a query is emitted here. -/
def checkDemand (w : Waypoint) (q : QueryId) (needed : SlotSet) : Except PlanError Unit :=
  let missing := needed \ (w.flow q).produced
  if missing.isEmpty then .ok () else .error (.demandNotSatisfied w.name q missing)

/-- The demand on a scanner over a flow-through edge: it notes which columns its
readers need, and which of those they read they can skip. -/
def askScan (w : Waypoint) (relation : String) (columns : SlotSet)
    (shares : QueryTable ScannerShare) (q : QueryId) (needed : SlotSet) (exit : QueryExit) :
    Except PlanError (SlotSet × Waypoint) :=
  if (shares.get q).reads then do
    w.checkDemand q needed
    let projected := (shares.get q).projected.getD ∅ ∪ needed
    let shares := shares.modify q fun s =>
      { s with projected := some projected, dropped := some ((w.flow q).used \ projected) }
    return (∅, { w with role := .scanner relation columns shares }.recordExit .flowThrough exit)
  else .ok (∅, w)

/-- The demand on a join over its left input: its own columns, and what is
needed above of what arrived from the left. -/
def askLeft (w : Waypoint) (columns : SlotSet) (keys : List SlotId)
    (shares : QueryTable JoinShare) (q : QueryId) (needed : SlotSet) (exit : QueryExit) :
    Except PlanError (SlotSet × Waypoint) := do
  w.checkDemand q needed
  if (w.flow q).bypassed then
    return (needed, w.recordExit .flowThrough exit)
  else
    let carried := needed ∩ (w.flow q).down
    let shares := shares.modify q fun s => { s with lhsCopy := mergeSlots s.lhsCopy carried }
    return (columns ∪ carried,
      { w with role := .join columns keys shares }.recordExit .flowThrough exit)

/-- The demand on a join over its right input: what it joins against, and what
is needed above of what arrived from the right and is forwarded. -/
def askRight (w : Waypoint) (columns : SlotSet) (keys : List SlotId)
    (shares : QueryTable JoinShare) (q : QueryId) (needed : SlotSet) (exit : QueryExit) :
    Except PlanError (SlotSet × Waypoint) :=
  if (w.flow q).bypassed then .ok (∅, w)
  else do
    w.checkDemand q needed
    let share := shares.get q
    let carried := if share.joinKind.forwardsRight then needed ∩ share.arrived else ∅
    let shares := shares.modify q fun s => { s with rhsCopy := mergeSlots s.rhsCopy carried }
    return (share.rhs.getD ∅ ∪ carried,
      { w with role := .join columns keys shares }.recordExit .terminating exit)

/-- Demand attributes of a waypoint for a query over an input edge of some kind;
the exit is recorded where the waypoint carries the query over that edge. -/
def ask (w : Waypoint) (kind : EdgeKind) (q : QueryId) (needed : SlotSet) (exit : QueryExit) :
    Except PlanError (SlotSet × Waypoint) :=
  let f := w.flow q
  match w.role with
  | .scanner relation columns shares =>
    match kind with
    | .flowThrough => w.askScan relation columns shares q needed exit
    | .terminating =>
      match (shares.get q).writes with
      | some slots => .ok (slots, w.recordExit .terminating exit)
      | none => .ok (∅, w)
  | .join columns keys shares =>
    match kind with
    | .flowThrough => w.askLeft columns keys shares q needed exit
    | .terminating => w.askRight columns keys shares q needed exit
  | .textLoader .. | .ingest .. => do
    if f.covered then w.checkDemand q needed
    return (∅, w.recordExit kind exit)
  | .iterative _ => do
    w.checkDemand q needed
    return (∅, w.recordExit kind exit)
  | .selection _ => do
    w.checkDemand q needed
    return (if f.bypassed then needed else f.forward needed, w.recordExit kind exit)
  | .aggregate _ => do
    w.checkDemand q needed
    return (f.used, w.recordExit kind exit)
  | .transform shares => do
    w.checkDemand q needed
    let shares := shares.modify q fun s =>
      { s with passThrough := mergeSlots s.passThrough (needed \ f.synthesized) }
    return (f.forward needed, { w with role := .transform shares }.recordExit kind exit)
  | .cache _ | .compact _ => do
    w.checkDemand q needed
    return (f.forward needed, w.recordExit kind exit)
  | .print _ | .cluster .. => .ok (f.used, w.recordExit kind exit)

end Waypoint

end SharedPlan
