import SharedPlan.Error
import SharedPlan.QuerySet
import SharedPlan.Waypoint.Basic

/-!
# SharedPlan.Waypoint.Supply

The upward step of the analysis at one waypoint: which attributes arrive, what
must have arrived, and what is emitted for each active query.

`Waypoint.emission` is the rule of a role for one query; `Waypoint.emit` applies
it to every active query in ascending order and stores the results.  A failing
query keeps the results stored before it.
-/

namespace SharedPlan

namespace Waypoint

/-- Fails unless attributes that a query uses here are among the available ones. -/
def checkUsed (w : Waypoint) (q : QueryId) (required available : SlotSet) :
    Except PlanError Unit :=
  let missing := required \ available
  if missing.isEmpty then .ok () else .error (.usedNotProduced w.name q missing)

/-- Whether a waypoint emits for a query: a scanner does for its readers, any
other waypoint for the queries it covers. -/
def supplies (w : Waypoint) (q : QueryId) : Bool :=
  match w.role with
  | .scanner _ _ shares => (shares.get q).reads
  | _ => w.covers q

/-- Whether what is emitted goes on to the waypoints above; it ends at sinks. -/
def passesOn (w : Waypoint) : Bool := !w.kind.isSink

/-- What a waypoint emits for a query that it supplies, if what it uses has
arrived. -/
def emission (w : Waypoint) (q : QueryId) : Except PlanError SlotSet :=
  let f := w.flow q
  match w.role with
  | .scanner .. => .ok f.used
  | .textLoader .. | .ingest .. | .iterative _ => .ok (f.used ∪ f.synthesized)
  | .selection _ | .transform _ | .cache _ | .compact _ =>
    if f.bypassed then .ok f.down
    else do
      w.checkUsed q f.used f.down
      return f.down ∪ f.synthesized
  | .aggregate _ => do
    w.checkUsed q f.used f.down
    return f.synthesized
  | .join lhsColumns _ shares =>
    if f.bypassed then .ok f.down
    else do
      let share := shares.get q
      w.checkUsed q f.used share.arrived
      w.checkUsed q lhsColumns f.down
      return if share.joinKind.forwardsRight then f.down ∪ share.arrived else f.down
  | .print _ | .cluster .. => do
    w.checkUsed q f.used f.down
    return ∅

/-- Fails unless what a query writes into a relation has arrived.  Other roles
write nothing. -/
def checkWritten (w : Waypoint) (q : QueryId) : Except PlanError Unit :=
  match w.role with
  | .scanner _ _ shares =>
    match (shares.get q).writes with
    | some slots => w.checkUsed q slots (w.flow q).down
    | none => .ok ()
  | _ => .ok ()

/-- Store what is emitted for a query. -/
def setProduced (w : Waypoint) (q : QueryId) (slots : SlotSet) : Waypoint :=
  w.modifyFlow q fun f => { f with produced := slots }

/-- Emit for a list of queries, storing each result; the first failure ends it. -/
def emitEach (w : Waypoint) : List QueryId → Waypoint × Except PlanError QuerySlots
  | [] => (w, .ok ∅)
  | q :: rest =>
    match w.emission q with
    | .error e => (w, .error e)
    | .ok slots =>
      let (w, emitted) := (w.setProduced q slots).emitEach rest
      (w, (·.insert q slots) <$> emitted)

/-- The upward step: what every active query gets from this waypoint. -/
def emit (w : Waypoint) (active : QuerySet) : Waypoint × Except PlanError QuerySlots :=
  let (w, emitted) := w.emitEach (active.toList.filter w.supplies)
  (w, do
    let emitted ← emitted
    active.toList.forM w.checkWritten
    return if w.passesOn then emitted else ∅)

/-- Take in attributes of a query over an edge.  A scanner keeps what a loader
brings apart from what is written into it, a join its two inputs. -/
def receiveFor (w : Waypoint) (kind : EdgeKind) (q : QueryId) (slots : SlotSet) : Waypoint :=
  match w.role, kind with
  | .scanner r c shares, .flowThrough =>
    { w with
      role := .scanner r c (shares.modify q fun s => { s with loaded := mergeSlots s.loaded slots }) }
  | .join c k shares, .terminating =>
    { w with role := .join c k (shares.modify q fun s => { s with arrived := s.arrived ∪ slots }) }
  | _, _ => w.modifyFlow q (·.receive slots)

/-- Take in what a waypoint below emitted; queries not registered here are left out. -/
def receive (w : Waypoint) (kind : EdgeKind) (emitted : QuerySlots) : Waypoint :=
  emitted.entries.foldl (fun w e => if w.covers e.1 then w.receiveFor kind e.1 e.2 else w) w

end Waypoint

end SharedPlan
