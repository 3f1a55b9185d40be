import SharedPlan.Waypoint.Basic

/-!
# SharedPlan.Waypoint.Duty

What a query can be registered for on a waypoint.  Each duty belongs to waypoints
of certain kinds (`Duty.kinds`), and `Waypoint.enrol` writes it into the records
of the query; on a waypoint of any other kind there is nothing to write.
-/

namespace SharedPlan

/-- One query's part on a waypoint, with every name resolved. -/
inductive Duty where
  /-- Read every column of a relation. -/
  | scan
  /-- Write attributes into a relation. -/
  | write (slots : SlotSet)
  /-- Read certain chunks only. -/
  | scanRange (range : ScanRange)
  /-- Read every column of text files. -/
  | loadText
  /-- Read every column of an adapter. -/
  | ingest
  /-- Filter on attributes. -/
  | filter (slots : SlotSet)
  /-- Compute an attribute from others. -/
  | synthesize (slot : SlotId) (dependsOn : SlotSet)
  /-- Pass untouched. -/
  | bypass
  /-- Join against right-hand attributes on keys. -/
  | join (rhs : SlotSet) (keys : List SlotId) (kind : JoinKind)
  /-- Aggregate inputs into outputs, reading states. -/
  | aggregate (outputs inputs : SlotSet) (states : List WaypointId)
  /-- Hand the aggregate on as state. -/
  | returnAsState
  /-- Compute outputs from inputs, reading states. -/
  | transform (outputs inputs : SlotSet) (states : List WaypointId)
  /-- Generate outputs from states. -/
  | iterate (outputs : SlotSet) (states : List WaypointId)
  /-- Print attributes under an optional header. -/
  | print (slots : SlotSet) (header : Option String)
  /-- Store what passes. -/
  | cache
  /-- Pack what passes. -/
  | compact
  /-- Compute clustering ranges. -/
  | cluster
  deriving DecidableEq

namespace Duty

/-- The kinds of waypoint that a duty can be registered on. -/
def kinds : Duty → List WaypointKind
  | scan | write _ | scanRange _ => [.scanner]
  | loadText => [.textLoader]
  | ingest => [.ingest]
  | filter _ | synthesize .. => [.selection]
  | bypass => [.selection, .join]
  | join .. => [.join]
  | aggregate .. | returnAsState => [.aggregate]
  | transform .. => [.transform]
  | iterate .. => [.iterative]
  | print .. => [.print]
  | cache => [.cache]
  | compact => [.compact]
  | cluster => [.cluster]

/-- Whether registering the duty makes the waypoint the root of the query. -/
def rooted : Duty → Bool
  | write _ | print .. | cluster => true
  | _ => false

end Duty

namespace Waypoint

/-- Change the common record of a query and the role. -/
def enrolWith (w : Waypoint) (q : QueryId) (role : Role) (f : Flow → Flow) : Waypoint :=
  { w with flows := w.flows.modify q f, role }

/-- Register a query for a duty.  A waypoint of another kind stays as it is. -/
def enrol (w : Waypoint) (q : QueryId) (d : Duty) : Waypoint :=
  match d, w.role with
  | .scan, .scanner r columns s =>
    w.enrolWith q (.scanner r columns (s.modify q ({ · with reads := true }))) (·.require columns)
  | .write slots, .scanner r columns s =>
    w.enrolWith q
      (.scanner r columns (s.modify q fun s => { s with writes := mergeSlots s.writes slots }))
      Flow.cover
  | .scanRange range, .scanner r columns s =>
    { w with role := .scanner r columns (s.modify q ({ · with range := some range })) }
  | .loadText, .textLoader columns _ => w.modifyFlow q (·.require columns)
  | .ingest, .ingest _ columns => w.modifyFlow q (·.require columns)
  | .filter slots, .selection s =>
    w.enrolWith q (.selection (s.modify q fun s => { s with filters := mergeSlots s.filters slots }))
      (·.require slots)
  | .synthesize slot dependsOn, .selection s =>
    w.enrolWith q
      (.selection (s.modify q fun s =>
        { filters := mergeSlots s.filters ∅
          definitions := some ((s.definitions.getD ∅).insert slot dependsOn) }))
      fun f => (f.require dependsOn).synthesize (.singleton slot)
  | .bypass, .selection _ => w.modifyFlow q Flow.bypass
  | .bypass, .join .. => w.modifyFlow q Flow.bypass
  | .join rhs keys kind, .join columns lhsKeys s =>
    w.enrolWith q
      (.join columns lhsKeys (s.modify q fun s =>
        { s with rhs := mergeSlots s.rhs rhs, keys := some keys, kind := some kind }))
      (·.require rhs)
  | .aggregate outputs inputs states, .aggregate s =>
    w.enrolWith q
      (.aggregate (s.modify q fun s =>
        { s with
          inputs := mergeSlots s.inputs inputs, states := some (s.states.getD [] ++ states) }))
      fun f => (f.require inputs).synthesize outputs
  | .returnAsState, .aggregate s =>
    w.enrolWith q (.aggregate (s.modify q ({ · with asState := true }))) Flow.cover
  | .transform outputs inputs states, .transform s =>
    w.enrolWith q
      (.transform (s.modify q fun s =>
        { s with
          inputs := mergeSlots s.inputs inputs, states := some (s.states.getD [] ++ states) }))
      fun f => (f.require inputs).synthesize outputs
  | .iterate outputs states, .iterative s =>
    w.enrolWith q (.iterative (s.modify q fun s => some (s.getD [] ++ states)))
      (·.synthesize outputs)
  | .print slots header, .print s =>
    w.enrolWith q (.print (s.modify q fun old => header.or old)) (·.require slots)
  | .cache, .cache s => w.enrolWith q (.cache (s.set q true)) Flow.cover
  | .compact, .compact s => w.enrolWith q (.compact (s.set q true)) Flow.cover
  | .cluster, .cluster _ slot => w.modifyFlow q (·.require (.singleton slot))
  | _, _ => w

end Waypoint

end SharedPlan
