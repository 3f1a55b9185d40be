import SharedPlan.Routing.Record
import SharedPlan.Waypoint.Basic

/-!
# SharedPlan.Config

The configuration records that a compile cycle publishes: for each waypoint its
exits and what its role needs to know of every query.  Queries that were given
nothing are left out of a map, those that were given an empty set are in it.
-/

namespace SharedPlan

/-- An attribute computed by a selection, and the attributes it is computed from. -/
structure SynthesizedAttribute where
  slot : SlotId
  dependsOn : SlotSet
  deriving DecidableEq

/-- The part of a record that depends on the role. -/
inductive RoleConfig where
  | scanner (relation : String) (columns : SlotSet) (readers : List QueryId)
      (projected dropped writers : QuerySlots) (ranges : OrdMap QueryId ScanRange)
      (loaded : QuerySlots)
  | textLoader (columns : SlotSet) (files : List String) (queries : List QueryId)
  | ingest (adapter : String) (columns : SlotSet) (queries : List QueryId)
  | selection (filters : QuerySlots) (synthesized : OrdMap QueryId (List SynthesizedAttribute))
      (bypass : List QueryId)
  | join (lhsColumns : SlotSet) (lhsKeys : List SlotId) (rhs : QuerySlots)
      (rhsKeys : OrdMap QueryId (List SlotId)) (kinds : OrdMap QueryId JoinKind)
      (lhsCopy rhsCopy : QuerySlots) (bypass : List QueryId)
  | aggregate (inputs outputs : QuerySlots) (states : OrdMap QueryId (List WaypointId))
      (returnAsState : List QueryId)
  | transform (inputs outputs : QuerySlots) (states : OrdMap QueryId (List WaypointId))
      (passThrough : QuerySlots)
  | iterative (outputs : QuerySlots) (states : OrdMap QueryId (List WaypointId))
  | print (columns : QuerySlots) (headers : OrdMap QueryId String)
  | cache (caching : List QueryId)
  | compact (compacting : List QueryId)
  | cluster (relation : String) (slot : SlotId) (queries : List QueryId)
  deriving DecidableEq

/-- The record of a waypoint. -/
structure WaypointConfig where
  id : WaypointId
  name : String
  kind : WaypointKind
  /-- Exits of streams that flow through. -/
  flowThroughExits : List QueryExit
  /-- Exits of streams that end here. -/
  terminatingExits : List QueryExit
  detail : RoleConfig
  deriving DecidableEq

namespace Waypoint

/-- What `f` answers for each query registered here. -/
def perCovered (w : Waypoint) (f : Flow → SlotSet) : QuerySlots :=
  w.flows.collect fun flow => if flow.covered then some (f flow) else none

/-- The part of the record that depends on the role. -/
def roleConfig (w : Waypoint) : RoleConfig :=
  match w.role with
  | .scanner relation columns s =>
    .scanner relation columns (s.select (·.reads)) (s.collect (·.projected))
      (s.collect (·.dropped)) (s.collect (·.writes)) (s.collect (·.range)) (s.collect (·.loaded))
  | .textLoader columns files => .textLoader columns files w.covered
  | .ingest adapter columns => .ingest adapter columns w.covered
  | .selection s =>
    .selection (s.collect (·.filters))
      (s.collect fun share => share.definitions.map fun m => m.entries.map fun e => ⟨e.1, e.2⟩)
      w.bypassed
  | .join columns keys s =>
    .join columns keys (s.collect (·.rhs)) (s.collect (·.keys)) (s.collect (·.kind))
      (s.collect (·.lhsCopy)) (s.collect (·.rhsCopy)) w.bypassed
  | .aggregate s =>
    .aggregate (s.collect (·.inputs)) (w.perCovered (·.synthesized)) (s.collect (·.states))
      (s.select (·.asState))
  | .transform s =>
    .transform (s.collect (·.inputs)) (w.perCovered (·.synthesized)) (s.collect (·.states))
      (s.collect (·.passThrough))
  | .iterative s => .iterative (w.perCovered (·.synthesized)) (s.collect fun s => s)
  | .print s => .print (w.perCovered (·.used)) (s.collect fun s => s)
  | .cache s => .cache (s.select fun s => s)
  | .compact s => .compact (s.select fun s => s)
  | .cluster relation slot => .cluster relation slot w.covered

/-- The record of a waypoint. -/
def config (w : Waypoint) : WaypointConfig :=
  ⟨w.id, w.name, w.kind, w.allExits .flowThrough, w.allExits .terminating, w.roleConfig⟩

end Waypoint

/-! ## Writing -/

/-- A slot by its number. -/
def SlotId.toJson (s : SlotId) : Json := .ofNat s.val.toNat

/-- A slot set as the array of its numbers. -/
def SlotSet.toJson (s : SlotSet) : Json := .ofList SlotId.toJson s.toList

/-- A map from queries, by their numbers in decimal. -/
def queryMapJson {α : Type} (f : α → Json) (m : OrdMap QueryId α) : Json :=
  .record (m.entries.map fun e => (toString e.1.val.toNat, f e.2))

/-- Attribute sets of some queries. -/
def QuerySlots.toJson (m : QuerySlots) : Json := queryMapJson SlotSet.toJson m

/-- A list of queries. -/
def queriesJson (qs : List QueryId) : Json := .ofList QueryId.toJson qs

/-- The waypoints whose states are read, for some queries. -/
def statesJson (m : OrdMap QueryId (List WaypointId)) : Json :=
  queryMapJson (Json.ofList WaypointId.toJson) m

/-- Both ends of a range. -/
def ScanRange.toJson (r : ScanRange) : Json :=
  .record [("min", .ofNat r.min.toNat), ("max", .ofNat r.max.toNat)]

/-- A computed attribute. -/
def SynthesizedAttribute.toJson (a : SynthesizedAttribute) : Json :=
  .record [("slot", a.slot.toJson), ("depends_on", a.dependsOn.toJson)]

/-- The kind of a record. -/
def RoleConfig.kind : RoleConfig → WaypointKind
  | scanner .. => .scanner
  | textLoader .. => .textLoader
  | ingest .. => .ingest
  | selection .. => .selection
  | join .. => .join
  | aggregate .. => .aggregate
  | transform .. => .transform
  | iterative .. => .iterative
  | print .. => .print
  | cache _ => .cache
  | compact _ => .compact
  | cluster .. => .cluster

/-- The fields of a record behind its kind. -/
def RoleConfig.fields : RoleConfig → List (String × Json)
  | scanner relation columns readers projected dropped writers ranges loaded =>
    [("relation", .ofText relation), ("columns", columns.toJson), ("readers", queriesJson readers),
      ("projected", projected.toJson), ("dropped", dropped.toJson), ("writers", writers.toJson),
      ("ranges", queryMapJson (·.toJson) ranges), ("loaded", loaded.toJson)]
  | textLoader columns files queries =>
    [("columns", columns.toJson), ("files", .ofList .ofText files),
      ("queries", queriesJson queries)]
  | ingest adapter columns queries =>
    [("adapter", .ofText adapter), ("columns", columns.toJson), ("queries", queriesJson queries)]
  | selection filters synthesized bypass =>
    [("filters", filters.toJson),
      ("synthesized", queryMapJson (Json.ofList (·.toJson)) synthesized),
      ("bypass", queriesJson bypass)]
  | join columns keys rhs rhsKeys kinds lhsCopy rhsCopy bypass =>
    [("lhs_columns", columns.toJson), ("lhs_keys", .ofList SlotId.toJson keys),
      ("rhs", rhs.toJson), ("rhs_keys", queryMapJson (Json.ofList SlotId.toJson) rhsKeys),
      ("kinds", queryMapJson (fun k => Json.ofText k.name) kinds), ("lhs_copy", lhsCopy.toJson),
      ("rhs_copy", rhsCopy.toJson), ("bypass", queriesJson bypass)]
  | aggregate inputs outputs states returnAsState =>
    [("inputs", inputs.toJson), ("outputs", outputs.toJson), ("states", statesJson states),
      ("return_as_state", queriesJson returnAsState)]
  | transform inputs outputs states passThrough =>
    [("inputs", inputs.toJson), ("outputs", outputs.toJson), ("states", statesJson states),
      ("pass_through", passThrough.toJson)]
  | iterative outputs states => [("outputs", outputs.toJson), ("states", statesJson states)]
  | print columns headers =>
    [("columns", columns.toJson), ("headers", queryMapJson Json.ofText headers)]
  | cache caching => [("caching", queriesJson caching)]
  | compact compacting => [("compacting", queriesJson compacting)]
  | cluster relation slot queries =>
    [("relation", .ofText relation), ("attribute", slot.toJson), ("queries", queriesJson queries)]

/-- The part of a record that depends on the role, beginning with its kind. -/
def RoleConfig.toJson (c : RoleConfig) : Json :=
  .record (("kind", .ofText c.kind.name) :: c.fields)

/-- The record of a waypoint. -/
def WaypointConfig.toJson (c : WaypointConfig) : Json :=
  .record
    [("id", c.id.toJson), ("name", .ofText c.name), ("kind", .ofText c.kind.name),
      ("flow_through_exits", .ofList (·.toJson) c.flowThroughExits),
      ("terminating_exits", .ofList (·.toJson) c.terminatingExits), ("detail", c.detail.toJson)]

end SharedPlan
