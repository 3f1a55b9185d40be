import SharedPlan.Document.Basic
import SharedPlan.Json.Fields
import SharedPlan.Json.Reader

/-!
# SharedPlan.Document.Reader

Plan documents out of JSON text.  Every top-level field may be missing, and so may
those of a record that have a default; what is none of a record's fields is
skipped.
-/

namespace SharedPlan

open Json (fields? required withDefault text? texts? tagged?)

/-- A waypoint of a document, from its kind and the rest of its record. -/
def WaypointSpec.ofFields? (kind : WaypointKind) (j : Json) : Option WaypointSpec :=
  match kind with
  | .scanner => do
    let [name, relation, columns] ← fields? ["name", "relation", "columns"] j | none
    return .scanner (← required text? name) (← required text? relation)
      (← required texts? columns)
  | .textLoader => do
    let [name, columns, files] ← fields? ["name", "columns", "files"] j | none
    return .textLoader (← required text? name) (← required texts? columns)
      (← withDefault [] texts? files)
  | .ingest => do
    let [name, adapter, columns] ← fields? ["name", "adapter", "columns"] j | none
    return .ingest (← required text? name) (← required text? adapter) (← required texts? columns)
  | .join => do
    let [name, columns, keys] ← fields? ["name", "lhs_columns", "lhs_keys"] j | none
    return .join (← required text? name) (← required texts? columns) (← required texts? keys)
  | .cluster => do
    let [name, relation, column] ← fields? ["name", "relation", "attribute"] j | none
    return .cluster (← required text? name) (← required text? relation) (← required text? column)
  | .selection => named .selection
  | .aggregate => named .aggregate
  | .transform => named .transform
  | .iterative => named .iterative
  | .print => named .print
  | .cache => named .cache
  | .compact => named .compact
where
  /-- A waypoint that is created with its name alone. -/
  named (make : String → WaypointSpec) : Option WaypointSpec := do
    let [name] ← fields? ["name"] j | none
    return make (← required text? name)

/-- A registration of a document, from its form and the rest of its record. -/
def Registration.ofFields? (form : String) (j : Json) : Option Registration :=
  match form with
  | "scanner" => shared .scanner
  | "text_loader" => shared .textLoader
  | "ingest" => shared .ingest
  | "writer" => do
    let [w, q, columns] ← fields? ["waypoint", "query", "attributes"] j | none
    return .writer (← required text? w) (← required text? q) (← required texts? columns)
  | "scan_range" => do
    let [w, q, min, max] ← fields? ["waypoint", "query", "min", "max"] j | none
    return .scanRange (← required text? w) (← required text? q)
      ⟨(← required word? min), (← required word? max)⟩
  | "filter" => do
    let [w, q, columns] ← fields? ["waypoint", "query", "attributes"] j | none
    return .filter (← required text? w) (← required text? q) (← required texts? columns)
  | "synthesized" => do
    let [w, q, column, dependsOn] ←
      fields? ["waypoint", "query", "attribute", "depends_on"] j | none
    return .synthesized (← required text? w) (← required text? q) (← required text? column)
      (← withDefault [] texts? dependsOn)
  | "join" => do
    let [w, q, columns, keys, kind] ←
      fields? ["waypoint", "query", "rhs_attributes", "rhs_keys", "join"] j | none
    return .join (← required text? w) (← required text? q) (← required texts? columns)
      (← required texts? keys)
      (← withDefault .inner (Json.name? JoinKind.ofName? Json.isNullOrEmpty) kind)
  | "aggregate" => do
    let [w, q, outputs, inputs, states, asState] ←
      fields? ["waypoint", "query", "outputs", "inputs", "states", "return_as_state"] j | none
    return .aggregate (← required text? w) (← required text? q) (← required texts? outputs)
      (← required texts? inputs) (← withDefault [] texts? states)
      (← withDefault false Json.bool? asState)
  | "transform" => do
    let [w, q, outputs, inputs, states] ←
      fields? ["waypoint", "query", "outputs", "inputs", "states"] j | none
    return .transform (← required text? w) (← required text? q) (← required texts? outputs)
      (← required texts? inputs) (← withDefault [] texts? states)
  | "iterative" => do
    let [w, q, outputs, states] ← fields? ["waypoint", "query", "outputs", "states"] j | none
    return .iterative (← required text? w) (← required text? q) (← required texts? outputs)
      (← withDefault [] texts? states)
  | "print" => do
    let [w, q, columns, header] ← fields? ["waypoint", "query", "attributes", "header"] j | none
    return .print (← required text? w) (← required text? q) (← required texts? columns)
      (← withDefault none (Json.nullable text?) header)
  | "bypass" => single .bypass
  | "cache" => single .cache
  | "compact" => single .compact
  | "cluster" => single .cluster
  | _ => none
where
  /-- A 64-bit word. -/
  word? (j : Json) : Option UInt64 := (j.natBelow? UInt64.size).map Nat.toUInt64
  /-- A registration of several queries. -/
  shared (make : String → List String → Registration) : Option Registration := do
    let [w, queries] ← fields? ["waypoint", "queries"] j | none
    return make (← required text? w) (← required texts? queries)
  /-- A registration of one query without further fields. -/
  single (make : String → String → Registration) : Option Registration := do
    let [w, q] ← fields? ["waypoint", "query"] j | none
    return make (← required text? w) (← required text? q)

/-- The levels around a waypoint or registration: the document and its list. -/
def levelsAround : Nat := 2

/-- A waypoint of a document. -/
def WaypointSpec.ofJson? (j : Json) : Option WaypointSpec := do
  if !j.keepable (Json.maxLevels - levelsAround) then none
  let (form, rest) ← tagged? "kind" j
  WaypointSpec.ofFields? (← WaypointKind.ofName? form) rest

/-- A registration of a document. -/
def Registration.ofJson? (j : Json) : Option Registration := do
  if !j.keepable (Json.maxLevels - levelsAround) then none
  let (form, rest) ← tagged? "op" j
  Registration.ofFields? form rest

/-- An edge of a document; a stream flows through unless the edge says otherwise. -/
def EdgeSpec.ofJson? (j : Json) : Option EdgeSpec := do
  let [sender, receiver, kind] ← fields? ["from", "to", "kind"] j | none
  return ⟨← required text? sender, ← required text? receiver,
    ← withDefault .flowThrough (Json.name? EdgeKind.ofName? Json.isNull) kind⟩

namespace PlanDocument

/-- Further names of queries; of members with one name the last counts. -/
def aliases? (j : Json) : Option (OrdMap String String) := do
  let members ← j.members?
  let entries ← members.mapM fun m => (text? m.2).map (m.1, ·)
  return .ofList entries

/-- A document. -/
def ofJson? (j : Json) : Option PlanDocument := do
  let [attributes, queries, aliases, waypoints, edges, registrations] ←
    fields? ["attributes", "queries", "aliases", "waypoints", "edges", "registrations"] j | none
  return {
    attributes := ← withDefault [] texts? attributes
    queries := ← withDefault [] texts? queries
    aliases := ← withDefault ∅ aliases? aliases
    waypoints := ← withDefault [] (Json.list? WaypointSpec.ofJson?) waypoints
    edges := ← withDefault [] (Json.list? EdgeSpec.ofJson?) edges
    registrations := ← withDefault [] (Json.list? Registration.ofJson?) registrations }

/-- The document that a text is. -/
def parse (text : String) : Except PlanError PlanDocument :=
  match (Json.parse? text).bind ofJson? with
  | some d => .ok d
  | none => .error .malformedDocument

end PlanDocument

end SharedPlan
