import SharedPlan.Document.Basic
import SharedPlan.Json.Printer

/-!
# SharedPlan.Document.Writer

Plan documents as JSON.  Every field is written, in a fixed order, except that
aliases are left out when there are none; a missing header is written as null.
-/

namespace SharedPlan

open Json (ofText record)

/-- A list of names. -/
def namesJson (names : List String) : Json := .ofList ofText names

/-- A waypoint of a document. -/
def WaypointSpec.toJson (w : WaypointSpec) : Json :=
  match w with
  | scanner name relation columns =>
    tagged .scanner name [("relation", ofText relation), ("columns", namesJson columns)]
  | textLoader name columns files =>
    tagged .textLoader name [("columns", namesJson columns), ("files", namesJson files)]
  | ingest name adapter columns =>
    tagged .ingest name [("adapter", ofText adapter), ("columns", namesJson columns)]
  | selection name => tagged .selection name []
  | join name columns keys =>
    tagged .join name [("lhs_columns", namesJson columns), ("lhs_keys", namesJson keys)]
  | aggregate name => tagged .aggregate name []
  | transform name => tagged .transform name []
  | iterative name => tagged .iterative name []
  | print name => tagged .print name []
  | cache name => tagged .cache name []
  | compact name => tagged .compact name []
  | cluster name relation column =>
    tagged .cluster name [("relation", ofText relation), ("attribute", ofText column)]
where
  /-- A record that begins with its kind and its name. -/
  tagged (kind : WaypointKind) (name : String) (fields : List (String × Json)) : Json :=
    record (("kind", ofText kind.name) :: ("name", ofText name) :: fields)

/-- An edge of a document. -/
def EdgeSpec.toJson (e : EdgeSpec) : Json :=
  record [("from", ofText e.sender), ("to", ofText e.receiver), ("kind", ofText e.kind.name)]

/-- A registration of a document. -/
def Registration.toJson (r : Registration) : Json :=
  match r with
  | scanner w queries => shared "scanner" w queries
  | writer w q columns => single "writer" w q [("attributes", namesJson columns)]
  | scanRange w q range =>
    single "scan_range" w q
      [("min", .ofNat range.min.toNat), ("max", .ofNat range.max.toNat)]
  | textLoader w queries => shared "text_loader" w queries
  | ingest w queries => shared "ingest" w queries
  | filter w q columns => single "filter" w q [("attributes", namesJson columns)]
  | synthesized w q column dependsOn =>
    single "synthesized" w q
      [("attribute", ofText column), ("depends_on", namesJson dependsOn)]
  | bypass w q => single "bypass" w q []
  | join w q columns keys kind =>
    single "join" w q
      [("rhs_attributes", namesJson columns), ("rhs_keys", namesJson keys),
        ("join", ofText kind.name)]
  | aggregate w q outputs inputs states asState =>
    single "aggregate" w q
      [("outputs", namesJson outputs), ("inputs", namesJson inputs), ("states", namesJson states),
        ("return_as_state", .bool asState)]
  | transform w q outputs inputs states =>
    single "transform" w q
      [("outputs", namesJson outputs), ("inputs", namesJson inputs), ("states", namesJson states)]
  | iterative w q outputs states =>
    single "iterative" w q [("outputs", namesJson outputs), ("states", namesJson states)]
  | print w q columns header =>
    single "print" w q
      [("attributes", namesJson columns), ("header", (header.map ofText).getD .null)]
  | cache w q => single "cache" w q []
  | compact w q => single "compact" w q []
  | cluster w q => single "cluster" w q []
where
  /-- A registration of several queries. -/
  shared (op waypoint : String) (queries : List String) : Json :=
    record [("op", ofText op), ("waypoint", ofText waypoint), ("queries", namesJson queries)]
  /-- A registration of one query. -/
  single (op waypoint query : String) (fields : List (String × Json)) : Json :=
    record
      (("op", ofText op) :: ("waypoint", ofText waypoint) :: ("query", ofText query) :: fields)

namespace PlanDocument

/-- Further names of queries as an object. -/
def aliasesJson (aliases : OrdMap String String) : Json :=
  record (aliases.entries.map fun e => (e.1, ofText e.2))

/-- A document. -/
def toJson (d : PlanDocument) : Json :=
  let aliases := if d.aliases.isEmpty then [] else [("aliases", aliasesJson d.aliases)]
  record
    ([("attributes", namesJson d.attributes), ("queries", namesJson d.queries)] ++ aliases ++
      [("waypoints", .ofList (·.toJson) d.waypoints), ("edges", .ofList (·.toJson) d.edges),
        ("registrations", .ofList (·.toJson) d.registrations)])

/-- A document as text, with one item or member to a line. -/
def toText (d : PlanDocument) : String := d.toJson.pretty

end PlanDocument

end SharedPlan
