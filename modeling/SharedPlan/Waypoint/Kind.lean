/-!
# SharedPlan.Waypoint.Kind

The closed lists of names in a plan: the twelve kinds of waypoint, the two kinds
of edge and the four kinds of join.  Each kind has one spelling, used in
documents, records and messages, and `ofName?` reads exactly those spellings.
-/

namespace SharedPlan

/-- What a waypoint does with the streams that reach it. -/
inductive WaypointKind where
  | scanner
  | textLoader
  | ingest
  | selection
  | join
  | aggregate
  | transform
  | iterative
  | print
  | cache
  | compact
  | cluster
  deriving DecidableEq, Inhabited

/-- How a stream crosses an edge. -/
inductive EdgeKind where
  /-- The stream goes on through the receiver. -/
  | flowThrough
  /-- The stream ends at the receiver, which becomes its exit. -/
  | terminating
  deriving DecidableEq, Inhabited

/-- How a query combines the two inputs of a join. -/
inductive JoinKind where
  | inner
  /-- Semi join: right-hand columns are not forwarded. -/
  | exists
  /-- Anti join: right-hand columns are not forwarded. -/
  | notExists
  | left
  deriving DecidableEq, Inhabited

namespace WaypointKind

/-- Every kind. -/
def all : List WaypointKind :=
  [scanner, textLoader, ingest, selection, join, aggregate, transform, iterative, print, cache,
    compact, cluster]

/-- The spelling of a kind. -/
def name : WaypointKind → String
  | scanner => "scanner"
  | textLoader => "text_loader"
  | ingest => "ingest"
  | selection => "selection"
  | join => "join"
  | aggregate => "aggregate"
  | transform => "transform"
  | iterative => "iterative"
  | print => "print"
  | cache => "cache"
  | compact => "compact"
  | cluster => "cluster"

/-- The kind with a spelling. -/
def ofName? (s : String) : Option WaypointKind := all.find? fun k => k.name = s

/-- Sources have an edge from the bottom sentinel. -/
def isSource : WaypointKind → Bool
  | scanner | textLoader | ingest | iterative => true
  | _ => false

/-- Sinks have an edge to the top sentinel. -/
def isSink : WaypointKind → Bool
  | print | cluster => true
  | _ => false

theorem ofName?_name (k : WaypointKind) : ofName? k.name = some k := by
  cases k <;> decide

end WaypointKind

namespace EdgeKind

/-- The spelling of a kind. -/
def name : EdgeKind → String
  | flowThrough => "flow_through"
  | terminating => "terminating"

/-- The kind with a spelling. -/
def ofName? (s : String) : Option EdgeKind :=
  [flowThrough, terminating].find? fun k => k.name = s

theorem ofName?_name (k : EdgeKind) : ofName? k.name = some k := by
  cases k <;> decide

end EdgeKind

namespace JoinKind

/-- The spelling of a kind. -/
def name : JoinKind → String
  | inner => "inner"
  | .exists => "exists"
  | notExists => "not_exists"
  | left => "left"

/-- The kind with a spelling. -/
def ofName? (s : String) : Option JoinKind :=
  [inner, .exists, notExists, left].find? fun k => k.name = s

/-- Whether right-hand attributes appear in the output of the join. -/
def forwardsRight : JoinKind → Bool
  | inner | left => true
  | _ => false

theorem ofName?_name (k : JoinKind) : ofName? k.name = some k := by
  cases k <;> decide

end JoinKind

end SharedPlan
