import SharedPlan.Ident
import SharedPlan.Waypoint.Kind

/-!
# SharedPlan.Error

Every way in which building, analysing or publishing a plan can fail.

An error is its cause; the wording is in `PlanError.message` alone.  Errors fall
into three categories: a bad call that the caller may mend, a plan that
contradicts itself, which aborts the compile cycle, and an exhausted universe of
queries.
-/

namespace SharedPlan

/-- Why an edge or a waypoint cannot be placed. -/
inductive EdgeFault where
  | sentinelWaypoint
  | sentinelEdge
  | otherKind
  deriving DecidableEq

/-- Why a file cannot be read. -/
inductive FileFault where
  | notFound
  | notDirectory
  | isDirectory
  | nameTooLong
  | denied
  /-- The bytes are not UTF-8. -/
  | notText
  | other (description : String)
  deriving DecidableEq

/-- The causes of failure. -/
inductive PlanError where
  /-- A waypoint name or id is not registered. -/
  | unknownWaypoint (name : String)
  /-- A query name or id is not registered. -/
  | unknownQuery (name : String)
  /-- An attribute name or slot is not registered. -/
  | unknownAttribute (name : String)
  /-- The graph already holds such a waypoint. -/
  | duplicateWaypoint (name : String)
  /-- An active query already has this name. -/
  | duplicateQuery (name : String)
  /-- A registration addressed a waypoint of another kind. -/
  | wrongKind (waypoint : String) (expected : List WaypointKind) (actual : WaypointKind)
  /-- An edge cannot be placed. -/
  | invalidEdge (sender receiver : WaypointId) (fault : EdgeFault)
  /-- A plan document is not the text of a document. -/
  | malformedDocument
  /-- A waypoint of a document refers to an attribute that the document lacks. -/
  | undeclaredAttribute (waypoint attr : String)
  /-- A routing table is not the text of a table. -/
  | malformedTable
  /-- The records of a routing table cannot be replayed; the reason is the wording of the
  call that failed. -/
  | unreplayableTable (reason : String)
  /-- A document cannot be read from its file. -/
  | documentUnreadable (fault : FileFault)
  /-- Options cannot be read from their file. -/
  | optionsUnreadable (path : String) (fault : FileFault)
  /-- Options are not the text of options. -/
  | optionsMalformed (path : String)
  /-- The bound on queries is out of range. -/
  | maxQueriesOutOfRange (path : String) (given : Nat)
  /-- The bound on steps is zero. -/
  | maxWalkStepsZero (path : String)
  /-- Options hold an integer that the options text cannot express. -/
  | optionsUnwritable
  /-- Another compile cycle is running. -/
  | compileInFlight
  /-- The edges of the graph form a cycle through a waypoint. -/
  | cycleDetected (waypoint : String)
  /-- A waypoint uses attributes that nothing below it produces. -/
  | usedNotProduced (waypoint : String) (query : QueryId) (missing : SlotSet)
  /-- Attributes demanded of a waypoint are not produced by it. -/
  | demandNotSatisfied (waypoint : String) (query : QueryId) (missing : SlotSet)
  /-- A waypoint that a query reaches recorded no exit for it. -/
  | missingExit (waypoint : String) (query : QueryId)
  /-- An active query has no root. -/
  | missingRoot (query : QueryId)
  /-- The demand walk of a query took more steps than allowed. -/
  | walkLimit (query : QueryId) (limit : Nat)
  /-- Every query id is taken. -/
  | queryUniverseFull (capacity : Nat)
  deriving DecidableEq

/-- The broad classes of failure. -/
inductive ErrorCategory where
  /-- A bad call; the caller may mend it and try again. -/
  | construction
  /-- The plan contradicts itself; the compile cycle is aborted. -/
  | invariant
  /-- The bounded universe of queries is full. -/
  | exhausted
  deriving DecidableEq

/-- The wording of an edge fault. -/
def EdgeFault.message : EdgeFault → String
  | sentinelWaypoint => "sentinel ids cannot name waypoints"
  | sentinelEdge => "sentinel edges are wired automatically"
  | otherKind => "edge already exists with the other kind"

/-- The wording of a file fault, with the number that the operating system gives it
if it is one of its own. -/
def FileFault.message : FileFault → String
  | notFound => "No such file or directory (os error 2)"
  | notDirectory => "Not a directory (os error 20)"
  | isDirectory => "Is a directory (os error 21)"
  | nameTooLong => "File name too long (os error 36)"
  | denied => "Permission denied (os error 13)"
  | notText => "stream did not contain valid UTF-8"
  | other description => description

/-- The name of a category. -/
def ErrorCategory.name : ErrorCategory → String
  | construction => "construction"
  | invariant => "invariant"
  | exhausted => "exhausted"

namespace PlanError

/-- The wording of an error. -/
def message : PlanError → String
  | unknownWaypoint name => "unknown waypoint '" ++ name ++ "'"
  | unknownQuery name => "unknown query '" ++ name ++ "'"
  | unknownAttribute name => "unknown attribute '" ++ name ++ "'"
  | duplicateWaypoint name => "waypoint '" ++ name ++ "' already exists"
  | duplicateQuery name => "query '" ++ name ++ "' already exists"
  | wrongKind waypoint expected actual =>
    "waypoint '" ++ waypoint ++ "' is a " ++ actual.name ++ ", not a " ++
      " or ".intercalate (expected.map (·.name))
  | invalidEdge sender receiver fault =>
    "invalid edge " ++ sender.text ++ " -> " ++ receiver.text ++ ": " ++ fault.message
  | malformedDocument => "plan document: not the text of a plan document"
  | undeclaredAttribute waypoint attr =>
    "plan document: waypoint '" ++ waypoint ++ "' references undeclared attribute '" ++
      attr ++ "'"
  | malformedTable => "not the text of a routing table"
  | unreplayableTable reason => reason
  | documentUnreadable fault => fault.message
  | optionsUnreadable path fault => loading path ++ fault.message
  | optionsMalformed path => loading path ++ "not the text of planner options"
  | maxQueriesOutOfRange path given =>
    loading path ++ "max_queries must be between 1 and 64, got " ++ toString given
  | maxWalkStepsZero path => loading path ++ "max_walk_steps must be positive"
  | optionsUnwritable => loading "" ++ "out of range"
  | compileInFlight => "a compile cycle is already in flight"
  | cycleDetected waypoint => "plan graph contains a cycle through '" ++ waypoint ++ "'"
  | usedNotProduced waypoint query missing =>
    "waypoint '" ++ waypoint ++ "' uses " ++ missing.text ++ " for " ++ query.text ++
      " but nothing below produces them"
  | demandNotSatisfied waypoint query missing =>
    "waypoint '" ++ waypoint ++ "' cannot supply " ++ missing.text ++ " demanded by " ++ query.text
  | missingExit waypoint query =>
    "waypoint '" ++ waypoint ++ "' is reachable by " ++ query.text ++ " but holds no exit for it"
  | missingRoot query => "query " ++ query.text ++ " has no root waypoint"
  | walkLimit query limit =>
    "top-down walk for " ++ query.text ++ " exceeded " ++ toString limit ++ " steps"
  | queryUniverseFull capacity =>
    "query universe exhausted (" ++ toString capacity ++ " active queries)"
where
  /-- How the wording of every fault of an options file begins. -/
  loading (path : String) : String := "failed to load options from " ++ path ++ ": "

/-- The machine-readable code of an error. -/
def code : PlanError → String
  | unknownWaypoint _ => "UnknownWaypoint"
  | unknownQuery _ => "UnknownQuery"
  | unknownAttribute _ => "UnknownAttribute"
  | duplicateWaypoint _ => "DuplicateWaypoint"
  | duplicateQuery _ => "DuplicateQuery"
  | wrongKind .. => "WrongVariant"
  | invalidEdge .. => "InvalidEdge"
  | malformedDocument | undeclaredAttribute .. | malformedTable | unreplayableTable _ => "Document"
  | optionsUnreadable .. | optionsMalformed _ | maxQueriesOutOfRange .. | maxWalkStepsZero _
  | optionsUnwritable => "Config"
  | documentUnreadable _ => "Io"
  | compileInFlight => "CycleInFlight"
  | cycleDetected _ => "CycleDetected"
  | usedNotProduced .. => "UsedNotProduced"
  | demandNotSatisfied .. => "DemandNotSatisfied"
  | missingExit .. => "MissingExit"
  | missingRoot _ => "MissingRoot"
  | walkLimit .. => "WalkLimit"
  | queryUniverseFull _ => "QueryUniverseFull"

/-- The category of an error. -/
def category : PlanError → ErrorCategory
  | cycleDetected _ | usedNotProduced .. | demandNotSatisfied .. | missingExit .. | missingRoot _
  | walkLimit .. => .invariant
  | queryUniverseFull _ => .exhausted
  | _ => .construction

/-- Whether an error aborts the compile cycle. -/
def isFatal (e : PlanError) : Bool := e.category = .invariant

/-- An unknown waypoint that is known by its id only. -/
def unknownId (w : WaypointId) : PlanError := unknownWaypoint w.text

end PlanError

end SharedPlan
