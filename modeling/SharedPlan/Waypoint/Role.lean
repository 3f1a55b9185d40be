import SharedPlan.QueryTable
import SharedPlan.Waypoint.Kind

/-!
# SharedPlan.Waypoint.Role

The twelve roles of a waypoint.  A role holds what its waypoint was created with
and, beside the common record of `SharedPlan.Waypoint.Flow`, what the role itself
keeps for each query.  An optional field tells a query that was given nothing
from one that was given an empty set; the published records show the difference.
-/

namespace SharedPlan

/-- The chunks that a query restricts its scan to, both ends included. -/
structure ScanRange where
  min : UInt64
  max : UInt64
  deriving DecidableEq, Inhabited

/-- What a scanner keeps for a query. -/
structure ScannerShare where
  /-- The query reads the relation. -/
  reads : Bool
  /-- The attributes that the query writes into the relation. -/
  writes : Option SlotSet
  /-- The chunks that the query restricts its scan to. -/
  range : Option ScanRange
  /-- The columns demanded in the last cycle. -/
  projected : Option SlotSet
  /-- The columns that the scan may skip. -/
  dropped : Option SlotSet
  /-- The attributes that arrived from a loader. -/
  loaded : Option SlotSet
  deriving DecidableEq, Inhabited

/-- What a selection keeps for a query. -/
structure SelectionShare where
  /-- The attributes that its predicates read. -/
  filters : Option SlotSet
  /-- The attributes computed here, with those that each is computed from. -/
  definitions : Option (OrdMap SlotId SlotSet)
  deriving DecidableEq, Inhabited

/-- What a join keeps for a query. -/
structure JoinShare where
  /-- The right-hand attributes that the query joins against. -/
  rhs : Option SlotSet
  /-- The right-hand keys. -/
  keys : Option (List SlotId)
  /-- How the inputs are combined. -/
  kind : Option JoinKind
  /-- The attributes that arrived from the right. -/
  arrived : SlotSet
  /-- The left-hand attributes carried for consumers above. -/
  lhsCopy : Option SlotSet
  /-- The right-hand attributes carried for consumers above. -/
  rhsCopy : Option SlotSet
  deriving DecidableEq, Inhabited

/-- What an aggregate keeps for a query. -/
structure AggregateShare where
  /-- The attributes aggregated. -/
  inputs : Option SlotSet
  /-- The waypoints whose states are read. -/
  states : Option (List WaypointId)
  /-- The result is handed on as state rather than rows. -/
  asState : Bool
  deriving DecidableEq, Inhabited

/-- What a transform keeps for a query. -/
structure TransformShare where
  /-- The attributes read. -/
  inputs : Option SlotSet
  /-- The waypoints whose states are read. -/
  states : Option (List WaypointId)
  /-- The attributes copied unchanged to the output. -/
  passThrough : Option SlotSet
  deriving DecidableEq, Inhabited

/-- The role of a waypoint. -/
inductive Role where
  /-- Reads a stored relation, and may be the target of writers. -/
  | scanner (relation : String) (columns : SlotSet) (shares : QueryTable ScannerShare)
  /-- Parses text files. -/
  | textLoader (columns : SlotSet) (files : List String)
  /-- Takes rows from an adapter. -/
  | ingest (adapter : String) (columns : SlotSet)
  /-- Filters rows, and may compute attributes. -/
  | selection (shares : QueryTable SelectionShare)
  /-- Joins the stream from the left with one that ends here. -/
  | join (lhsColumns : SlotSet) (lhsKeys : List SlotId) (shares : QueryTable JoinShare)
  /-- Consumes its input and emits only what it computes. -/
  | aggregate (shares : QueryTable AggregateShare)
  /-- Appends computed attributes and carries the rest. -/
  | transform (shares : QueryTable TransformShare)
  /-- Generates rows from the states of other waypoints. -/
  | iterative (states : QueryTable (Option (List WaypointId)))
  /-- Prints rows, under a header if one is given. -/
  | print (headers : QueryTable (Option String))
  /-- Stores the chunks that pass. -/
  | cache (caching : QueryTable Bool)
  /-- Packs sparse chunks. -/
  | compact (compacting : QueryTable Bool)
  /-- Computes the clustering ranges of a relation on one attribute. -/
  | cluster (relation : String) (slot : SlotId)
  deriving DecidableEq

namespace JoinShare

/-- How the inputs are combined; an inner join unless registered otherwise. -/
def joinKind (s : JoinShare) : JoinKind := s.kind.getD .inner

end JoinShare

namespace Role

/-- The kind of a role. -/
def kind : Role → WaypointKind
  | scanner .. => .scanner
  | textLoader .. => .textLoader
  | ingest .. => .ingest
  | selection _ => .selection
  | join .. => .join
  | aggregate _ => .aggregate
  | transform _ => .transform
  | iterative _ => .iterative
  | print _ => .print
  | cache _ => .cache
  | compact _ => .compact
  | cluster .. => .cluster

/-- The role with everything kept for one query forgotten. -/
def forget (q : QueryId) : Role → Role
  | scanner r c s => scanner r c (s.forget q)
  | selection s => selection (s.forget q)
  | join c k s => join c k (s.forget q)
  | aggregate s => aggregate (s.forget q)
  | transform s => transform (s.forget q)
  | iterative s => iterative (s.forget q)
  | print s => print (s.forget q)
  | cache s => cache (s.forget q)
  | compact s => compact (s.forget q)
  | r => r

/-- The role with everything kept for any query forgotten. -/
def clear : Role → Role
  | scanner r c _ => scanner r c ∅
  | selection _ => selection ∅
  | join c k _ => join c k ∅
  | aggregate _ => aggregate ∅
  | transform _ => transform ∅
  | iterative _ => iterative ∅
  | print _ => print ∅
  | cache _ => cache ∅
  | compact _ => compact ∅
  | r => r

/-- The role at the start of a cycle: what the previous cycle computed is gone. -/
def beginCycle : Role → Role
  | scanner r c s =>
    scanner r c (s.mapAll fun s => { s with projected := none, dropped := none, loaded := none })
  | join c k s =>
    join c k (s.mapAll fun s => { s with arrived := ∅, lhsCopy := none, rhsCopy := none })
  | transform s => transform (s.mapAll fun s => { s with passThrough := none })
  | r => r

@[simp] theorem kind_forget (q : QueryId) (r : Role) : (r.forget q).kind = r.kind := by
  cases r <;> rfl

@[simp] theorem kind_clear (r : Role) : r.clear.kind = r.kind := by
  cases r <;> rfl

@[simp] theorem kind_beginCycle (r : Role) : r.beginCycle.kind = r.kind := by
  cases r <;> rfl

end Role

/-- Add attributes to an optional set, which is there afterwards. -/
def mergeSlots (old : Option SlotSet) (slots : SlotSet) : Option SlotSet :=
  some (old.getD ∅ ∪ slots)

end SharedPlan
