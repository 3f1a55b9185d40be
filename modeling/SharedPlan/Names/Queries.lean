import SharedPlan.Error
import SharedPlan.Ordered.Map
import SharedPlan.QuerySet

/-!
# SharedPlan.Names.Queries

The allocator of query ids.  An active query has one primary name and any number
of aliases, and ids are handed out lowest free first, so a query that is added
again after a deletion gets the id that a first addition would have got.
-/

namespace SharedPlan

/-- The active queries with their names. -/
structure QueryRegistry where
  /-- How many queries may be active at once. -/
  capacity : Nat
  /-- The primary name of each active query. -/
  names : OrdMap QueryId String
  /-- Further names of active queries. -/
  aliases : OrdMap String QueryId
  deriving DecidableEq

namespace QueryRegistry

/-- The empty registry that admits a number of queries, at least one and at
most the size of the universe. -/
def withCapacity (capacity : Nat) : QueryRegistry :=
  ⟨max 1 (min capacity QuerySet.capacity), ∅, ∅⟩

/-- The empty registry that admits the whole universe. -/
def initial : QueryRegistry := withCapacity QuerySet.capacity

instance : Inhabited QueryRegistry := ⟨initial⟩

/-- The active queries. -/
def active (r : QueryRegistry) : QuerySet := QuerySet.ofList r.names.keys

/-- The primary name of a query. -/
def name? (r : QueryRegistry) (q : QueryId) : Option String := r.names.get? q

/-- The query with a primary name. -/
def primary? (r : QueryRegistry) (name : String) : Option QueryId :=
  (r.names.entries.find? fun e => e.2 = name).map (·.1)

/-- The query with a primary name or alias. -/
def lookup (r : QueryRegistry) (name : String) : Option QueryId :=
  (r.primary? name).or (r.aliases.get? name)

/-- The lowest id that a new query could take. -/
def nextFree? (r : QueryRegistry) : Option QueryId :=
  r.active.firstFree?.filter fun q => q.val.toNat < r.capacity

/-- Give a new query the lowest free id. -/
def add (r : QueryRegistry) (name : String) : Except PlanError (QueryId × QueryRegistry) :=
  if (r.lookup name).isSome then .error (.duplicateQuery name)
  else
    match r.nextFree? with
    | none => .error (.queryUniverseFull r.capacity)
    | some q => .ok (q, { r with names := r.names.insert q name })

/-- Release an id along with its name and aliases. -/
def remove (r : QueryRegistry) (q : QueryId) : QueryRegistry :=
  { r with
    names := r.names.erase q
    aliases := r.aliases.filter fun _ target => target != q }

/-- Give an active query another name. -/
def addAlias (r : QueryRegistry) (name : String) (q : QueryId) : Except PlanError QueryRegistry :=
  if q ∉ r.active then .error (.unknownQuery q.text)
  else if (r.lookup name).isSome then .error (.duplicateQuery name)
  else .ok { r with aliases := r.aliases.insert name q }

/-- The query that a name stands for. -/
def resolve (r : QueryRegistry) (name : String) : Except PlanError QueryId :=
  match r.lookup name with
  | some q => .ok q
  | none => .error (.unknownQuery name)

end QueryRegistry

end SharedPlan
