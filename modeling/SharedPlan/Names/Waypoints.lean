import SharedPlan.Ident

/-!
# SharedPlan.Names.Waypoints

The interner of waypoint names.  A name's id is its position in the list of
names, so ids are dense; the two sentinels stand first, and a name once interned
keeps its id.  The calls are counted in words, which begin anew at `2 ^ 64`.
-/

namespace SharedPlan

/-- The interned names in the order of their ids, and how often the interner
was asked. -/
structure WaypointNames where
  /-- The name at position `i` has id `i`. -/
  names : List String
  /-- The calls of `intern`. -/
  calls : UInt64
  /-- The calls that found their name. -/
  hits : UInt64
  /-- The calls that added their name. -/
  misses : UInt64
  deriving DecidableEq

namespace WaypointNames

/-- The interner that holds the sentinels only. -/
def initial : WaypointNames := ⟨[WaypointId.bottom.text, WaypointId.top.text], 0, 0, 0⟩

instance : Inhabited WaypointNames := ⟨initial⟩

/-- The id of a name, if it is interned. -/
def lookup (n : WaypointNames) (name : String) : Option WaypointId :=
  (n.names.idxOf? name).map fun i => ⟨i.toUInt32⟩

/-- The name with an id. -/
def name? (n : WaypointNames) (w : WaypointId) : Option String := n.names[w.val.toNat]?

/-- The name with an id, or the text of the id if it names nothing. -/
def label (n : WaypointNames) (w : WaypointId) : String := (n.name? w).getD w.text

/-- The number of names, sentinels included. -/
def size (n : WaypointNames) : Nat := n.names.length

/-- Whether no name beyond the sentinels is interned. -/
def isEmpty (n : WaypointNames) : Bool := n.size ≤ 2

/-- The id of a name, which is added at the end if it is new. -/
def intern (n : WaypointNames) (name : String) : WaypointId × WaypointNames :=
  match n.lookup name with
  | some w => (w, { n with calls := n.calls + 1, hits := n.hits + 1 })
  | none =>
    (⟨n.size.toUInt32⟩,
      { names := n.names ++ [name], calls := n.calls + 1, hits := n.hits,
        misses := n.misses + 1 })

/-- The share of calls that found their name; zero before the first call. -/
def hitRate (n : WaypointNames) : Float :=
  if n.calls = 0 then 0 else n.hits.toFloat / n.calls.toFloat

end WaypointNames

end SharedPlan
