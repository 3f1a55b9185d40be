import SharedPlan.QueryTable

/-!
# SharedPlan.Waypoint.Flow

What every waypoint, whatever its role, keeps for one query: whether it takes
part, which attributes it uses, receives, adds and emits, and the exits that the
demand walk recorded.

Registration writes into `pending`; a compile cycle begins by folding that into
`used` and by emptying what the previous cycle computed (`Flow.beginCycle`).
-/

namespace SharedPlan

/-- Attribute sets for some queries. -/
abbrev QuerySlots := OrdMap QueryId SlotSet

/-- The record of one query on a waypoint. -/
structure Flow where
  /-- The query is registered here. -/
  covered : Bool
  /-- The query passes untouched. -/
  bypassed : Bool
  /-- Attributes needed here, as of the last cycle. -/
  used : SlotSet
  /-- Attributes registered as needed since then. -/
  pending : SlotSet
  /-- Attributes that arrived from below. -/
  down : SlotSet
  /-- Attributes computed here. -/
  synthesized : SlotSet
  /-- Attributes emitted upward. -/
  produced : SlotSet
  /-- Exits of streams that flow through. -/
  exits : OrdSet WaypointId
  /-- Exits of streams that end here. -/
  terminatingExits : OrdSet WaypointId
  deriving DecidableEq, Inhabited

namespace Flow

/-- Take the query in. -/
def cover (f : Flow) : Flow := { f with covered := true }

/-- Take the query in and let it pass untouched. -/
def bypass (f : Flow) : Flow := { f with covered := true, bypassed := true }

/-- Take the query in with attributes that it needs here. -/
def require (f : Flow) (slots : SlotSet) : Flow :=
  { f with covered := true, pending := f.pending ∪ slots }

/-- Take the query in with attributes that are computed here. -/
def synthesize (f : Flow) (slots : SlotSet) : Flow :=
  { f with covered := true, synthesized := f.synthesized ∪ slots }

/-- Everything registered as needed, whether or not a cycle has seen it. -/
def declared (f : Flow) : SlotSet := f.used ∪ f.pending

/-- Add attributes that arrived from below. -/
def receive (f : Flow) (slots : SlotSet) : Flow := { f with down := f.down ∪ slots }

/-- Whether an exit of either kind is recorded. -/
def hasExit (f : Flow) : Bool := !f.exits.isEmpty || !f.terminatingExits.isEmpty

/-- The demand that a filtering waypoint hands on: what is wanted from above
and what is used here, less what is computed here. -/
def forward (f : Flow) (needed : SlotSet) : SlotSet := (needed ∪ f.used) \ f.synthesized

/-- The record at the start of a cycle. -/
def beginCycle (f : Flow) : Flow :=
  { f with
    used := f.used ∪ f.pending, pending := ∅, down := ∅, produced := ∅
    exits := ∅, terminatingExits := ∅ }

theorem beginCycle_default : beginCycle default = default := rfl

end Flow

end SharedPlan
