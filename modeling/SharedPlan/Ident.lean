import SharedPlan.Ordered.Set

/-!
# SharedPlan.Ident

The identifiers that every layer shares: waypoints, queries and attribute
slots, each a machine number with its own type, and the query exit, the
address of one query's stream.

All of them are ordered by their numbers, a query exit by its query and then by
its waypoint; sets and maps keyed by them list their entries in that order.
-/

namespace SharedPlan

/-- A waypoint of the plan graph.  The ids 0 and 1 are the two sentinels. -/
structure WaypointId where
  val : UInt32
  deriving DecidableEq, Inhabited

/-- A query, one of the bounded universe. -/
structure QueryId where
  val : UInt8
  deriving DecidableEq, Inhabited

/-- An attribute, named by the slot it was given. -/
structure SlotId where
  val : UInt32
  deriving DecidableEq, Inhabited

/-- The address of a stream: the query whose stream it is, and the waypoint
that consumes it. -/
structure QueryExit where
  query : QueryId
  exit : WaypointId
  deriving DecidableEq, Inhabited

/-! ## Order -/

instance : Ord WaypointId := ⟨compareOn WaypointId.val⟩

instance : Std.TransOrd WaypointId := inferInstanceAs (Std.TransCmp (compareOn WaypointId.val))

instance : Std.LawfulEqOrd WaypointId where
  eq_of_compare {a b} h := by
    have h : compare a.val b.val = .eq := h
    cases a; cases b; congr 1
    exact Std.LawfulEqCmp.eq_of_compare h

instance : Ord QueryId := ⟨compareOn QueryId.val⟩

instance : Std.TransOrd QueryId := inferInstanceAs (Std.TransCmp (compareOn QueryId.val))

instance : Std.LawfulEqOrd QueryId where
  eq_of_compare {a b} h := by
    have h : compare a.val b.val = .eq := h
    cases a; cases b; congr 1
    exact Std.LawfulEqCmp.eq_of_compare h

instance : Ord SlotId := ⟨compareOn SlotId.val⟩

instance : Std.TransOrd SlotId := inferInstanceAs (Std.TransCmp (compareOn SlotId.val))

instance : Std.LawfulEqOrd SlotId where
  eq_of_compare {a b} h := by
    have h : compare a.val b.val = .eq := h
    cases a; cases b; congr 1
    exact Std.LawfulEqCmp.eq_of_compare h

instance : Ord QueryExit := ⟨compareLex (compareOn QueryExit.query) (compareOn QueryExit.exit)⟩

instance : Std.TransOrd QueryExit :=
  inferInstanceAs (Std.TransCmp (compareLex (compareOn QueryExit.query) (compareOn QueryExit.exit)))

instance : Std.LawfulEqOrd QueryExit where
  eq_of_compare {a b} h := by
    have h : compare a.query b.query = .eq ∧ compare a.exit b.exit = .eq :=
      Ordering.then_eq_eq.1 h
    cases a; cases b; congr 1
    · exact Std.LawfulEqCmp.eq_of_compare h.1
    · exact Std.LawfulEqCmp.eq_of_compare h.2

/-- A set of attributes. -/
abbrev SlotSet := OrdSet SlotId

/-- A set of query exits. -/
abbrev ExitSet := OrdSet QueryExit

/-! ## Sentinels -/

namespace WaypointId

/-- The sentinel below every source. -/
def bottom : WaypointId := ⟨0⟩

/-- The sentinel above every sink. -/
def top : WaypointId := ⟨1⟩

/-- Whether the id is one of the two sentinels. -/
def isSentinel (w : WaypointId) : Bool := w == bottom || w == top

end WaypointId

/-! ## Text -/

/-- The sentinels show their place, any other waypoint its number. -/
def WaypointId.text (w : WaypointId) : String :=
  if w = bottom then "<bottom>"
  else if w = top then "<top>"
  else "wp" ++ toString w.val.toNat

/-- A query by its number. -/
def QueryId.text (q : QueryId) : String := "query#" ++ toString q.val.toNat

/-- A slot is shown as its bare number. -/
def SlotId.text (s : SlotId) : String := toString s.val.toNat

/-- A query exit as the pair of its parts. -/
def QueryExit.text (e : QueryExit) : String :=
  "(" ++ e.query.text ++ ", " ++ e.exit.text ++ ")"

/-- Items between braces, separated by a comma and a blank. -/
def braced (items : List String) : String :=
  "\x7b" ++ ", ".intercalate items ++ "\x7d"

/-- A slot set as its numbers between braces. -/
def SlotSet.text (s : SlotSet) : String := braced (s.toList.map (·.text))

end SharedPlan
