import SharedPlan.Names.Waypoints
import SharedPlan.Routing.Table

/-!
# SharedPlan.Routing.Drawing

The routing table as a Graphviz drawing: one statement for each waypoint, then
one for each link, labelled with its exits.  Labels stand between quotation marks,
so a quotation mark or a backslash in a name is written behind a backslash.
-/

namespace SharedPlan

namespace RoutingTable

/-- A label with its quotation marks and backslashes escaped. -/
def escapeLabel (s : String) : String :=
  .ofList (s.toList.flatMap fun c => if c = '\\' ∨ c = '"' then ['\\', c] else [c])

/-- The node of a waypoint in the drawing. -/
def dotNode (id : WaypointId) : String := "n" ++ toString id.val.toNat

/-- A statement of the drawing, with its label. -/
def dotStatement (subject label : String) : String :=
  "    " ++ subject ++ " [label=\"" ++ label ++ "\"];\n"

/-- The Graphviz drawing of the table. -/
def toDot (t : RoutingTable) (names : WaypointNames) : String :=
  let nodes := t.nodes.keys.map fun id => dotStatement (dotNode id) (escapeLabel (names.label id))
  let links := t.links.map fun (sender, receiver, exits) =>
    dotStatement (dotNode sender ++ " -> " ++ dotNode receiver)
      ("\\n".intercalate (exits.toList.map (·.text)))
  "digraph routing \x7b\n    rankdir=BT;\n" ++ String.join nodes ++ String.join links ++ "\x7d\n"

end RoutingTable

end SharedPlan
