import SharedPlan.Json.Basic
import SharedPlan.Json.Token

/-!
# SharedPlan.Json.Reader

From tokens to values, by a machine with a stack of open arrays and objects.

Each token moves the machine by one step, so reading two runs of tokens one after
the other is reading the second from where the first ended.  Depth is not
bounded here: how deep a value may be nested is a question for whoever keeps it.
-/

namespace SharedPlan

namespace Json

/-- An open array or object, with what it holds so far in reverse. -/
inductive Frame where
  | array (items : List Json)
  /-- An object in which the value of a member is being read. -/
  | object (members : List (List Char × Json)) (key : List Char)

/-- What the machine waits for; the frames are those around that place. -/
inductive Wait where
  | value (frames : List Frame)
  | firstItem (frames : List Frame)
  | moreItems (items : List Json) (frames : List Frame)
  | firstMember (frames : List Frame)
  | member (members : List (List Char × Json)) (frames : List Frame)
  | colon (members : List (List Char × Json)) (key : List Char) (frames : List Frame)
  | moreMembers (members : List (List Char × Json)) (frames : List Frame)
  | nothing (value : Json)

namespace Wait

/-- A value is complete within some frames. -/
def complete (j : Json) : List Frame → Wait
  | [] => nothing j
  | .array items :: frames => moreItems (j :: items) frames
  | .object members key :: frames => moreMembers ((key, j) :: members) frames

/-- A token begins a value within some frames. -/
def beginValue (t : Token) (frames : List Frame) : Option Wait :=
  match t with
  | .openArray => some (firstItem frames)
  | .openObject => some (firstMember frames)
  | .null => some (complete .null frames)
  | .bool b => some (complete (.bool b) frames)
  | .number lexeme => some (complete (.number lexeme) frames)
  | .string body => some (complete (.string body) frames)
  | _ => none

/-- Read one token. -/
def step (w : Wait) (t : Token) : Option Wait :=
  match w with
  | value frames => beginValue t frames
  | firstItem frames =>
    if t = .closeArray then some (complete (.array []) frames)
    else beginValue t (.array [] :: frames)
  | moreItems items frames =>
    match t with
    | .comma => some (value (.array items :: frames))
    | .closeArray => some (complete (.array items.reverse) frames)
    | _ => none
  | firstMember frames =>
    match t with
    | .closeObject => some (complete (.object []) frames)
    | .string key => some (colon [] key frames)
    | _ => none
  | member members frames =>
    match t with
    | .string key => some (colon members key frames)
    | _ => none
  | colon members key frames =>
    match t with
    | .colon => some (value (.object members key :: frames))
    | _ => none
  | moreMembers members frames =>
    match t with
    | .comma => some (member members frames)
    | .closeObject => some (complete (.object members.reverse) frames)
    | _ => none
  | nothing _ => none

/-- Read tokens one after another. -/
def run (w : Wait) (tokens : List Token) : Option Wait := tokens.foldlM step w

end Wait

/-- The value that a list of tokens is. -/
def ofTokens? (tokens : List Token) : Option Json :=
  match (Wait.value []).run tokens with
  | some (.nothing j) => some j
  | _ => none

/-- The value that a text is. -/
def parse? (text : String) : Option Json := (tokens? text.toList).bind ofTokens?

end Json

end SharedPlan
