/-!
# SharedPlan.Json.Basic

JSON values as they are written: the tree of a text up to blanks.

A string is kept as the characters between its quotation marks and a number as
its characters, because a reader that skips a value does not look into it: a
string with half of a surrogate pair, or a number beyond every type, is refused
only where it is read.
-/

namespace SharedPlan

/-- A JSON value as it is written. -/
inductive Json where
  | null
  | bool (value : Bool)
  /-- A number, by its characters. -/
  | number (lexeme : List Char)
  /-- A string, by the characters between its quotation marks. -/
  | string (body : List Char)
  | array (items : List Json)
  /-- An object; a member's name is a string body. -/
  | object (members : List (List Char × Json))
  deriving Inhabited

end SharedPlan
