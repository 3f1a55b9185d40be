import SharedPlan.Json.Basic
import SharedPlan.Json.Text

/-!
# SharedPlan.Json.Printer

JSON values as text, in two layouts: `compact` without any blank, and `pretty`
with one item or member to a line, indented by two blanks for each level, an
empty array or object staying closed.
-/

namespace SharedPlan

namespace Json

/-- A string body between its quotation marks. -/
def quoted (body : List Char) : List Char := '"' :: body ++ ['"']

/-- A word of the format. -/
def boolText (b : Bool) : List Char := if b then "true".toList else "false".toList

/-- A line break and the indentation of a level. -/
def newline (level : Nat) : List Char := '\n' :: List.replicate (2 * level) ' '

mutual

/-- The text of a value without blanks. -/
def compactChars : Json → List Char
  | null => "null".toList
  | bool b => boolText b
  | number lexeme => lexeme
  | string body => quoted body
  | array [] => "[]".toList
  | array (j :: rest) => '[' :: compactChars j ++ compactItems rest ++ [']']
  | object [] => "\x7b\x7d".toList
  | object ((key, j) :: rest) =>
    '\x7b' :: quoted key ++ ':' :: compactChars j ++ compactMembers rest ++ ['\x7d']

/-- The items behind the first one, without blanks. -/
def compactItems : List Json → List Char
  | [] => []
  | j :: rest => ',' :: compactChars j ++ compactItems rest

/-- The members behind the first one, without blanks. -/
def compactMembers : List (List Char × Json) → List Char
  | [] => []
  | (key, j) :: rest => ',' :: quoted key ++ ':' :: compactChars j ++ compactMembers rest

end

mutual

/-- The text of a value at an indentation level. -/
def prettyChars (level : Nat) : Json → List Char
  | null => "null".toList
  | bool b => boolText b
  | number lexeme => lexeme
  | string body => quoted body
  | array [] => "[]".toList
  | array (j :: rest) =>
    '[' :: newline (level + 1) ++ prettyChars (level + 1) j ++ prettyItems (level + 1) rest ++
      newline level ++ [']']
  | object [] => "\x7b\x7d".toList
  | object ((key, j) :: rest) =>
    '\x7b' :: newline (level + 1) ++ quoted key ++ ": ".toList ++ prettyChars (level + 1) j ++
      prettyMembers (level + 1) rest ++ newline level ++ ['\x7d']

/-- The items behind the first one, each on its line. -/
def prettyItems (level : Nat) : List Json → List Char
  | [] => []
  | j :: rest => ',' :: newline level ++ prettyChars level j ++ prettyItems level rest

/-- The members behind the first one, each on its line. -/
def prettyMembers (level : Nat) : List (List Char × Json) → List Char
  | [] => []
  | (key, j) :: rest =>
    ',' :: newline level ++ quoted key ++ ": ".toList ++ prettyChars level j ++
      prettyMembers level rest

end

/-- The value without blanks. -/
def compact (j : Json) : String := .ofList (compactChars j)

/-- The value with one item or member to a line. -/
def pretty (j : Json) : String := .ofList (prettyChars 0 j)

/-! ## Writing -/

/-- A text as a string. -/
def ofText (s : String) : Json := string (encode s.toList)

/-- A natural number. -/
def ofNat (n : Nat) : Json := number (Nat.toDigits 10 n)

/-- A list as an array. -/
def ofList {α : Type} (f : α → Json) (l : List α) : Json := array (l.map f)

/-- An object with the given members. -/
def record (members : List (String × Json)) : Json :=
  object (members.map fun m => (encode m.1.toList, m.2))

end Json

end SharedPlan
