import SharedPlan.Json.Basic
import SharedPlan.Json.Number
import SharedPlan.Json.Text

/-!
# SharedPlan.Json.Fields

Reading records, tagged records and plain values out of JSON.

A record is an object, in any order, or an array of its fields in their declared
order.  A field may be missing where it has a default; an unknown member of an
object is skipped unseen, a known one that comes twice is refused.  A tagged
record names its form in one member, or in the first item of the array; all of it
is kept before it is read, so even what is not used of it has to be well formed.
-/

namespace SharedPlan

namespace Json

/-- The text of a string. -/
def text? : Json → Option String
  | string body => (decode body).map .ofList
  | _ => none

/-- A natural number below a bound, written without sign, point or exponent. -/
def natBelow? (bound : Nat) : Json → Option Nat
  | number lexeme =>
    if lexeme.all Char.isDigit then
      let n := Nat.ofDigitChars 10 lexeme 0
      if n < bound then some n else none
    else none
  | _ => none

/-- A truth value. -/
def bool? : Json → Option Bool
  | bool b => some b
  | _ => none

/-- An array, item by item. -/
def list? {α : Type} (f : Json → Option α) : Json → Option (List α)
  | array items => items.mapM f
  | _ => none

/-- An array of strings. -/
def texts? : Json → Option (List String) := list? text?

/-- The members of an object with the texts of their names. -/
def members? : Json → Option (List (String × Json))
  | object members => members.mapM fun m => (decode m.1).map fun key => (.ofList key, m.2)
  | _ => none

/-- What is given for one field by the members of an object: nothing, or one
value; two are refused. -/
def field? (members : List (String × Json)) (name : String) : Option (Option Json) :=
  match members.filter (·.1 = name) with
  | [] => some none
  | [m] => some (some m.2)
  | _ => none

/-- What is given for each of the declared fields of a record. -/
def fields? (names : List String) (j : Json) : Option (List (Option Json)) :=
  match j with
  | array items =>
    if items.length ≤ names.length then
      some (items.map some ++ List.replicate (names.length - items.length) none)
    else none
  | _ => do
    let members ← j.members?
    names.mapM (field? members)

/-- A field that has to be there. -/
def required {α : Type} (f : Json → Option α) (given : Option Json) : Option α := given.bind f

/-- A field with a default. -/
def withDefault {α : Type} (d : α) (f : Json → Option α) : Option Json → Option α
  | none => some d
  | some j => f j

/-- A value or null. -/
def nullable {α : Type} (f : Json → Option α) : Json → Option (Option α)
  | null => some none
  | j => (f j).map some

/-- The form named by a tagged record, and the record without its tag. -/
def tagged? (tag : String) : Json → Option (String × Json)
  | array (form :: items) => do return (← form.text?, array items)
  | j@(object members) => do
    let named ← j.members?
    let form ← ← field? named tag
    return (← form.text?, object (members.filter fun m => decode m.1 ≠ some tag.toList))
  | _ => none

/-- A plain name, or an object that gives it a null value. -/
def name? {α : Type} (ofName? : String → Option α) (isUnit : Json → Bool) : Json → Option α
  | string body => (decode body).bind fun s => ofName? (.ofList s)
  | object [(key, value)] => do
    let name ← decode key
    if isUnit value then ofName? (.ofList name) else none
  | _ => none

/-- Whether a value is null. -/
def isNull : Json → Bool
  | null => true
  | _ => false

/-- Whether a value is null or an empty object. -/
def isNullOrEmpty : Json → Bool
  | null | object [] => true
  | _ => false

mutual

/-- Whether a value can be kept within a number of levels: every string in it is
a text, every number in range, and arrays and objects are nested no deeper. -/
def keepable (levels : Nat) : Json → Bool
  | null | bool _ => true
  | number lexeme => inRange lexeme
  | string body => (decode body).isSome
  | array items => 0 < levels && keepableItems (levels - 1) items
  | object members => 0 < levels && keepableMembers (levels - 1) members

/-- Whether all items can be kept. -/
def keepableItems (levels : Nat) : List Json → Bool
  | [] => true
  | j :: rest => keepable levels j && keepableItems levels rest

/-- Whether all members can be kept. -/
def keepableMembers (levels : Nat) : List (List Char × Json) → Bool
  | [] => true
  | (key, j) :: rest =>
    (decode key).isSome && keepable levels j && keepableMembers levels rest

end

/-- How deep arrays and objects may be nested in what is kept of a text. -/
def maxLevels : Nat := 127

end Json

end SharedPlan
