import SharedPlan.Toml.Table

/-!
# SharedPlan.Toml.Document

A whole TOML text: a line gives a key of the current table a value, or names the
table that the lines below it belong to.
-/

namespace SharedPlan

namespace Toml

open Reader

/-! ## Arrays and inline tables -/

/-- Read the items of an array behind its bracket; `n` bounds the run. -/
def arrayItems (item : Reader Value) : Nat → Reader Unit
  | 0 => refuse
  | n + 1 => do
    space
    if (← peek) = some ']' then char ']'
    else
      let _ ← item
      space
      if (← peek) = some ',' then
        char ','
        arrayItems item n
      else char ']'

/-- Read a key and its value. -/
def keyValue (value : Reader Value) : Reader (List String × Value) := do
  let k ← key
  char '='
  blanks
  return (k, ← value)

/-- Read the pairs of an inline table behind its brace into a table; `n` bounds
the run. -/
def inlinePairs (value : Reader Value) : Nat → Table → Reader Unit
  | 0, _ => refuse
  | n + 1, t => do
    let (k, v) ← keyValue value
    match t.assign k v with
    | none => refuse
    | some t =>
      blanks
      if (← peek) = some ',' then
        char ','
        inlinePairs value n t
      else char '\x7d'

/-- Read an array. -/
def array (item : Reader Value) : Reader Value := do
  char '['
  let s ← get
  arrayItems item (s.length + 1)
  return .array

/-- Read an inline table. -/
def inlineTable (value : Reader Value) : Reader Value := do
  char '\x7b'
  blanks
  if (← peek) = some '\x7d' then char '\x7d'
  else
    let s ← get
    inlinePairs value (s.length + 1) .root
  return .table

/-- Read a value in which arrays and inline tables stand within one another at
most `levels` deep. -/
def valueWithin : Nat → Reader Value
  | 0 => scalar
  | levels + 1 => do
    match ← peek with
    | some '[' => array (valueWithin levels)
    | some '\x7b' => inlineTable (valueWithin levels)
    | _ => scalar

/-- Read a value. -/
def value : Reader Value := valueWithin maxLevels

/-! ## Lines -/

/-- The tables read so far, and the path of the current one. -/
structure Lines where
  table : Table
  path : List String

/-- Read a header: it opens a table, or adds one to an array of tables. -/
def header (d : Lines) : Reader Lines := do
  char '['
  let element ← maybe (char '[')
  let path ← key
  char ']'
  if element.isSome then char ']'
  let opened := if element.isSome then d.table.openElement path else d.table.openTable path
  match opened with
  | some table => return ⟨table, path⟩
  | none => refuse

/-- Read a key and its value into the current table. -/
def pair (d : Lines) : Reader Lines := do
  let (k, v) ← keyValue value
  match d.table.descend false (Table.assign k v) d.path with
  | some table => return { d with table }
  | none => refuse

/-- Read what a line holds behind its leading blanks. -/
def line (d : Lines) : Reader Lines := do
  match ← peek with
  | some '#' =>
    comment
    lineEnd
    return d
  | some '\n' | some '\r' =>
    newline
    return d
  | some '[' =>
    let d ← header d
    restOfLine
    return d
  | _ =>
    let d ← pair d
    restOfLine
    return d

/-- Read lines up to the end of the text; `n` bounds their number. -/
def lines : Nat → Lines → Reader Lines
  | 0, _ => refuse
  | n + 1, d => do
    blanks
    if (← peek) = none then return d
    else
      let d ← line d
      lines n d

/-- The text without the mark that it may begin with. -/
def withoutMark : List Char → List Char
  | '\ufeff' :: rest => rest
  | s => s

/-- The table that a text is. -/
def parse? (text : String) : Option Table :=
  let s := withoutMark text.toList
  (lines (s.length + 1) ⟨.root, []⟩ s).map fun r => r.1.table

end Toml

end SharedPlan
