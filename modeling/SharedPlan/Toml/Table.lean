import SharedPlan.Toml.Scalar

/-!
# SharedPlan.Toml.Table

Tables under construction, and which keys may still be given a value.

A table is there because a header names it, because a header below it needs it
(then it is implicit), or because a dotted key goes through it (then it is implicit
and dotted).  A header may name an implicit table once unless it is dotted; dotted
keys go through implicit tables only, and end in one that is itself dotted.
-/

namespace SharedPlan

namespace Toml

/-- What a key stands for. -/
inductive Item where
  | value (v : Value)
  | table (implicit dotted : Bool) (items : List (String × Item))
  /-- An array of tables, by the items of its last table. -/
  | tables (last : List (String × Item))

/-- A table: how it came to be there, and what its keys stand for. -/
structure Table where
  implicit : Bool
  dotted : Bool
  items : List (String × Item)

namespace Table

/-- The table of a text before its first line. -/
def root : Table := ⟨false, false, []⟩

/-- What a key stands for. -/
def get? (t : Table) (key : String) : Option Item := t.items.lookup key

/-- Let a key stand for an item. -/
def put (t : Table) (key : String) (i : Item) : Table :=
  { t with items := (key, i) :: t.items.filter (·.1 ≠ key) }

/-- The table as an item. -/
def toItem (t : Table) : Item := .table t.implicit t.dotted t.items

/-- Change the table at the end of a path.  Tables that are not there are added
as implicit ones; of an array of tables the last one is meant. -/
def descend (dotted : Bool) (f : Table → Option Table) : List String → Table → Option Table
  | [], t => f t
  | key :: path, t =>
    match t.get? key with
    | none => (descend dotted f path ⟨true, dotted, []⟩).map fun c => t.put key c.toItem
    | some (.value _) => none
    | some (.tables last) =>
      (descend dotted f path ⟨false, false, last⟩).map fun c => t.put key (.tables c.items)
    | some (.table implicit d items) =>
      if dotted && !implicit then none
      else (descend dotted f path ⟨implicit, d, items⟩).map fun c => t.put key c.toItem

/-- Let a new key stand for a value.  A dotted key ends in a dotted table. -/
def insertNew (isDotted : Bool) (key : String) (v : Value) (t : Table) : Option Table :=
  if t.dotted ≠ isDotted then none
  else if (t.get? key).isSome then none
  else some (t.put key (.value v))

/-- Give a key, which may be dotted, a value. -/
def assign (key : List String) (v : Value) (t : Table) : Option Table :=
  match key.getLast? with
  | none => none
  | some last => descend true (insertNew (1 < key.length) last v) key.dropLast t

/-- Open the table that a header names. -/
def openTable (path : List String) (t : Table) : Option Table :=
  match path.getLast? with
  | none => none
  | some last =>
    descend false (fun parent =>
      match parent.get? last with
      | none => some (parent.put last (.table false false []))
      | some (.table true false items) => some (parent.put last (.table false false items))
      | _ => none) path.dropLast t

/-- Add a table to the array that a header names. -/
def openElement (path : List String) (t : Table) : Option Table :=
  match path.getLast? with
  | none => none
  | some last =>
    descend false (fun parent =>
      match parent.get? last with
      | none | some (.tables _) => some (parent.put last (.tables []))
      | _ => none) path.dropLast t

end Table

end Toml

end SharedPlan
