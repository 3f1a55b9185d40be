import SharedPlan.Error
import SharedPlan.Ordered.Map

/-!
# SharedPlan.Names.Attributes

The attributes that a plan may mention: the slot of each name, and the name that
each slot is shown by.  Registering a name or a slot again replaces what it stood
for in its own direction only.
-/

namespace SharedPlan

/-- Attribute names with their slots. -/
structure Attributes where
  /-- The slot of a name. -/
  slots : OrdMap String SlotId
  /-- The name of a slot. -/
  names : OrdMap SlotId String
  deriving DecidableEq, Inhabited

namespace Attributes

/-- The registry without attributes. -/
def empty : Attributes := ⟨∅, ∅⟩

/-- Register an attribute with a slot. -/
def insert (a : Attributes) (name : String) (slot : SlotId) : Attributes :=
  ⟨a.slots.insert name slot, a.names.insert slot name⟩

/-- The slot after the highest one in use. -/
def nextSlot (a : Attributes) : SlotId :=
  match a.names.keys.getLast? with
  | some s => ⟨s.val + 1⟩
  | none => ⟨0⟩

/-- Register an attribute with the next slot. -/
def append (a : Attributes) (name : String) : Attributes := a.insert name a.nextSlot

/-- Register attributes with consecutive slots. -/
def appendAll (a : Attributes) (names : List String) : Attributes := names.foldl append a

/-- The registry that gives the listed names consecutive slots from zero. -/
def ofNames (names : List String) : Attributes := empty.appendAll names

/-- The slot of a name. -/
def resolve (a : Attributes) (name : String) : Except PlanError SlotId :=
  match a.slots.get? name with
  | some s => .ok s
  | none => .error (.unknownAttribute name)

/-- The name of a slot. -/
def name (a : Attributes) (slot : SlotId) : Except PlanError String :=
  match a.names.get? slot with
  | some n => .ok n
  | none => .error (.unknownAttribute slot.text)

/-- The slots of a list of names, in their order. -/
def resolveList (a : Attributes) (names : List String) : Except PlanError (List SlotId) :=
  names.mapM a.resolve

/-- The slots of a list of names as a set. -/
def resolveSet (a : Attributes) (names : List String) : Except PlanError SlotSet :=
  OrdSet.ofList <$> a.resolveList names

/-- A slot set by the names of its slots; a slot without a name shows its number. -/
def describe (a : Attributes) (slots : SlotSet) : String :=
  braced (slots.toList.map fun s => (a.names.get? s).getD s.text)

end Attributes

end SharedPlan
