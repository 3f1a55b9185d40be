import SharedPlan.Options.Basic
import SharedPlan.Toml.Document

/-!
# SharedPlan.Options.Text

Planner options as TOML text.  Every setting is written on a line of its own;
when they are read, missing ones keep their defaults and unknown keys are skipped.
An integer of the format ends at 2^63 - 1, so options beyond that cannot be
written.
-/

namespace SharedPlan

namespace PlannerOptions

/-! ## Writing -/

/-- A setting on its line. -/
def settingLine (name value : String) : String := name ++ " = " ++ value ++ "\n"

/-- A truth value. -/
def boolText (b : Bool) : String := if b then "true" else "false"

/-- The greatest integer of the format. -/
def maxInteger : Nat := Nat.pow 2 63 - 1

/-- Options as text. -/
def toText (o : PlannerOptions) : Except PlanError String :=
  if o.maxQueries.toNat ≤ maxInteger ∧ o.maxWalkSteps.toNat ≤ maxInteger then
    .ok (settingLine "max_queries" (toString o.maxQueries.toNat) ++
      settingLine "verify_exits" (boolText o.verifyExits) ++
      settingLine "warn_unreachable" (boolText o.warnUnreachable) ++
      settingLine "max_walk_steps" (toString o.maxWalkSteps.toNat))
  else .error .optionsUnwritable

/-! ## Reading -/

/-- A natural number that a key stands for; a default if there is no such key. -/
def natSetting? (t : Toml.Table) (name : String) (d : UInt64) : Option UInt64 :=
  match t.get? name with
  | none => some d
  | some (.value (.integer n)) => if 0 ≤ n then some n.toNat.toUInt64 else none
  | some _ => none

/-- A truth value that a key stands for; a default if there is no such key. -/
def boolSetting? (t : Toml.Table) (name : String) (d : Bool) : Option Bool :=
  match t.get? name with
  | none => some d
  | some (.value (.boolean b)) => some b
  | some _ => none

/-- The options of a table. -/
def ofTable? (t : Toml.Table) : Option PlannerOptions := do
  return {
    maxQueries := ← natSetting? t "max_queries" standard.maxQueries
    verifyExits := ← boolSetting? t "verify_exits" standard.verifyExits
    warnUnreachable := ← boolSetting? t "warn_unreachable" standard.warnUnreachable
    maxWalkSteps := ← natSetting? t "max_walk_steps" standard.maxWalkSteps }

/-- The options that a text is; the path names the file it came from. -/
def parse (path text : String) : Except PlanError PlannerOptions :=
  match (Toml.parse? text).bind ofTable? with
  | some o => o.validated path
  | none => .error (.optionsMalformed path)

end PlannerOptions

end SharedPlan
