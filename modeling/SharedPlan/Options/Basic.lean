import SharedPlan.Error
import SharedPlan.QuerySet

/-!
# SharedPlan.Options.Basic

The settings of a planner, their defaults and their legal range.
-/

namespace SharedPlan

/-- The settings of a planner. -/
structure PlannerOptions where
  /-- How many queries may be active at once. -/
  maxQueries : UInt64
  /-- Check that every waypoint a query reaches recorded an exit. -/
  verifyExits : Bool
  /-- Report waypoints that a query is registered on but does not reach. -/
  warnUnreachable : Bool
  /-- How many steps the demand walk of one query may take. -/
  maxWalkSteps : UInt64
  deriving DecidableEq

namespace PlannerOptions

/-- The settings that hold unless others are given. -/
def standard : PlannerOptions := ⟨64, true, true, 1000000⟩

instance : Inhabited PlannerOptions := ⟨standard⟩

/-- Refuses settings out of range; the path names the file they came from. -/
def validated (o : PlannerOptions) (path : String) : Except PlanError PlannerOptions :=
  if o.maxQueries = 0 ∨ QuerySet.capacity < o.maxQueries.toNat then
    .error (.maxQueriesOutOfRange path o.maxQueries.toNat)
  else if o.maxWalkSteps = 0 then .error (.maxWalkStepsZero path)
  else .ok o

end PlannerOptions

end SharedPlan
