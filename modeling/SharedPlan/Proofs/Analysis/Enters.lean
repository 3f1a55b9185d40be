import SharedPlan.Proofs.Analysis.Passes

/-!
# SharedPlan.Proofs.Analysis.Enters

Where the demand walk of a query goes, without the walk.

`PlanGraph.Enters` is the least relation between waypoints and exits that holds the root
of the query and follows the edges over which waypoints carry the query on
(`PlanGraph.Feeds`).  It reads nothing but what registration wrote, so no pass of
an analysis changes it (`enters_mapWaypoints`).
-/

namespace SharedPlan

namespace PlanGraph

/-- A stream of a query that is at one waypoint on its way to an exit comes over an edge
from another waypoint, where its exit is `x`.  The sender takes part in the query and
the receiver carries it on over edges of that kind.  Over a flow-through edge the exit
stays what it was, over a terminating edge it is the receiver. -/
def Feeds (g : PlanGraph) (q : QueryId) (m n y x : WaypointId) : Prop :=
  ∃ kind, ⟨m, n, kind⟩ ∈ g.links ∧ m.isSentinel = false ∧
    (∃ v, g.find? m = some v ∧ v.covers q = true) ∧
    (∃ w, g.find? n = some w ∧ w.carries kind q = true) ∧ x = Walk.exitOver ⟨n, y⟩ kind

/-- The waypoints that streams of a query pass, each with the exit it is on its way to. -/
inductive Enters (g : PlanGraph) (q : QueryId) : WaypointId → WaypointId → Prop
  | root {r : WaypointId} {w : Waypoint} :
      g.root? q = some r → g.find? r = some w → w.covers q = true → Enters g q r r
  | feed {m n y x : WaypointId} : Enters g q n y → g.Feeds q m n y x → Enters g q m x

/-- A stream of an active query crosses from one waypoint to another on its way to an exit. -/
def Streams (g : PlanGraph) (active : QuerySet) (m n : WaypointId) (e : QueryExit) : Prop :=
  e.query ∈ active.toList ∧ ∃ y, g.Enters e.query n y ∧ g.Feeds e.query m n y e.exit

variable {g : PlanGraph} {q : QueryId} {n y : WaypointId}

/-- A waypoint that a query enters covers the query. -/
theorem Enters.covers (h : g.Enters q n y) : ∃ w, g.find? n = some w ∧ w.covers q = true := by
  cases h with
  | root _ hw hc => exact ⟨_, hw, hc⟩
  | feed _ hf =>
      obtain ⟨_, _, _, hv, _⟩ := hf
      exact hv

section View

variable {f : Waypoint → Waypoint} (hid : ∀ w, (f w).id = w.id)
  (hcovers : ∀ w, (f w).covers q = w.covers q)
  (hcarries : ∀ w kind, (f w).carries kind q = w.carries kind q)

include hid hcovers hcarries

theorem feeds_mapWaypoints {m x : WaypointId} :
    (g.mapWaypoints f).Feeds q m n y x ↔ g.Feeds q m n y x := by
  simp only [Feeds, find?_mapWaypoints hid, links_mapWaypoints, Option.map_eq_some_iff]
  refine exists_congr fun kind => and_congr_right fun _ => and_congr_right fun _ =>
    and_congr ?_ (and_congr_left fun _ => ?_)
  · constructor
    · rintro ⟨_, ⟨v, hv, rfl⟩, hc⟩
      exact ⟨v, hv, hcovers v ▸ hc⟩
    · rintro ⟨v, hv, hc⟩
      exact ⟨f v, ⟨v, hv, rfl⟩, (hcovers v).trans hc⟩
  · constructor
    · rintro ⟨_, ⟨w, hw, rfl⟩, hc⟩
      exact ⟨w, hw, hcarries w kind ▸ hc⟩
    · rintro ⟨w, hw, hc⟩
      exact ⟨f w, ⟨w, hw, rfl⟩, (hcarries w kind).trans hc⟩

/-- A view that shows who takes part and who carries on shows where streams go. -/
theorem enters_mapWaypoints : (g.mapWaypoints f).Enters q n y ↔ g.Enters q n y := by
  constructor
  · intro h
    induction h with
    | root hr hw hc =>
        rw [find?_mapWaypoints hid] at hw
        obtain ⟨u, hu, rfl⟩ := Option.map_eq_some_iff.1 hw
        exact .root hr hu (hcovers u ▸ hc)
    | feed _ hf ih => exact .feed ih ((feeds_mapWaypoints hid hcovers hcarries).1 hf)
  · intro h
    induction h with
    | @root r w hr hw hc =>
        have hw' : (g.mapWaypoints f).find? r = some (f w) := by
          rw [find?_mapWaypoints hid, hw, Option.map_some]
        exact .root hr hw' ((hcovers w).trans hc)
    | feed _ hf ih => exact .feed ih ((feeds_mapWaypoints hid hcovers hcarries).2 hf)

/-- Graphs that look alike are entered alike. -/
theorem enters_congr_of_view {h : PlanGraph} (hv : g.mapWaypoints f = h.mapWaypoints f) :
    g.Enters q n y ↔ h.Enters q n y := by
  rw [← enters_mapWaypoints hid hcovers hcarries, hv, enters_mapWaypoints hid hcovers hcarries]

end View

end PlanGraph

end SharedPlan
