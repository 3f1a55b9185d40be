import Mathlib.Data.List.Nodup
import SharedPlan.Graph.Basic

/-!
# SharedPlan.Proofs.Graph.Lookup

Looking waypoints and edges up in a graph, and graphs seen through a map on
their waypoints.

A map that keeps the ids (`PlanGraph.mapWaypoints`) is used as a view: what a pass
leaves alone is a view whose value the pass does not change.  Replacing a waypoint
by one that looks the same leaves the view as it is
(`mapWaypoints_replace_eq`), and graphs with the same view have the same edges,
roots and ids.
-/

namespace SharedPlan

namespace PlanGraph

/-! ## Waypoints -/

/-- A waypoint is answered exactly when it is found. -/
theorem waypoint_eq_ok_iff {g : PlanGraph} {id : WaypointId} {w : Waypoint} :
    g.waypoint id = .ok w ↔ g.find? id = some w := by
  rw [waypoint]
  cases g.find? id with
  | none => simp
  | some v => simp

/-- The error for a waypoint that is not found names its id. -/
theorem waypoint_of_find?_eq_none {g : PlanGraph} {id : WaypointId} (h : g.find? id = none) :
    g.waypoint id = .error (.unknownId id) := by
  rw [waypoint, h]

/-- A waypoint is found under its own id. -/
theorem id_of_find? {g : PlanGraph} {id : WaypointId} {w : Waypoint} (h : g.find? id = some w) :
    w.id = id := by
  simpa using List.find?_some h

/-- Whatever is found is a waypoint of the graph. -/
theorem mem_of_find? {g : PlanGraph} {id : WaypointId} {w : Waypoint} (h : g.find? id = some w) :
    w ∈ g.waypoints :=
  List.mem_of_find?_eq_some h

/-- The ids are those that a waypoint is found under. -/
theorem mem_ids_iff {g : PlanGraph} {id : WaypointId} :
    id ∈ g.ids ↔ ∃ w, g.find? id = some w := by
  rw [ids, List.mem_map]
  constructor
  · rintro ⟨w, hw, rfl⟩
    exact Option.isSome_iff_exists.1 (List.find?_isSome.2 ⟨w, hw, by simp⟩)
  · rintro ⟨w, hw⟩
    exact ⟨w, mem_of_find? hw, id_of_find? hw⟩

theorem contains_iff {g : PlanGraph} {id : WaypointId} : g.contains id = true ↔ id ∈ g.ids := by
  rw [contains, Option.isSome_iff_exists, mem_ids_iff]

/-- With distinct ids, a waypoint is found under its own. -/
theorem find?_of_mem {g : PlanGraph} (hg : g.ids.Nodup) {w : Waypoint} (hw : w ∈ g.waypoints) :
    g.find? w.id = some w := by
  obtain ⟨v, hv⟩ := mem_ids_iff.1 (List.mem_map.2 ⟨w, hw, rfl⟩)
  rw [hv]
  exact congrArg some (List.inj_on_of_nodup_map hg (mem_of_find? hv) hw (id_of_find? hv))

/-! ## Edges -/

/-- The inputs of a waypoint are the edges that end there. -/
theorem mem_inputs {g : PlanGraph} {id : WaypointId} {e : Edge} :
    e ∈ g.inputs id ↔ id ∈ g.ids ∧ e ∈ g.links ∧ e.receiver = id := by
  rw [inputs, ← contains_iff]
  split <;> simp_all

/-- Its outputs are the edges that begin there. -/
theorem mem_outputs {g : PlanGraph} {id : WaypointId} {e : Edge} :
    e ∈ g.outputs id ↔ id ∈ g.ids ∧ e ∈ g.links ∧ e.sender = id := by
  rw [outputs, ← contains_iff]
  split <;> simp_all

/-- The successors are reached without touching a sentinel. -/
theorem mem_successors {g : PlanGraph} {id : WaypointId} {e : Edge} :
    e ∈ g.successors id ↔
      id ∈ g.ids ∧ e ∈ g.links ∧ e.sender = id ∧ e.touchesSentinel = false := by
  rw [successors, List.mem_filter, mem_outputs]
  simp [and_assoc]

/-- The edges of a graph are its links between waypoints. -/
theorem mem_edges {g : PlanGraph} {e : Edge} :
    e ∈ g.edges ↔ e.sender ∈ g.ids ∧ e ∈ g.links ∧ e.touchesSentinel = false := by
  rw [edges, List.mem_flatMap]
  constructor
  · rintro ⟨id, _, he⟩
    obtain ⟨hid, hl, rfl, ht⟩ := mem_successors.1 he
    exact ⟨hid, hl, ht⟩
  · rintro ⟨hid, hl, ht⟩
    exact ⟨e.sender, hid, mem_successors.2 ⟨hid, hl, rfl, ht⟩⟩

/-! ## Views -/

@[simp] theorem links_mapWaypoints (g : PlanGraph) (f : Waypoint → Waypoint) :
    (g.mapWaypoints f).links = g.links := rfl

@[simp] theorem roots_mapWaypoints (g : PlanGraph) (f : Waypoint → Waypoint) :
    (g.mapWaypoints f).roots = g.roots := rfl

/-- Two changes of every waypoint are one. -/
theorem mapWaypoints_mapWaypoints (g : PlanGraph) (f f' : Waypoint → Waypoint) :
    (g.mapWaypoints f).mapWaypoints f' = g.mapWaypoints (f' ∘ f) := by
  simp [mapWaypoints]

/-- Changes that agree on the waypoints of a graph come to the same. -/
theorem mapWaypoints_congr {g : PlanGraph} {f f' : Waypoint → Waypoint}
    (h : ∀ w ∈ g.waypoints, f w = f' w) : g.mapWaypoints f = g.mapWaypoints f' := by
  simp only [mapWaypoints]
  rw [List.map_congr_left h]

variable {f : Waypoint → Waypoint}

/-- Replacing a waypoint by one that looks the same leaves the view as it is. -/
theorem mapWaypoints_replace_eq {g : PlanGraph} (hg : g.ids.Nodup) {v w : Waypoint}
    (hv : g.find? w.id = some v) (hf : f w = f v) :
    (g.replace w).mapWaypoints f = g.mapWaypoints f := by
  simp only [mapWaypoints, replace, List.map_map]
  congr 1
  refine List.map_congr_left fun u hu => ?_
  by_cases h : u.id = w.id
  · have : u = v := by
      rw [← h, find?_of_mem hg hu] at hv
      exact Option.some.inj hv
    subst this
    simp only [Function.comp_apply, h, if_true, hf]
  · simp only [Function.comp_apply, h, if_false]

/-- Replacing, then looking, is looking, then replacing. -/
theorem mapWaypoints_replace (hid : ∀ w, (f w).id = w.id) (g : PlanGraph) (w : Waypoint) :
    (g.replace w).mapWaypoints f = (g.mapWaypoints f).replace (f w) := by
  simp only [mapWaypoints, replace, List.map_map]
  congr 1
  refine List.map_congr_left fun u _ => ?_
  by_cases h : u.id = w.id <;> simp [h, hid]

/-- Graphs that look the same through a view have the same ids. -/
theorem ids_eq_of_view {g h : PlanGraph} (hid : ∀ w, (f w).id = w.id)
    (hv : g.mapWaypoints f = h.mapWaypoints f) : g.ids = h.ids := by
  rw [← ids_mapWaypoints hid g, hv, ids_mapWaypoints hid h]

/-- They have the same links. -/
theorem links_eq_of_view {g h : PlanGraph} (hv : g.mapWaypoints f = h.mapWaypoints f) :
    g.links = h.links := by
  rw [← links_mapWaypoints g f, hv, links_mapWaypoints]

theorem roots_eq_of_view {g h : PlanGraph} (hv : g.mapWaypoints f = h.mapWaypoints f) :
    g.roots = h.roots := by
  rw [← roots_mapWaypoints g f, hv, roots_mapWaypoints]

/-- What is found in them looks the same. -/
theorem find?_map_eq_of_view {g h : PlanGraph} (hid : ∀ w, (f w).id = w.id)
    (hv : g.mapWaypoints f = h.mapWaypoints f) (id : WaypointId) :
    (g.find? id).map f = (h.find? id).map f := by
  rw [← find?_mapWaypoints hid, hv, find?_mapWaypoints hid]

/-- A waypoint of one graph has its counterpart in any graph that looks the same. -/
theorem exists_find?_of_view {g h : PlanGraph} (hid : ∀ w, (f w).id = w.id)
    (hv : g.mapWaypoints f = h.mapWaypoints f) {id : WaypointId} {w : Waypoint}
    (hw : g.find? id = some w) : ∃ v, h.find? id = some v ∧ f v = f w := by
  have := find?_map_eq_of_view hid hv id
  rw [hw, Option.map_some] at this
  exact Option.map_eq_some_iff.1 this.symm

/-- Inputs depend on the ids and the links only. -/
theorem inputs_congr {g h : PlanGraph} (hids : g.ids = h.ids) (hlinks : g.links = h.links) :
    g.inputs = h.inputs := by
  funext id
  have : g.contains id = h.contains id := by
    rw [Bool.eq_iff_iff, contains_iff, contains_iff, hids]
  rw [inputs, inputs, this, hlinks]

theorem outputs_congr {g h : PlanGraph} (hids : g.ids = h.ids) (hlinks : g.links = h.links) :
    g.outputs = h.outputs := by
  funext id
  have : g.contains id = h.contains id := by
    rw [Bool.eq_iff_iff, contains_iff, contains_iff, hids]
  rw [outputs, outputs, this, hlinks]

theorem successors_congr {g h : PlanGraph} (hids : g.ids = h.ids) (hlinks : g.links = h.links) :
    g.successors = h.successors := by
  funext id
  rw [successors, successors, outputs_congr hids hlinks]

theorem edges_congr {g h : PlanGraph} (hids : g.ids = h.ids) (hlinks : g.links = h.links) :
    g.edges = h.edges := by
  rw [edges, edges, hids, successors_congr hids hlinks]

end PlanGraph

end SharedPlan
