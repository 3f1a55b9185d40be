import Mathlib.Data.List.Perm.Basic
import SharedPlan.Proofs.Analysis.Walked
import SharedPlan.Proofs.Waypoint.Repeat

/-!
# SharedPlan.Proofs.Analysis.Marks

What a walk of a query leaves behind: the graph, and the waypoints that it entered.

A walk marks this `Tour` in two ways.  It enters waypoints, and it has them answer
demands over their input edges.  Marks may be set in any order and more than once, so a
tour is known by the marks that it bears: tours from one place that bear each other's marks
are equal (`Tour.marks_eq_of_bears`).
-/

namespace SharedPlan

open Walk (exitOver)

/-- What a walk leaves: the graph, and the waypoints whose inputs it walked. -/
structure Tour where
  graph : PlanGraph
  entered : OrdSet WaypointId
  deriving DecidableEq

/-- The trace of one step of a walk. -/
inductive Mark where
  /-- The inputs of a waypoint are walked. -/
  | enter (n : WaypointId)
  /-- The demand of a visit is passed over an input edge. -/
  | pass (v : Visit) (e : Edge)

namespace Waypoint

variable (w : Waypoint) (q : QueryId) (u v : Visit) (e f : Edge)

/-- The waypoint once a visit has passed an edge: the waypoint visited has answered. -/
def heard : Waypoint :=
  if w.id = v.arrival.waypoint then
    w.answered e.kind q v.needed ⟨q, exitOver v.arrival e.kind⟩
  else w

variable {w v} in
theorem heard_of_eq (h : w.id = v.arrival.waypoint) :
    w.heard q v e = w.answered e.kind q v.needed ⟨q, exitOver v.arrival e.kind⟩ :=
  if_pos h

variable {w v} in
theorem heard_of_ne (h : w.id ≠ v.arrival.waypoint) : w.heard q v e = w :=
  if_neg h

@[simp] theorem unasked_heard : (w.heard q v e).unasked = w.unasked := by
  by_cases h : w.id = v.arrival.waypoint
  · rw [heard_of_eq q e h, unasked_answered]
  · rw [heard_of_ne q e h]

@[simp] theorem id_heard : (w.heard q v e).id = w.id := by
  rw [← id_unasked, unasked_heard, id_unasked]

/-- In which order visits are heard does not matter. -/
theorem heard_comm : (w.heard q u e).heard q v f = (w.heard q v f).heard q u e := by
  by_cases hu : w.id = u.arrival.waypoint
  · by_cases hv : w.id = v.arrival.waypoint
    · rw [heard_of_eq q f ((id_heard w q u e).trans hv), heard_of_eq q e hu,
        heard_of_eq q e ((id_heard w q v f).trans hu), heard_of_eq q f hv]
      exact answered_comm ..
    · rw [heard_of_ne q f hv, heard_of_ne q f (fun h => hv ((id_heard w q u e).symm.trans h))]
  · rw [heard_of_ne q e hu, heard_of_ne q e (fun h => hu ((id_heard w q v f).symm.trans h))]

/-- A waypoint that has heard a visit once has heard it for good. -/
theorem heard_heard : (w.heard q v e).heard q v e = w.heard q v e := by
  by_cases h : w.id = v.arrival.waypoint
  · rw [heard_of_eq q e ((id_heard w q v e).trans h), heard_of_eq q e h]
    exact knows_answered
  · rw [heard_of_ne q e h, heard_of_ne q e h]

end Waypoint

/-- To replace a waypoint by what it has answered is to have every waypoint hear the visit. -/
theorem PlanGraph.replace_answered {g : PlanGraph} {q : QueryId} (hg : g.ids.Nodup) {v : Visit}
    {w : Waypoint} (hw : g.find? v.arrival.waypoint = some w) (e : Edge) :
    g.replace (w.answered e.kind q v.needed ⟨q, exitOver v.arrival e.kind⟩) =
      g.mapWaypoints (·.heard q v e) := by
  have hid : w.id = v.arrival.waypoint := id_of_find? hw
  simp only [replace, mapWaypoints, Waypoint.id_answered, hid]
  congr 1
  refine List.map_congr_left fun u hu => ?_
  by_cases h : u.id = v.arrival.waypoint
  · rw [← h, find?_of_mem hg hu] at hw
    obtain rfl := Option.some.inj hw
    rw [if_pos h, Waypoint.heard_of_eq q e h]
  · rw [if_neg h, Waypoint.heard_of_ne q e h]

namespace Tour

variable {q : QueryId} {t : Tour}

/-- Set a mark. -/
def mark (q : QueryId) (t : Tour) : Mark → Tour
  | .enter n => { t with entered := t.entered.insert n }
  | .pass v e => { t with graph := t.graph.mapWaypoints (·.heard q v e) }

/-- Set marks one after another. -/
def marks (q : QueryId) (t : Tour) (l : List Mark) : Tour := l.foldl (mark q) t

/-- The mark is there: to set it changes nothing. -/
def Bears (q : QueryId) (t : Tour) (m : Mark) : Prop := t.mark q m = t

/-! ## Marks in any order -/

/-- Marks can be set in either order. -/
theorem mark_comm (m m' : Mark) : (t.mark q m).mark q m' = (t.mark q m').mark q m := by
  cases m with
  | enter n =>
      cases m' with
      | enter n' =>
          simp only [mark]
          congr 1
          ext z
          simp only [OrdSet.mem_insert, or_left_comm]
      | pass v e => rfl
  | pass v e =>
      cases m' with
      | enter n => rfl
      | pass v' e' =>
          simp only [mark, PlanGraph.mapWaypoints_mapWaypoints]
          congr 1
          exact PlanGraph.mapWaypoints_congr fun w _ => w.heard_comm q v v' e e'

instance : RightCommutative (mark q) := ⟨fun _ m m' => mark_comm m m'⟩

/-- A mark that is set is borne. -/
theorem bears_mark (m : Mark) : (t.mark q m).Bears q m := by
  cases m with
  | enter n =>
      simp only [Bears, mark]
      congr 1
      ext z
      simp only [OrdSet.mem_insert, or_self_left]
  | pass v e =>
      simp only [Bears, mark, PlanGraph.mapWaypoints_mapWaypoints]
      congr 1
      exact PlanGraph.mapWaypoints_congr fun w _ => w.heard_heard q v e

/-- A mark is not lost when another is set. -/
theorem Bears.mark {m : Mark} (h : t.Bears q m) (m' : Mark) : (t.mark q m').Bears q m := by
  rw [Bears, mark_comm, h]

theorem marks_append (l l' : List Mark) : t.marks q (l ++ l') = (t.marks q l).marks q l' :=
  List.foldl_append

theorem Bears.marks {m : Mark} (h : t.Bears q m) (l : List Mark) : (t.marks q l).Bears q m := by
  induction l generalizing t with
  | nil => exact h
  | cons m' rest ih => exact ih (h.mark m')

/-- A tour bears the marks that were set on it. -/
theorem bears_of_mem {l : List Mark} {m : Mark} (hm : m ∈ l) : (t.marks q l).Bears q m := by
  induction l generalizing t with
  | nil => cases hm
  | cons m' rest ih =>
      rcases List.mem_cons.1 hm with rfl | hm
      · exact (bears_mark m).marks rest
      · exact ih hm

/-- Marks that are borne change nothing. -/
theorem marks_of_bears {l : List Mark} (h : ∀ m ∈ l, t.Bears q m) : t.marks q l = t := by
  induction l with
  | nil => rfl
  | cons m rest ih =>
      calc t.marks q (m :: rest)
          = (t.mark q m).marks q rest := rfl
        _ = t.marks q rest := by rw [h m List.mem_cons_self]
        _ = t := ih fun m' hm => h m' (List.mem_cons_of_mem m hm)

/-- **Tours from one place that bear each other's marks are equal.** -/
theorem marks_eq_of_bears {l l' : List Mark} (h : ∀ m ∈ l, (t.marks q l').Bears q m)
    (h' : ∀ m ∈ l', (t.marks q l).Bears q m) : t.marks q l = t.marks q l' := by
  calc t.marks q l
      = (t.marks q l).marks q l' := (marks_of_bears h').symm
    _ = t.marks q (l ++ l') := (marks_append l l').symm
    _ = t.marks q (l' ++ l) := List.perm_append_comm.foldl_eq t
    _ = (t.marks q l').marks q l := marks_append l' l
    _ = t.marks q l' := marks_of_bears h

/-! ## What it is to bear a mark -/

/-- An edge is passed once its demand is known to the waypoint it arrives at. -/
theorem bears_pass {v : Visit} {e : Edge} : t.Bears q (.pass v e) ↔
    ∀ w ∈ t.graph.waypoints, w.id = v.arrival.waypoint →
      w.Knows e.kind q v.needed (exitOver v.arrival e.kind) := by
  have hmap : t.Bears q (.pass v e) ↔ ∀ w ∈ t.graph.waypoints, w.heard q v e = id w := by
    rw [← List.map_inj_left, List.map_id]
    exact ⟨fun h => congrArg (fun t => t.graph.waypoints) h, fun h => by
      simp only [Bears, mark, PlanGraph.mapWaypoints, h]⟩
  rw [hmap]
  refine forall₂_congr fun w _ => ⟨fun h hid => ?_, fun h => ?_⟩
  · rw [Waypoint.Knows, ← Waypoint.heard_of_eq q e hid]
    exact h
  · by_cases hid : w.id = v.arrival.waypoint
    · rw [Waypoint.heard_of_eq q e hid]
      exact h hid
    · exact Waypoint.heard_of_ne q e hid

/-- A demand has been passed where each part of it has been. -/
theorem bears_of_forall {a : Arrival} {S : SlotSet} {e : Edge}
    (ha : ∃ T, t.Bears q (.pass ⟨a, T⟩ e))
    (h : ∀ z ∈ S, ∃ T, z ∈ T ∧ t.Bears q (.pass ⟨a, T⟩ e)) : t.Bears q (.pass ⟨a, S⟩ e) := by
  rw [bears_pass]
  intro w hw hid
  refine Waypoint.knows_of_forall ?_ fun z hz => ?_
  · obtain ⟨T, hT⟩ := ha
    exact ⟨T, bears_pass.1 hT w hw hid⟩
  · obtain ⟨T, hzT, hT⟩ := h z hz
    exact ⟨T, hzT, bears_pass.1 hT w hw hid⟩

/-- What is borne for a demand is borne for a smaller one. -/
theorem Bears.subset {a : Arrival} {S T : SlotSet} {e : Edge} (h : t.Bears q (.pass ⟨a, T⟩ e))
    (hST : S ⊆ T) : t.Bears q (.pass ⟨a, S⟩ e) :=
  bears_of_forall ⟨T, h⟩ fun z hz => ⟨T, hST z hz, h⟩

/-! ## What marks leave alone -/

/-- Marks change nothing but what demands leave on the waypoints. -/
theorem unasked_marks (l : List Mark) :
    (t.marks q l).graph.mapWaypoints Waypoint.unasked =
      t.graph.mapWaypoints Waypoint.unasked := by
  induction l generalizing t with
  | nil => rfl
  | cons m rest ih =>
      refine ih.trans ?_
      cases m with
      | enter n => rfl
      | pass v e =>
          simp only [mark, PlanGraph.mapWaypoints_mapWaypoints]
          exact PlanGraph.mapWaypoints_congr fun w _ => w.unasked_heard q v e

end Tour

end SharedPlan
