import SharedPlan.Proofs.Analysis.Turn
import SharedPlan.Proofs.Routing.Exact

/-!
# SharedPlan.Proofs.Analysis.Fatal

An analysis fails only because the plan contradicts itself.

The passes look waypoints up by their ids: those of the order, the receivers of edges, the
senders that a walk comes to, the waypoints that it entered, and the ends of the edges that
are routed.  In a graph that can be built they are all found, as edges and roots
lead nowhere else (`Reachable.root_mem`).  What is left are the errors that abort a cycle
(`isFatal_of_analyze`).
-/

namespace SharedPlan

namespace PlanGraph

variable {g h : PlanGraph} {active : QuerySet} {options : PlannerOptions} {q : QueryId}
  {e : PlanError}

/-! ## Where edges and roots lead -/

theorem mem_of_setRoot {id : WaypointId} (hr : g.setRoot q id = .ok h) : id ∈ g.ids := by
  unfold setRoot at hr
  split at hr
  · cases hr
  · rename_i hid
    rwa [Bool.not_eq_true, Bool.not_eq_false', contains_iff] at hid

/-- **The root of a query is a waypoint of the graph.** -/
theorem Reachable.root_mem (hg : g.Reachable) {root : WaypointId} (hr : g.root? q = some root) :
    root ∈ g.ids := by
  induction hg generalizing q root with
  | empty => cases hr
  | addWaypoint _ _ ha ih =>
      obtain ⟨-, -, rfl⟩ := eq_of_addWaypoint ha
      rw [ids, List.map_append]
      exact List.mem_append_left _ (ih hr)
  | addEdge _ ha ih => obtain ⟨-, -, rfl | rfl⟩ := eq_of_addEdge ha <;> exact ih hr
  | @setRoot g h r id _ ha ih =>
      have hid : id ∈ g.ids := mem_of_setRoot ha
      have hroots : h.ids = g.ids ∧ h.roots = g.roots.insert r id := by
        obtain rfl | rfl := eq_of_setRoot ha <;> exact ⟨rfl, rfl⟩
      rw [root?, hroots.2, OrdMap.get?_insert] at hr
      rw [hroots.1]
      split at hr
      · exact Option.some.inj hr ▸ hid
      · exact ih hr
  | @deleteQuery g r _ ih =>
      have hids : (g.deleteQuery r).ids = g.ids :=
        ids_mapWaypoints (f := (·.deleteQuery r)) (fun _ => rfl) g
      rw [root?, PlanGraph.deleteQuery, OrdMap.get?_erase] at hr
      rw [hids]
      split at hr
      · cases hr
      · exact ih hr
  | clearQueries => cases hr
  | @beginCycle g _ ih =>
      rw [ids_beginCycle]
      exact ih hr
  | change _ _ _ ih =>
      rw [ids_replace]
      exact ih hr

/-- The receiver of an edge out of a waypoint is a waypoint, if it is no sentinel. -/
theorem WellFormed.receiver_mem (hg : g.WellFormed) {id : WaypointId} {l : Edge}
    (hl : l ∈ g.outputs id) (hproper : l.receiver.isSentinel = false) : l.receiver ∈ g.ids := by
  obtain ⟨hid, hlink, rfl⟩ := mem_outputs.1 hl
  refine (hg.ends l hlink ?_).2
  rw [Edge.touchesSentinel, hg.proper _ hid, hproper, Bool.or_false]

/-- The sender of an edge into a waypoint is a waypoint, if it is no sentinel. -/
theorem WellFormed.sender_mem (hg : g.WellFormed) {id : WaypointId} {l : Edge}
    (hl : l ∈ g.inputs id) (hproper : l.sender.isSentinel = false) : l.sender ∈ g.ids := by
  obtain ⟨hid, hlink, rfl⟩ := mem_inputs.1 hl
  refine (hg.ends l hlink ?_).1
  rw [Edge.touchesSentinel, hg.proper _ hid, hproper, Bool.or_false]

theorem find?_ne_none {id : WaypointId} (hid : id ∈ g.ids) : g.find? id ≠ none := by
  obtain ⟨w, hw⟩ := mem_ids_iff.1 hid
  simp [hw]

/-! ## The passes -/

/-- Graphs with the same ids and edges differ in nothing that tells which look-ups succeed. -/
def SameShape (g s : PlanGraph) : Prop := s.ids = g.ids ∧ s.links = g.links

theorem SameShape.outputs {s : PlanGraph} (hs : g.SameShape s) : s.outputs = g.outputs :=
  outputs_congr hs.1 hs.2

/-- The bottom-up pass fails only because something that is used has not arrived. -/
theorem isFatal_of_supplyPass (hg : g.WellFormed) {order : List WaypointId}
    (ho : g.topologicalOrder = .ok order)
    (hs : (supplyPass order active).outcome g.beginCycle = (.error e, h)) : e.isFatal = true := by
  have hpass : (supplyPass order active).FailsOnly (·.isFatal = true) g.SameShape := by
    refine failsOnly_supplyPass (K := (· ∈ g.ids)) (fun hs _ => ?_) (fun hs _ => ?_)
      (fun _ _ _ => rfl) (fun hs hid hnone => ?_) (fun hs hl hproper => ?_) fun id hid => ?_
    · exact ⟨(ids_replace ..).trans hs.1, hs.2⟩
    · exact ⟨(ids_replace ..).trans hs.1, hs.2⟩
    · exact absurd hnone (find?_ne_none (hs.1 ▸ hid))
    · exact hg.receiver_mem (hs.outputs ▸ hl) hproper
    · exact (perm_of_topologicalOrder hg ho).mem_iff.1 hid
  exact hpass.error g.beginCycle ⟨ids_beginCycle g, rfl⟩ e (congrArg Prod.fst hs)

/-- What a walk asks it asks of waypoints of the graph. -/
theorem spreads_mem_ids (hg : g.WellFormed) : Walk.Spreads g q fun a _ => a.waypoint ∈ g.ids where
  union ha _ := ha
  below _ _ _ hl _ _ hproper := hg.sender_mem hl hproper

/-- A walk fails in its turn only at its bound, or where a demand is refused. -/
theorem isFatal_of_demandWalk (hg : g.Reachable) {root : WaypointId} {k : PlanGraph}
    (hturn : g.Turn active options q root k) {limit : Nat}
    (hw : (demandWalk q root limit).outcome k = (.error e, h)) : e.isFatal = true := by
  obtain ⟨order, -, -, -, hview, honly⟩ := hturn.supplied hg.wellFormed
  have hk : k.WellFormed := hturn.wellFormed hg.wellFormed
  have hids : k.ids = g.ids := by
    rw [ids_eq_of_view Waypoint.id_unasked hview, ids_eq_of_view Waypoint.id_unsupplied
      (unsupplied_supplied (wellFormed_beginCycle hg.wellFormed).nodup active order),
      ids_beginCycle]
  have hroot : root ∈ k.ids := by
    obtain ⟨-, before, after, -, -, -, hroots, -⟩ := hturn
    have := (activeRoots_eq_ok_iff.1 hroots).2 (q, root)
      (List.mem_append_right before List.mem_cons_self)
    exact hids ▸ hg.root_mem this
  have hstart : Walk.Within k q (fun a _ => a.waypoint ∈ k.ids) (Walk.start k root) :=
    .start rfl (holdsExit_of_only hg.wellFormed honly) hroot
  rcases hstart.run_error hk.nodup (spreads_mem_ids hk) hw with rfl | ⟨a, S, ha, hrefuses⟩
  · rfl
  · cases hrefuses with
    | unknown hnone => exact absurd hnone (find?_ne_none ha)
    | refused => rfl

/-- The audit fails only because an exit is missing. -/
theorem isFatal_of_audit (hg : g.WellFormed) (hids : h.ids = g.ids)
    {walks : List (QueryId × WalkReport)}
    (hentered : ∀ r ∈ walks, ∀ id ∈ r.2.entered, g.DemandEnters active options r.1 id)
    (ha : h.audit options walks = .error e) : e.isFatal = true := by
  refine failsOnly_audit (E := (·.isFatal = true)) (fun _ _ => rfl) (fun r hr id hid hnone => ?_)
    e ha
  obtain ⟨-, -, y, hy⟩ := (hentered r hr id hid).enters hg
  obtain ⟨w, hw, -⟩ := hy.covers
  exact absurd hnone (find?_ne_none (hids ▸ mem_ids_iff.2 ⟨w, hw⟩))

/-- **An analysis of a graph that can be built fails only by an error that aborts the cycle.** -/
theorem isFatal_of_analyze (hg : g.Reachable)
    (ha : (analyze active options).outcome g = (.error e, h)) : e.isFatal = true := by
  cases failsWith_of_analyze ha with
  | order ho => exact failsOnly_topologicalOrder (E := (·.isFatal = true)) (fun _ => rfl) e ho
  | roots hr => exact failsOnly_activeRoots (E := (·.isFatal = true)) (fun _ => rfl) e hr
  | supply ho hs => exact isFatal_of_supplyPass hg.wellFormed ho hs
  | walk hturn hw => exact isFatal_of_demandWalk hg hturn hw
  | audit ho hr hs hw haudit =>
      have hids : h.ids = g.ids := by
        have hrenews := renews_analyze hg active options
        rw [ha] at hrenews
        exact ids_eq_of_view Waypoint.id_beginCycle hrenews.beginCycle
      exact isFatal_of_audit hg.wellFormed hids
        (fun r hmem id hid => ⟨_, _, _, _, _, r.2, ho, hr, hs, hw, hmem, hid⟩) haudit

end PlanGraph

end SharedPlan
