import SharedPlan.Planner
import SharedPlan.Proofs.Planner.Alike

/-!
# SharedPlan.Proofs.Planner.Capped

Edges to the top sentinel are never looked at.

Making a waypoint the root of a query leaves an edge to the top that stays when the query
is deleted.  Graphs are `PlanGraph.Capped` alike when they are equal but for such edges.
Whatever is built on them comes to the same (`respected_capped`), and so does an analysis
with the routing that is compiled from it (`respects_analyzeAndRoute`): the passes follow
edges between waypoints, and the upward pass skips the top.
-/

namespace SharedPlan

open Attempt (Respects)

namespace PlanGraph

/-- Graphs that are equal but for edges to the top. -/
structure Capped (g h : PlanGraph) : Prop where
  waypoints : g.waypoints = h.waypoints
  links : g.links.filter (fun e => e.receiver ≠ .top) = h.links.filter fun e => e.receiver ≠ .top
  roots : g.roots = h.roots
  proper : ∀ id ∈ g.ids, id.isSentinel = false

variable {g h : PlanGraph} (H : g.Capped h)

include H

/-! ## Look-ups -/

/-- Nothing but edges differs, so the waypoints are listed alike. -/
theorem Capped.ids : g.ids = h.ids := by rw [PlanGraph.ids, PlanGraph.ids, H.waypoints]

theorem Capped.symm : h.Capped g :=
  ⟨H.waypoints.symm, H.links.symm, H.roots.symm, H.ids ▸ H.proper⟩

theorem Capped.trans {k : PlanGraph} (H' : h.Capped k) : g.Capped k :=
  ⟨H.waypoints.trans H'.waypoints, H.links.trans H'.links, H.roots.trans H'.roots, H.proper⟩

/-- The same waypoint is found under every id. -/
theorem Capped.find? : g.find? = h.find? := by
  funext id
  rw [PlanGraph.find?, PlanGraph.find?, H.waypoints]

/-- So is it with the error for an unknown id. -/
theorem Capped.waypoint : g.waypoint = h.waypoint := by
  funext id
  rw [PlanGraph.waypoint, PlanGraph.waypoint, H.find?]

theorem Capped.contains : g.contains = h.contains := by
  funext id
  rw [PlanGraph.contains, PlanGraph.contains, H.find?]

/-- No edge into a waypoint ends at the top, so the same edges arrive everywhere. -/
theorem Capped.inputs : g.inputs = h.inputs := by
  funext id
  rw [PlanGraph.inputs, PlanGraph.inputs, ← H.contains]
  split
  · rename_i hid
    -- the top is no waypoint, so nothing is lost where its edges are left out
    have hproper := H.proper id (contains_iff.1 hid)
    have hskip (l : List Edge) : l.filter (fun e => e.receiver = id) =
        (l.filter fun e => e.receiver ≠ .top).filter fun e => e.receiver = id := by
      rw [List.filter_filter]
      refine List.filter_congr fun e _ => ?_
      by_cases he : e.receiver = id
      · have hne : id ≠ .top := by
          rintro rfl
          cases hproper
        simp [he, hne]
      · simp [he]
    rw [hskip g.links, hskip h.links, H.links]
  · rfl

/-- The edges out of a waypoint that do not lead to the top. -/
theorem Capped.outputs (id : WaypointId) :
    (g.outputs id).filter (fun e => e.receiver ≠ .top) =
      (h.outputs id).filter fun e => e.receiver ≠ .top := by
  rw [PlanGraph.outputs, PlanGraph.outputs, ← H.contains]
  split
  · rw [List.filter_comm, H.links, List.filter_comm]
  · rfl

/-- The top is no successor, so the graphs have the same paths. -/
theorem Capped.successors : g.successors = h.successors := by
  funext id
  have hskip (l : List Edge) : l.filter (fun e => !e.touchesSentinel) =
      (l.filter fun e => e.receiver ≠ .top).filter fun e => !e.touchesSentinel := by
    rw [List.filter_filter]
    refine List.filter_congr fun e _ => ?_
    by_cases he : e.receiver = .top
    · simp [Edge.touchesSentinel, he, WaypointId.isSentinel, WaypointId.top]
    · simp [he]
  rw [PlanGraph.successors, PlanGraph.successors, hskip, H.outputs, ← hskip]

/-- Edges between waypoints do not touch the top. -/
theorem Capped.edges : g.edges = h.edges := by
  rw [PlanGraph.edges, PlanGraph.edges, H.ids, H.successors]

/-! ## Changes -/

/-- Changing every waypoint, with its id kept, does not tell the graphs apart. -/
theorem Capped.mapWaypoints {f : Waypoint → Waypoint} (hf : ∀ w, (f w).id = w.id) :
    (g.mapWaypoints f).Capped (h.mapWaypoints f) where
  waypoints := congrArg (List.map f) H.waypoints
  links := H.links
  roots := H.roots
  proper := by
    rw [ids_mapWaypoints hf]
    exact H.proper

theorem Capped.replace (w : Waypoint) : (g.replace w).Capped (h.replace w) where
  waypoints := congrArg (List.map _) H.waypoints
  links := H.links
  roots := H.roots
  proper := by
    rw [ids_replace]
    exact H.proper

/-- The same new edge can be added to both graphs. -/
theorem Capped.link (e : Edge) :
    (g.link e.sender e.receiver e.kind).Capped (h.link e.sender e.receiver e.kind) where
  waypoints := H.waypoints
  links := by
    rw [PlanGraph.link, PlanGraph.link, List.filter_append, List.filter_append, H.links]
  roots := H.roots
  proper := H.proper

/-- An edge to the top may be placed on one side alone. -/
theorem Capped.link_left (id : WaypointId) (kind : EdgeKind) : (g.link id .top kind).Capped h where
  waypoints := H.waypoints
  links := by simpa [PlanGraph.link, List.filter_append] using H.links
  roots := H.roots
  proper := H.proper

/-- An edge to the top can be added to the other graph alone. -/
theorem Capped.link_right (id : WaypointId) (kind : EdgeKind) : g.Capped (h.link id .top kind) where
  waypoints := H.waypoints
  links := by simpa [PlanGraph.link, List.filter_append] using H.links
  roots := H.roots
  proper := H.proper

/-- Equal roots can be given to both graphs. -/
theorem Capped.withRoots {roots roots' : OrdMap QueryId WaypointId} (hroots : roots = roots') :
    Capped { g with roots } { h with roots := roots' } :=
  ⟨H.waypoints, H.links, hroots, H.proper⟩

/-! ## Building -/

/-- A waypoint is added to both graphs or refused by both. -/
theorem Capped.addWaypoint (w : Waypoint) : Agree Capped (g.addWaypoint w) (h.addWaypoint w) := by
  unfold PlanGraph.addWaypoint
  rw [H.contains]
  split
  · exact .error _
  split
  · exact .error _
  rename_i hproper _
  have hadded : Capped { g with waypoints := g.waypoints ++ [w] }
      { h with waypoints := h.waypoints ++ [w] } :=
    { waypoints := by rw [H.waypoints]
      links := H.links
      roots := H.roots
      proper := fun id hid => by
        rw [PlanGraph.ids, List.map_append, List.mem_append] at hid
        rcases hid with hid | hid
        · exact H.proper id hid
        · rw [List.mem_singleton.1 hid]
          exact Bool.not_eq_true _ ▸ hproper }
  dsimp only
  cases w.kind.isSource <;> cases w.kind.isSink
  · exact .ok hadded
  · exact .ok (hadded.link ⟨w.id, .top, .terminating⟩)
  · exact .ok (hadded.link ⟨.bottom, w.id, .flowThrough⟩)
  · exact .ok ((hadded.link ⟨.bottom, w.id, .flowThrough⟩).link ⟨w.id, .top, .terminating⟩)

/-- An edge is added to both graphs or refused by both, whichever edges to the top they have. -/
theorem Capped.addEdge (sender receiver : WaypointId) (kind : EdgeKind) :
    Agree Capped (g.addEdge sender receiver kind) (h.addEdge sender receiver kind) := by
  unfold PlanGraph.addEdge
  rw [H.contains]
  split
  · exact .error _
  rename_i hsentinel
  split
  · exact .error _
  split
  · exact .error _
  have hfind (l : List Edge) : l.find? (fun e => e.receiver = receiver) =
      (l.filter fun e => e.receiver ≠ .top).find? fun e => e.receiver = receiver := by
    have hne : receiver ≠ .top := by
      rintro rfl
      exact hsentinel (Bool.or_eq_true_iff.2 (.inr rfl))
    rw [List.find?_filter]
    congr 1
    funext e
    by_cases he : e.receiver = receiver
    · simp [he, hne]
    · simp [he]
  rw [hfind (g.outputs sender), hfind (h.outputs sender), H.outputs]
  split
  · split
    · exact .ok H
    · exact .error _
  · exact .ok (H.link ⟨sender, receiver, kind⟩)

/-- A root is set in both graphs or in neither; only one of them may need a new edge to the top.
-/
theorem Capped.setRoot (q : QueryId) (id : WaypointId) :
    Agree Capped (g.setRoot q id) (h.setRoot q id) := by
  unfold PlanGraph.setRoot
  rw [H.contains]
  split
  · exact .error _
  dsimp only
  have hroots : g.roots.insert q id = h.roots.insert q id := by rw [H.roots]
  -- whether the edge to the top is there already may differ
  split <;> split
  · exact .ok (H.withRoots hroots)
  · exact .ok ((H.link_right id .terminating).withRoots hroots)
  · exact .ok ((H.link_left id .terminating).withRoots hroots)
  · exact .ok (((H.link_left id .terminating).link_right id .terminating).withRoots hroots)

/-- Registering queries at a waypoint replaces the same waypoint in both graphs. -/
theorem Capped.enrol (id : WaypointId) (queries : List QueryId) (d : Duty) :
    Agree (fun v w => v.kind = w.kind ∧
        Capped (g.replace (queries.foldl (·.enrol · d) v))
          (h.replace (queries.foldl (·.enrol · d) w)))
      (g.waypoint id) (h.waypoint id) := by
  rw [H.waypoint]
  cases h.waypoint id with
  | error e => exact .error e
  | ok w => exact .ok ⟨rfl, H.replace _⟩

omit H in
/-- **Edges to the top are not seen while a graph is built.** -/
theorem respected_capped : Respected Capped where
  addWaypoint {_ _ w} H _ := H.addWaypoint w
  addEdge sender receiver kind H := H.addEdge sender receiver kind
  setRoot q id H := H.setRoot q id
  enrol id queries d H := H.enrol id queries d
  deleteQuery q H :=
    (H.mapWaypoints (f := (·.deleteQuery q)) fun _ => rfl).withRoots (by rw [H.roots])
  clearQueries H := (H.mapWaypoints (f := (·.clear)) fun _ => rfl).withRoots rfl

/-! ## The upward pass -/

omit H

theorem respects_emitAt (id : WaypointId) (active : QuerySet) :
    Respects Capped (emitAt id active) := by
  intro g h H
  rw [emitAt, Attempt.outcome_ofOutcome, Attempt.outcome_ofOutcome, H.waypoint]
  cases h.waypoint id with
  | error e => exact ⟨rfl, H⟩
  | ok w => exact ⟨rfl, H.replace _⟩

/-- What a waypoint emits is delivered over an edge alike. -/
theorem respects_deliver (m : QuerySlots) (e : Edge) : Respects Capped (deliver m e) := by
  refine Attempt.respects_update fun g h H => ?_
  rw [H.waypoint]
  exact Agree.bind_self _ fun w => .ok (H.replace _)

/-- The top is skipped where a waypoint hands on what it emitted. -/
theorem respects_supplyFrom (active : QuerySet) (id : WaypointId) :
    Respects Capped (supplyFrom active id) := by
  refine (respects_emitAt id active).bind fun m => Attempt.respects_get_bind fun g h H => ?_
  have hskip (l : List Edge) :
      (l.filter fun e => e.receiver ≠ .top).forM
          (fun e => if e.receiver.isSentinel then pure () else deliver m e) =
        l.forM fun e => if e.receiver.isSentinel then pure () else deliver m e := by
    induction l with
    | nil => rfl
    | cons e rest ih =>
        by_cases he : e.receiver = .top
        · rw [List.filter_cons_of_neg (by simp [he]), ih]
          show _ = ((if e.receiver.isSentinel then pure () else deliver m e) >>= fun _ =>
            rest.forM fun e => if e.receiver.isSentinel then pure () else deliver m e)
          rw [if_pos (he ▸ rfl), pure_bind]
        · rw [List.filter_cons_of_pos (by simp [he])]
          exact congrArg (fun k : Attempt PlanGraph Unit =>
            (if e.receiver.isSentinel then pure () else deliver m e) >>= fun _ => k) ih
  refine ⟨?_, Attempt.respects_forM fun e _ => ?_⟩
  · rw [← hskip (g.outputs id), H.outputs, hskip]
  · split
    · exact Attempt.respects_pure ()
    · exact respects_deliver m e

/-- The upward pass reads and writes waypoints only. -/
theorem respects_supplyPass (order : List WaypointId) (active : QuerySet) :
    Respects Capped (supplyPass order active) :=
  Attempt.respects_forM fun id _ => respects_supplyFrom active id

/-! ## The downward pass -/

end PlanGraph

namespace Walk

variable {q : QueryId}

/-- Walks that are equal but for edges of their graphs to the top. -/
structure Capped (s t : Walk) : Prop where
  graph : s.graph.Capped t.graph
  asked : s.asked = t.asked
  entered : s.entered = t.entered
  stack : s.stack = t.stack

variable {s t : Walk} (H : s.Capped t)

include H

/-- A demand crosses an edge alike, and what it changes stays equal but for the top. -/
theorem Capped.cross (a : Arrival) (needed : SlotSet) (e : Edge) :
    Agree Capped (cross q a needed e s) (cross q a needed e t) := by
  unfold Walk.cross
  rw [H.graph.waypoint]
  refine Agree.bind_self _ fun w => Agree.bind_self _ fun p => .ok ?_
  refine ⟨H.graph.replace _, H.asked, H.entered, ?_⟩
  dsimp only
  rw [H.stack]

/-- So do demands over a list of edges. -/
theorem Capped.crossAll (a : Arrival) (needed : SlotSet) (l : List Edge) :
    (crossAll q a needed l s).1 = (crossAll q a needed l t).1 ∧
      (crossAll q a needed l s).2.Capped (crossAll q a needed l t).2 := by
  induction l generalizing s t with
  | nil => exact ⟨rfl, H⟩
  | cons e rest ih =>
      rw [Walk.crossAll, Walk.crossAll]
      have hagree := H.cross (q := q) a needed e
      cases hs : Walk.cross q a needed e s <;> cases ht : Walk.cross q a needed e t <;>
        rw [hs, ht] at hagree <;> cases hagree
      · exact ⟨rfl, H⟩
      · rename_i hafter
        exact ih hafter

/-- A visit asks over the edges into a waypoint, which are the same. -/
theorem Capped.visit (v : Visit) :
    (visit q v s).1 = (visit q v t).1 ∧ (visit q v s).2.Capped (visit q v t).2 := by
  have hdemand : s.demandAt v = t.demandAt v := by rw [demandAt, demandAt, H.asked]
  rw [Walk.visit, Walk.visit, H.graph.waypoint, hdemand, H.graph.inputs]
  split
  · exact ⟨rfl, H⟩
  split
  · split
    · exact ⟨rfl, H⟩
    · rename_i needed _
      have hentering :
          Capped
            { s with
              asked := s.asked.insert v.arrival needed
              entered := s.entered.insert v.arrival.waypoint }
            { t with
              asked := t.asked.insert v.arrival needed
              entered := t.entered.insert v.arrival.waypoint } :=
        ⟨H.graph, by rw [H.asked], by rw [H.entered], H.stack⟩
      exact hentering.crossAll v.arrival needed _
  · exact ⟨rfl, H⟩

/-- The walks take the same visits in the same order. -/
theorem Capped.run {limit : Nat} (n : Nat) :
    (run q limit n s).1 = (run q limit n t).1 ∧ (run q limit n s).2.Capped (run q limit n t).2 := by
  induction n generalizing s t with
  | zero =>
      cases hs : s.stack with
      | nil =>
          rw [run_nil hs, run_nil (H.stack ▸ hs), H.entered]
          exact ⟨rfl, H.graph⟩
      | cons v rest =>
          rw [run_zero hs, run_zero (H.stack ▸ hs)]
          exact ⟨rfl, H.graph⟩
  | succ n ih =>
      cases hs : s.stack with
      | nil =>
          rw [run_nil hs, run_nil (H.stack ▸ hs), H.entered]
          exact ⟨rfl, H.graph⟩
      | cons v rest =>
          have hpopped : Capped { s with stack := rest } { t with stack := rest } :=
            ⟨H.graph, H.asked, H.entered, rfl⟩
          obtain ⟨hr, hafter⟩ := hpopped.visit (q := q) v
          rw [run_succ hs, run_succ (H.stack ▸ hs)]
          cases hv : Walk.visit q v { s with stack := rest } with
          | mk r u =>
              cases hv' : Walk.visit q v { t with stack := rest } with
              | mk r' u' =>
                  rw [hv, hv'] at hr hafter
                  obtain rfl : r = r' := hr
                  cases r with
                  | error e => exact ⟨rfl, hafter.graph⟩
                  | ok _ => exact ih hafter

end Walk

namespace PlanGraph

/-- The demand walks of any list of roots come to the same. -/
theorem respects_demandWalks (limit : Nat) (roots : List (QueryId × WaypointId)) :
    Respects Capped (demandWalks limit roots) := by
  refine Attempt.respects_mapM fun r _ => ?_
  refine Attempt.Respects.bind (a := demandWalk r.1 r.2 limit) (fun g h H => ?_)
    fun _ => Attempt.respects_pure _
  exact Walk.Capped.run (s := Walk.start g r.2) (t := Walk.start h r.2) ⟨H, rfl, rfl, rfl⟩ limit

/-! ## The whole analysis -/

variable {g h : PlanGraph} (H : g.Capped h)

include H

/-- The order of the upward pass follows successors only. -/
theorem Capped.topologicalOrder : g.topologicalOrder = h.topologicalOrder :=
  topologicalOrder_eq H.ids H.successors fun id => by rw [H.find?]

/-- The walks begin at the same roots. -/
theorem Capped.activeRoots (active : QuerySet) : g.activeRoots active = h.activeRoots active := by
  have hroot : g.rootOf = h.rootOf := by
    funext q
    rw [rootOf, rootOf, root?, root?, H.roots]
  rw [PlanGraph.activeRoots, PlanGraph.activeRoots, hroot]

/-- The report on the walks reads waypoints and roots only. -/
theorem Capped.audit (options : PlannerOptions) (walks : List (QueryId × WalkReport)) :
    g.audit options walks = h.audit options walks := by
  have hcheck : g.checkExits = h.checkExits := by
    funext q reached
    rw [checkExits, checkExits, H.waypoint]
  have hstrays : g.unreachable = h.unreachable := by
    funext q reached
    rw [unreachable, unreachable, H.waypoints]
  rw [PlanGraph.audit, PlanGraph.audit, hcheck, hstrays]

/-- The table has the edges between waypoints, which are the same. -/
theorem Capped.routing : g.routing = h.routing := by
  have hroute : g.routeEdge = h.routeEdge := by
    funext t e
    rw [routeEdge, routeEdge, H.waypoint]
  rw [PlanGraph.routing, PlanGraph.routing, H.ids, H.edges, hroute]

omit H in
/-- **An analysis does not look at edges to the top.** -/
theorem respects_analyze (active : QuerySet) (options : PlannerOptions) :
    Respects Capped (analyze active options) := by
  refine Attempt.respects_get_bind fun g h H => ⟨by rw [H.topologicalOrder], ?_⟩
  refine (Attempt.respects_ofExcept _).bind fun order => ?_
  refine Attempt.respects_get_bind fun g h H => ⟨by rw [H.activeRoots], ?_⟩
  refine (Attempt.respects_ofExcept _).bind fun roots => ?_
  have hbegin : Respects Capped (modify beginCycle : Attempt PlanGraph Unit) :=
    fun g h H => ⟨rfl, H.mapWaypoints Waypoint.id_beginCycle⟩
  refine hbegin.bind fun _ => (respects_supplyPass order active).bind fun _ => ?_
  refine (respects_demandWalks _ roots).bind fun walks => ?_
  refine Attempt.respects_get_bind fun g h H => ⟨by rw [H.audit], ?_⟩
  exact (Attempt.respects_ofExcept _).bind fun _ => Attempt.respects_pure _

end PlanGraph

/-- An analysis with its routing comes to the same on either graph. -/
theorem Planner.respects_analyzeAndRoute (active : QuerySet) (options : PlannerOptions) :
    Respects PlanGraph.Capped (analyzeAndRoute active options) := by
  refine (PlanGraph.respects_analyze active options).bind fun _ => ?_
  refine Attempt.respects_get_bind fun g h H => ⟨by rw [H.routing], ?_⟩
  exact Attempt.respects_ofExcept _

end SharedPlan
