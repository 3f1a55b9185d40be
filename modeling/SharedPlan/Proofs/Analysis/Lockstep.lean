import SharedPlan.Proofs.Analysis.Walked

/-!
# SharedPlan.Proofs.Analysis.Lockstep

Two demand walks of one query side by side.

Graphs are `PlanGraph.Related` when they have the same shape and their waypoints stand
in some relation.  Where related waypoints answer the demands of a walk alike
(`Walk.Alike`), the walk on the one graph is followed step by step on the other
(`Walk.Runs.follow`): the same visits, the same demands and the same waypoints entered.
-/

namespace SharedPlan

namespace PlanGraph

/-- Graphs of one shape whose waypoints are related pairwise. -/
structure Related (R : Waypoint → Waypoint → Prop) (g h : PlanGraph) : Prop where
  ids : g.ids = h.ids
  links : g.links = h.links
  roots : g.roots = h.roots
  find? : ∀ {id w}, g.find? id = some w → ∃ v, h.find? id = some v ∧ R w v

theorem Related.inputs {R : Waypoint → Waypoint → Prop} {g h : PlanGraph} (H : Related R g h) :
    g.inputs = h.inputs :=
  inputs_congr H.ids H.links

/-- Related waypoints may be replaced by related ones. -/
theorem Related.replace {R : Waypoint → Waypoint → Prop} {g h : PlanGraph} (H : Related R g h)
    {w v : Waypoint} (hid : w.id = v.id) (hr : R w v) :
    Related R (g.replace w) (h.replace v) := by
  refine ⟨by simpa using H.ids, H.links, H.roots, ?_⟩
  intro id u hu
  rw [find?_replace] at hu ⊢
  by_cases h : id = w.id
  · rw [if_pos h] at hu
    obtain ⟨u', hu', rfl⟩ := Option.map_eq_some_iff.1 hu
    obtain ⟨v', hv', -⟩ := H.find? hu'
    exact ⟨v, by rw [if_pos (h.trans hid), hv']; rfl, hr⟩
  · rw [if_neg h] at hu
    rw [if_neg (hid ▸ h)]
    exact H.find? hu

end PlanGraph

namespace Walk

variable {q : QueryId}

/-! ## Demands only grow -/

/-- **What is asked altogether**: what the visit asks for, where nothing was asked before, else
that and what was asked, if the visit asks for more. -/
theorem eq_of_demandAt {s : Walk} {v : Visit} {needed : SlotSet} (h : s.demandAt v = some needed) :
    s.asked.get? v.arrival = none ∧ needed = v.needed ∨
      ∃ seen, s.asked.get? v.arrival = some seen ∧ ¬v.needed ⊆ seen ∧
        needed = seen ∪ v.needed := by
  unfold demandAt at h
  split at h
  · rename_i hnone
    exact .inl ⟨hnone, (Option.some.inj h).symm⟩
  · rename_i seen hseen
    split at h
    · cases h
    · rename_i hnew
      exact .inr ⟨seen, hseen, hnew, (Option.some.inj h).symm⟩

theorem subset_demandAt {s : Walk} {v : Visit} {needed : SlotSet}
    (h : s.demandAt v = some needed) : v.needed ⊆ needed := by
  obtain ⟨-, rfl⟩ | ⟨seen, -, -, rfl⟩ := eq_of_demandAt h
  · exact fun a ha => ha
  · exact fun a ha => OrdSet.mem_union.2 (.inr ha)

/-- Where nothing new is asked, it has been asked before. -/
theorem exists_asked_of_demandAt {s : Walk} {v : Visit} (h : s.demandAt v = none) :
    ∃ seen, s.asked.get? v.arrival = some seen ∧ v.needed ⊆ seen := by
  unfold demandAt at h
  split at h
  · cases h
  · rename_i seen hseen
    split at h
    · rename_i hsub
      exact ⟨seen, hseen, hsub⟩
    · cases h

theorem asked_subset_demandAt {s : Walk} {v : Visit} {needed S : SlotSet}
    (h : s.demandAt v = some needed) (hs : s.asked.get? v.arrival = some S) : S ⊆ needed := by
  obtain ⟨hnone, -⟩ | ⟨seen, hseen, -, rfl⟩ := eq_of_demandAt h
  · rw [hnone] at hs
    cases hs
  · obtain rfl := Option.some.inj (hs.symm.trans hseen)
    exact fun a ha => OrdSet.mem_union.2 (.inl ha)

theorem crossAll_asked {a : Arrival} {needed : SlotSet} {l : List Edge} {s t : Walk}
    (h : crossAll q a needed l s = (.ok (), t)) : t.asked = s.asked :=
  crossAll_induction (P := fun _ u => u.asked = s.asked) (fun h _ _ => h) h rfl

theorem visit_asked {v : Visit} {s t : Walk} (h : visit q v s = (.ok (), t)) {a : Arrival}
    {S : SlotSet} (hs : s.asked.get? a = some S) :
    ∃ T, t.asked.get? a = some T ∧ S ⊆ T := by
  obtain ⟨w, -, ⟨-, rfl⟩ | ⟨-, needed, hd, hc⟩⟩ := visit_eq_ok_iff.1 h
  · exact ⟨S, hs, fun _ h => h⟩
  · rw [crossAll_asked hc, entering, OrdMap.get?_insert]
    by_cases ha : a = v.arrival
    · subst ha
      exact ⟨needed, if_pos rfl, asked_subset_demandAt hd hs⟩
    · exact ⟨S, by rw [if_neg ha, hs], fun _ h => h⟩

/-- What has been asked at an arrival stays asked. -/
theorem Runs.asked {n : Nat} {s u : Walk} (h : Runs q n s u) {a : Arrival} {S : SlotSet}
    (hs : s.asked.get? a = some S) : ∃ T, u.asked.get? a = some T ∧ S ⊆ T := by
  induction h generalizing S with
  | done _ => exact ⟨S, hs, fun _ h => h⟩
  | step _ hv _ ih =>
      obtain ⟨T, hT, hST⟩ := visit_asked hv hs
      obtain ⟨U, hU, hTU⟩ := ih hT
      exact ⟨U, hU, fun x hx => hTU x (hST x hx)⟩

/-! ## Following a walk -/

/-- Related waypoints answer alike, as far as the demands are allowed at their ids. -/
structure Alike (q : QueryId) (Allowed : WaypointId → SlotSet → Prop)
    (R : Waypoint → Waypoint → Prop) : Prop where
  covers : ∀ {w v}, R w v → v.covers q = w.covers q
  holdsExit : ∀ {w v}, R w v → ∀ kind x, v.holdsExit kind ⟨q, x⟩ = w.holdsExit kind ⟨q, x⟩
  grants : ∀ {w v kind needed}, R w v → Allowed w.id needed → w.Grants kind q needed →
    v.Grants kind q needed
  below : ∀ {w v kind needed}, R w v → Allowed w.id needed → w.Grants kind q needed →
    v.below kind q needed = w.below kind q needed
  answered : ∀ {w v kind needed x}, R w v → Allowed w.id needed → w.Grants kind q needed →
    R (w.answered kind q needed ⟨q, x⟩) (v.answered kind q needed ⟨q, x⟩)

/-- Walks that have come equally far on related graphs. -/
structure Beside (R : Waypoint → Waypoint → Prop) (s t : Walk) : Prop where
  graph : PlanGraph.Related R s.graph t.graph
  asked : s.asked = t.asked
  entered : s.entered = t.entered
  stack : s.stack = t.stack

variable {Allowed : WaypointId → SlotSet → Prop} {R : Waypoint → Waypoint → Prop}

theorem Beside.crossed (hR : Alike q Allowed R) {s t : Walk} (H : Beside R s t) {a : Arrival}
    {needed : SlotSet} {e : Edge} {w v : Waypoint} (hw : s.graph.find? a.waypoint = some w)
    (hv : t.graph.find? a.waypoint = some v) (hwv : R w v) (ha : Allowed a.waypoint needed)
    (hg : w.Grants e.kind q needed) :
    Beside R (s.crossed q a needed e w) (t.crossed q a needed e v) := by
  rw [← PlanGraph.id_of_find? hw] at ha
  have hanswered := hR.answered (x := exitOver a e.kind) hwv ha hg
  refine ⟨H.graph.replace ?_ hanswered, H.asked, H.entered, ?_⟩
  · rw [Waypoint.id_answered, Waypoint.id_answered, PlanGraph.id_of_find? hw,
      PlanGraph.id_of_find? hv]
  · simp only [Walk.crossed, hR.holdsExit hanswered, hR.below hwv ha hg, H.stack]

theorem Beside.crossAll (hR : Alike q Allowed R) {a : Arrival} {needed : SlotSet}
    (ha : Allowed a.waypoint needed) {l : List Edge} {s t s' : Walk} (H : Beside R s t)
    (h : crossAll q a needed l s = (.ok (), s')) :
    ∃ t', Walk.crossAll q a needed l t = (.ok (), t') ∧ Beside R s' t' := by
  induction l generalizing s t with
  | nil => exact ⟨t, rfl, (Prod.mk.inj h).2 ▸ H⟩
  | cons e rest ih =>
      rw [Walk.crossAll] at h
      cases hc : cross q a needed e s with
      | error e => simp [hc] at h
      | ok u =>
          rw [hc] at h
          obtain ⟨w, hw, hg, rfl⟩ := cross_eq_ok_iff.1 hc
          obtain ⟨v, hv, hwv⟩ := H.graph.find? hw
          have hid := PlanGraph.id_of_find? hw
          have hcross : cross q a needed e t = .ok (t.crossed q a needed e v) :=
            cross_eq_ok_iff.2 ⟨v, hv, hR.grants hwv (hid ▸ ha) hg, rfl⟩
          rw [Walk.crossAll, hcross]
          exact ih (H.crossed hR hw hv hwv ha hg) h

theorem Beside.visit (hR : Alike q Allowed R) {v : Visit} {s t s' : Walk} (H : Beside R s t)
    (h : visit q v s = (.ok (), s'))
    (ha : ∀ S, s'.asked.get? v.arrival = some S → Allowed v.arrival.waypoint S) :
    ∃ t', Walk.visit q v t = (.ok (), t') ∧ Beside R s' t' := by
  obtain ⟨w, hw, hcase⟩ := visit_eq_ok_iff.1 h
  obtain ⟨u, hu, hwu⟩ := H.graph.find? hw
  have hdemand : t.demandAt v = s.demandAt v := by
    simp only [demandAt, H.asked]
  rcases hcase with ⟨hstay, rfl⟩ | ⟨hc, needed, hd, hcross⟩
  · refine ⟨t, visit_eq_ok_iff.2 ⟨u, hu, .inl ⟨?_, rfl⟩⟩, H⟩
    rwa [hR.covers hwu, hdemand]
  · have hentering : Beside R (s.entering v.arrival needed) (t.entering v.arrival needed) := by
      refine ⟨H.graph, ?_, ?_, H.stack⟩
      · simp only [entering, H.asked]
      · simp only [entering, H.entered]
    have hneeded : Allowed v.arrival.waypoint needed := by
      refine ha needed ?_
      rw [crossAll_asked hcross, entering]
      exact OrdMap.get?_insert_self ..
    obtain ⟨t', ht', H'⟩ := hentering.crossAll hR hneeded hcross
    refine ⟨t', visit_eq_ok_iff.2 ⟨u, hu, .inr ⟨?_, needed, ?_, ?_⟩⟩, H'⟩
    · rwa [hR.covers hwu]
    · rwa [hdemand]
    · rwa [← H.graph.inputs]

/-- **A walk is followed** on a related graph, as long as its demands are allowed. -/
theorem Runs.follow (hR : Alike q Allowed R)
    (hdown : ∀ {id S T}, S ⊆ T → Allowed id T → Allowed id S)
    {n : Nat} {s t u : Walk} (h : Runs q n s u) (H : Beside R s t)
    (ha : ∀ a S, u.asked.get? a = some S → Allowed a.waypoint S) :
    ∃ u', Runs q n t u' ∧ Beside R u u' := by
  induction h generalizing t with
  | done hs => exact ⟨t, .done (H.stack ▸ hs), H⟩
  | @step n s s' u v rest hs hv hrest ih =>
      have hpop : Beside R { s with stack := rest } { t with stack := rest } :=
        ⟨H.graph, H.asked, H.entered, rfl⟩
      have hallowed : ∀ S, s'.asked.get? v.arrival = some S → Allowed v.arrival.waypoint S := by
        intro S hS
        obtain ⟨T, hT, hST⟩ := hrest.asked hS
        exact hdown hST (ha _ T hT)
      obtain ⟨t', ht', H'⟩ := hpop.visit hR hv hallowed
      obtain ⟨u', hu', Hu⟩ := ih H' ha
      exact ⟨u', .step (H.stack ▸ hs) ht' hu', Hu⟩

/-! ## Graphs that agree on the query -/

/-- Waypoints that agree on a query answer it alike. -/
theorem alike_only (q : QueryId) :
    Alike q (fun _ _ => True) fun w v => w.only q = v.only q where
  covers h := by rw [← Waypoint.covers_only, ← h, Waypoint.covers_only]
  holdsExit h kind x := by rw [← Waypoint.holdsExit_only, ← h, Waypoint.holdsExit_only]
  grants h _ hg := by rwa [← Waypoint.grants_only, ← h, Waypoint.grants_only]
  below h _ _ := by rw [← Waypoint.below_only, ← h, Waypoint.below_only]
  answered h _ _ := by rw [Waypoint.only_answered, Waypoint.only_answered, h]

end Walk

namespace PlanGraph

variable {q : QueryId}

theorem related_of_only {g h : PlanGraph} (hgh : g.only q = h.only q) :
    Related (fun w v => w.only q = v.only q) g h where
  ids := ids_eq_of_only hgh
  links := links_eq_of_only hgh
  roots := roots_eq_of_view hgh
  find? hw := by
    obtain ⟨v, hv, hvw⟩ := find?_of_only_eq hgh hw
    exact ⟨v, hv, hvw.symm⟩

theorem Related.view_eq {f : Waypoint → Waypoint} {g h : PlanGraph}
    (H : Related (fun w v => f w = f v) g h) (hg : g.ids.Nodup) :
    g.mapWaypoints f = h.mapWaypoints f := by
  have hwaypoints {g : PlanGraph} (hg : g.ids.Nodup) :
      (g.waypoints.map f).map some = g.ids.map fun id => (g.find? id).map f := by
    simp only [PlanGraph.ids, List.map_map]
    refine List.map_congr_left fun w hw => ?_
    simp only [Function.comp_apply, find?_of_mem hg hw, Option.map_some]
  have hfind : ∀ id ∈ g.ids, (g.find? id).map f = (h.find? id).map f := by
    intro id hid
    obtain ⟨w, hw⟩ := mem_ids_iff.1 hid
    obtain ⟨v, hv, hwv⟩ := H.find? hw
    rw [hw, hv, Option.map_some, Option.map_some, hwv]
  have key : g.waypoints.map f = h.waypoints.map f := by
    have := (hwaypoints hg).trans
      ((List.map_congr_left hfind).trans (H.ids ▸ (hwaypoints (H.ids ▸ hg)).symm))
    exact List.map_injective_iff.2 (fun _ _ => Option.some.inj) this
  simp only [mapWaypoints, key, H.links, H.roots]

/-- **The demand walk of a query depends on what belongs to the query**: from graphs
that agree on it, it succeeds with the same report, and the graphs agree afterwards. -/
theorem demandWalk_congr {g h g' : PlanGraph} (hg : g.ids.Nodup) (hgh : g.only q = h.only q)
    {root : WaypointId} {limit : Nat} {r : WalkReport}
    (hr : (demandWalk q root limit).outcome g = (.ok r, g')) :
    ∃ h', (demandWalk q root limit).outcome h = (.ok r, h') ∧ g'.only q = h'.only q := by
  obtain ⟨n, u, hrun, hn, rfl, rfl⟩ := Walk.run_eq_ok_iff.1 hr
  have hbeside : Walk.Beside (fun w v => w.only q = v.only q) (Walk.start g root)
      (Walk.start h root) :=
    ⟨related_of_only hgh, rfl, rfl, rfl⟩
  obtain ⟨u', hrun', hu⟩ := hrun.follow (Walk.alike_only q) (fun _ _ => trivial) hbeside
    fun _ _ _ => trivial
  refine ⟨u'.graph, Walk.run_eq_ok_iff.2 ⟨n, u', hrun', hn, by rw [hu.entered], rfl⟩, ?_⟩
  refine hu.graph.view_eq ?_
  have := ids_eq_of_view Waypoint.id_unasked (hrun.unasked_eq hg)
  exact this ▸ hg

end PlanGraph

end SharedPlan
