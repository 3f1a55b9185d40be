import SharedPlan.Proofs.Analysis.Tracks
import SharedPlan.Proofs.Waypoint.Renewal

/-!
# SharedPlan.Proofs.Analysis.Recorded

What a successful analysis leaves in the graph.

For every active query the graph holds what one walk of that query from the supplied
graph would have left (`exists_run_of_analyze`); of any other query it holds no exit.
Who takes part and who carries on is as it was before, so the recorded exits are told
by the graph that was analysed (`holdsExit_of_analyze`).
-/

namespace SharedPlan

namespace PlanGraph

variable {g h : PlanGraph} {active : QuerySet} {options : PlannerOptions}
  {report : AnalysisReport}

@[simp] theorem ids_beginCycle (g : PlanGraph) : g.beginCycle.ids = g.ids :=
  ids_mapWaypoints Waypoint.id_beginCycle g

theorem find?_beginCycle (g : PlanGraph) (id : WaypointId) :
    g.beginCycle.find? id = (g.find? id).map (·.beginCycle) :=
  find?_mapWaypoints Waypoint.id_beginCycle g id

theorem wellFormed_beginCycle (hg : g.WellFormed) : g.beginCycle.WellFormed :=
  hg.mapWaypoints fun _ => .beginCycle

/-- **The pass of a cycle that begins**, along the order of the graph, succeeds exactly when
every active query is fed. -/
theorem supplyPass_beginCycle_iff (hg : g.WellFormed) {order : List WaypointId}
    (ho : g.topologicalOrder = .ok order) {k : PlanGraph} :
    (supplyPass order active).outcome g.beginCycle = (.ok (), k) ↔
      (∀ q ∈ active.toList, g.beginCycle.FedAlong active q order) ∧
        g.beginCycle.supplied active order = k := by
  refine supplyPass_eq_ok_iff (wellFormed_beginCycle hg) fun id hid => ?_
  rw [ids_beginCycle]
  exact (perm_of_topologicalOrder hg ho).mem_iff.1 hid

/-- A waypoint of the supplied graph is one of a cycle that has begun, but for what the
pass wrote. -/
theorem find?_supplied (hg : g.WellFormed) {order : List WaypointId} {n : WaypointId}
    {v : Waypoint} (hv : (g.beginCycle.supplied active order).find? n = some v) :
    ∃ w, g.find? n = some w ∧ v.unsupplied = w.beginCycle.unsupplied := by
  obtain ⟨u, hu, huv⟩ := exists_find?_of_view Waypoint.id_unsupplied
    (unsupplied_supplied (wellFormed_beginCycle hg).nodup active order) hv
  rw [find?_beginCycle] at hu
  obtain ⟨w, hw, rfl⟩ := Option.map_eq_some_iff.1 hu
  exact ⟨w, hw, huv.symm⟩

/-- Before the walks no exit is recorded. -/
theorem holdsExit_supplied (hg : g.WellFormed) {order : List WaypointId} {id : WaypointId}
    {w : Waypoint} (hw : (g.beginCycle.supplied active order).find? id = some w) (kind : EdgeKind)
    (e : QueryExit) : w.holdsExit kind e = false := by
  obtain ⟨v, -, hview⟩ := find?_supplied hg hw
  rw [← Waypoint.holdsExit_unsupplied, hview, Waypoint.holdsExit_unsupplied,
    Waypoint.holdsExit_beginCycle]

theorem enters_supplied (hg : g.WellFormed) {order : List WaypointId} {q : QueryId}
    {n y : WaypointId} :
    (g.beginCycle.supplied active order).Enters q n y ↔ g.Enters q n y := by
  rw [enters_congr_of_view Waypoint.id_unsupplied (fun w => Waypoint.covers_unsupplied w q)
    (fun w kind => Waypoint.carries_unsupplied w kind q)
    (unsupplied_supplied (wellFormed_beginCycle hg).nodup active order)]
  exact enters_mapWaypoints Waypoint.id_beginCycle (fun w => Waypoint.covers_beginCycle w q)
    fun w kind => Waypoint.carries_beginCycle w kind q

/-- The walk of an active query, from its root over the supplied graph, is tracked. -/
theorem tracks_of_runs (hg : g.WellFormed) {order : List WaypointId} {q : QueryId}
    {root : WaypointId} (hroot : g.root? q = some root) {n : Nat} {u : Walk}
    (hrun : Walk.Runs q n (Walk.start (g.beginCycle.supplied active order) root) u) :
    Walk.Tracks (g.beginCycle.supplied active order) q ⟨root, root⟩ [] u ∧ u.stack = [] := by
  have hg₁ := wellFormed_supplied (wellFormed_beginCycle hg) active order
  refine hrun.tracks hg₁.nodup (.start ?_ (fun _ _ hw _ _ => holdsExit_supplied hg hw _ _) _)
  rw [root?, roots_eq_of_view (unsupplied_supplied (wellFormed_beginCycle hg).nodup active order)]
  exact hroot

/-- What a successful analysis consists of: an order, along which every active query is
fed, and for every active query a walk from the supplied graph, which left what belongs
to the query. -/
theorem exists_run_of_analyze (hg : g.WellFormed)
    (ha : (analyze active options).outcome g = (.ok report, h)) :
    ∃ order, g.topologicalOrder = .ok order ∧
      (∀ q ∈ active.toList, g.beginCycle.FedAlong active q order) ∧
      h.mapWaypoints Waypoint.unasked =
        (g.beginCycle.supplied active order).mapWaypoints Waypoint.unasked ∧
      (∀ q ∉ active.toList, h.only q = (g.beginCycle.supplied active order).only q) ∧
      ∀ q ∈ active.toList, ∃ root n u, g.root? q = some root ∧
        Walk.Runs q n (Walk.start (g.beginCycle.supplied active order) root) u ∧
        u.graph.only q = h.only q := by
  obtain ⟨order, roots, g₁, walks, strays, ho, hr, hs, hw, -, -⟩ := analyze_eq_ok_iff.1 ha
  obtain ⟨hfed, rfl⟩ := (supplyPass_beginCycle_iff hg ho).1 hs
  obtain ⟨hmap, hroots⟩ := activeRoots_eq_ok_iff.1 hr
  have hg₁ := wellFormed_supplied (wellFormed_beginCycle hg) active order
  obtain ⟨hall, hother, hview⟩ :=
    demandWalks_forall₂ hg₁.nodup (hmap ▸ active.nodup_toList) hw
  refine ⟨order, ho, hfed, hview, fun q hq => hother q (hmap ▸ hq), fun q hq => ?_⟩
  obtain ⟨⟨_, root⟩, hp, rfl⟩ := List.mem_map.1 (hmap ▸ hq)
  obtain ⟨r, -, -, h', hrun, heq⟩ := exists_of_forall₂ hall hp
  obtain ⟨n, u, hruns, -, -, rfl⟩ := Walk.run_eq_ok_iff.1 hrun
  exact ⟨root, n, u, hroots _ hp, hruns, heq⟩

/-- In an analysis, the demand walk of an active query enters a waypoint. -/
def DemandEnters (g : PlanGraph) (active : QuerySet) (options : PlannerOptions) (q : QueryId)
    (n : WaypointId) : Prop :=
  ∃ order roots g₁ walks h r, g.topologicalOrder = .ok order ∧
    g.activeRoots active = .ok roots ∧
    (supplyPass order active).outcome g.beginCycle = (.ok (), g₁) ∧
    (demandWalks options.maxWalkSteps.toNat roots).outcome g₁ = (.ok walks, h) ∧
    (q, r) ∈ walks ∧ n ∈ r.entered

/-- A demand walk goes where streams of its query pass. -/
theorem DemandEnters.enters (hg : g.WellFormed) {q : QueryId} {n : WaypointId}
    (hn : g.DemandEnters active options q n) :
    q ∈ active.toList ∧ (∃ root, g.root? q = some root) ∧ ∃ y, g.Enters q n y := by
  obtain ⟨order, roots, g₁, walks, h, r, ho, hr, hs, hw, hmem, hn⟩ := hn
  obtain ⟨-, rfl⟩ := (supplyPass_beginCycle_iff hg ho).1 hs
  obtain ⟨hmap, hroots⟩ := activeRoots_eq_ok_iff.1 hr
  have hg₁ := wellFormed_supplied (wellFormed_beginCycle hg) active order
  obtain ⟨hall, -, -⟩ := demandWalks_forall₂ hg₁.nodup (hmap ▸ active.nodup_toList) hw
  obtain ⟨⟨_, root⟩, hp, rfl, h', hrun, -⟩ := exists_of_forall₂ hall.flip hmem
  obtain ⟨k, u, hruns, -, rfl, -⟩ := Walk.run_eq_ok_iff.1 hrun
  have hroot := hroots _ hp
  obtain ⟨htracks, hstack⟩ := tracks_of_runs hg hroot hruns
  refine ⟨hmap ▸ List.mem_map_of_mem hp, ⟨root, hroot⟩, ?_⟩
  obtain ⟨y, hy⟩ := (htracks.entered_iff hstack).1 hn
  exact ⟨y, (enters_supplied hg).1 hy⟩

/-- **An analysis registers nothing**: a later cycle begins as if there had been none. -/
theorem beginCycle_of_analyze (hg : g.WellFormed)
    (ha : (analyze active options).outcome g = (.ok report, h)) :
    h.beginCycle = g.beginCycle := by
  obtain ⟨order, -, -, hasked, -, -⟩ := exists_run_of_analyze hg ha
  have hsupplied := unsupplied_supplied (wellFormed_beginCycle hg).nodup active order
  have ofUnasked (k : PlanGraph) : (k.mapWaypoints Waypoint.unasked).beginCycle = k.beginCycle := by
    rw [beginCycle, mapWaypoints_mapWaypoints]
    exact mapWaypoints_congr fun w _ => w.beginCycle_unasked
  have ofUnsupplied (k : PlanGraph) :
      (k.mapWaypoints Waypoint.unsupplied).beginCycle = k.beginCycle := by
    rw [beginCycle, mapWaypoints_mapWaypoints]
    exact mapWaypoints_congr fun w _ => w.beginCycle_unsupplied
  rw [← ofUnasked h, hasked, ofUnasked, ← ofUnsupplied, hsupplied, ofUnsupplied, beginCycle,
    beginCycle, mapWaypoints_mapWaypoints]
  exact mapWaypoints_congr fun w _ => w.beginCycle_beginCycle

theorem wellFormed_of_analyze (hg : g.WellFormed)
    (ha : (analyze active options).outcome g = (.ok report, h)) : h.WellFormed := by
  obtain ⟨order, -, -, hasked, -, -⟩ := exists_run_of_analyze hg ha
  exact (wellFormed_supplied (wellFormed_beginCycle hg) active order).of_view Waypoint.id_unasked
    Waypoint.kind_unasked (fun _ => Waypoint.sound_unasked) hasked.symm

/-- A waypoint after an analysis is a waypoint before it, with the same registrations. -/
theorem find?_of_analyze (hg : g.WellFormed)
    (ha : (analyze active options).outcome g = (.ok report, h)) {n : WaypointId} {v : Waypoint}
    (hv : h.find? n = some v) : ∃ w, g.find? n = some w ∧ w.beginCycle = v.beginCycle :=
  exists_find?_of_view Waypoint.id_beginCycle (beginCycle_of_analyze hg ha) hv

/-- **What a successful analysis records.**  At a waypoint with an input edge of a kind,
these are, for the active queries, the exits of the streams that it carries on over
such edges. -/
theorem holdsExit_of_analyze (hg : g.WellFormed)
    (ha : (analyze active options).outcome g = (.ok report, h)) {q : QueryId} {x : WaypointId}
    {v : Waypoint} {e : Edge} (hv : h.find? e.receiver = some v) (he : e ∈ g.links) :
    v.holdsExit e.kind ⟨q, x⟩ = true ↔
      q ∈ active.toList ∧ v.carries e.kind q = true ∧
        ∃ y, g.Enters q e.receiver y ∧ x = Walk.exitOver ⟨e.receiver, y⟩ e.kind := by
  obtain ⟨order, -, -, hasked, hother, hruns⟩ := exists_run_of_analyze hg ha
  have hsupplied := unsupplied_supplied (wellFormed_beginCycle hg).nodup active order
  by_cases hq : q ∈ active.toList
  · obtain ⟨root, n, u, hroot, hrun, heq⟩ := hruns q hq
    obtain ⟨htracks, hstack⟩ := tracks_of_runs hg hroot hrun
    obtain ⟨v', hv', hview⟩ := find?_of_only_eq heq.symm hv
    have hinputs : e ∈ (g.beginCycle.supplied active order).inputs e.receiver := by
      refine mem_inputs.2 ⟨?_, ?_, rfl⟩
      · rw [← ids_eq_of_view Waypoint.id_unasked hasked]
        exact mem_ids_iff.2 ⟨v, hv⟩
      · rw [links_eq_of_view hsupplied]
        exact he
    rw [← Waypoint.holdsExit_only, ← hview, Waypoint.holdsExit_only,
      htracks.holdsExit_iff hstack hv' hinputs, ← Waypoint.carries_only, hview,
      Waypoint.carries_only]
    simp only [hq, true_and, enters_supplied hg]
  · obtain ⟨w, hw, hview⟩ := find?_of_only_eq (hother q hq) hv
    rw [← Waypoint.holdsExit_only, ← hview, Waypoint.holdsExit_only, holdsExit_supplied hg hw]
    simp [hq]

end PlanGraph

end SharedPlan
