import SharedPlan.Proofs.Analysis.Settled
import SharedPlan.Proofs.Analysis.Turn

/-!
# SharedPlan.Proofs.Analysis.Demanded

What was demanded of a waypoint, and what it emits.

In an analysis whose exits are verified, every waypoint that a demand walk entered has
compared what was demanded of it with what it emits, with two exceptions: sinks compare
nothing, and a scanner compares nothing for a query that does not read it.  Neither emits
anything.  So the demands on a waypoint are among what it emits exactly where it emits to
those above it, or where nothing was demanded (`PlanGraph.demand_produced_iff`).
-/

namespace SharedPlan

namespace Waypoint

variable {w : Waypoint} {q : QueryId} {kind : EdgeKind}

/-- A waypoint that emits to those above it compares demands over every kind of edge over
which it carries the query on; a scanner does so over the edges that make it a source. -/
theorem guards_of_carries (hp : w.passesOn = true) (hs : w.supplies q = true)
    (hc : w.carries kind q = true) :
    w.guards kind q = true ∨ w.kind.isSource = true ∧ w.guards .flowThrough q = true := by
  cases hr : w.role with
  | scanner _ _ _ =>
      refine .inr ⟨by simp [Waypoint.kind, hr, Role.kind, WaypointKind.isSource], ?_⟩
      simpa only [supplies, guards, hr] using hs
  | textLoader _ _ | ingest _ _ =>
      refine .inl ?_
      simpa only [supplies, covers, guards, hr] using hs
  | join _ _ _ =>
      refine .inl ?_
      cases kind with
      | flowThrough => simp only [guards, hr]
      | terminating => simpa only [carries, guards, hr] using hc
  | print _ | cluster _ _ =>
      simp [passesOn, Waypoint.kind, hr, Role.kind, WaypointKind.isSink] at hp
  | _ => exact .inl (by simp only [guards, hr])

@[simp] theorem supplies_unasked (w : Waypoint) (q : QueryId) :
    w.unasked.supplies q = w.supplies q := by
  cases hr : w.role <;> simp [supplies, hr, Role.unasked, ScannerShare.unasked]

@[simp] theorem passesOn_unasked (w : Waypoint) : w.unasked.passesOn = w.passesOn := by
  simp [passesOn]

end Waypoint

namespace Walk

variable {q : QueryId}

/-- The next visit asks attributes of a waypoint that takes part, by itself or together with
what was asked there before. -/
def Asks (q : QueryId) (s : Walk) (n : WaypointId) (S : SlotSet) : Prop :=
  ∃ v rest w, s.stack = v :: rest ∧ v.arrival.waypoint = n ∧ s.graph.find? n = some w ∧
    w.covers q = true ∧ (S = v.needed ∨ s.demandAt v = some S)

/-- What is asked on the way is part of what has been asked in the end. -/
theorem Asks.asked {s u : Walk} {n : WaypointId} {S : SlotSet} {m : Nat} (h : Asks q s n S)
    (hrun : Runs q m s u) : ∃ y T, u.asked.get? ⟨n, y⟩ = some T ∧ S ⊆ T := by
  obtain ⟨v, rest, w, hs, rfl, hw, hc, hS⟩ := h
  cases hrun with
  | done hempty =>
      rw [hs] at hempty
      cases hempty
  | @step _ _ t _ _ _ hs' hv hrest =>
      obtain ⟨rfl, rfl⟩ := List.cons.inj (hs.symm.trans hs')
      have hvisited : ∃ T, t.asked.get? v.arrival = some T ∧ S ⊆ T := by
        obtain ⟨w', hw', ⟨hstay, rfl⟩ | ⟨-, needed, hd, hcross⟩⟩ := visit_eq_ok_iff.1 hv
        · obtain rfl := Option.some.inj (hw.symm.trans hw')
          have hnone : s.demandAt v = none := hstay.resolve_left (by simp [hc])
          rcases hS with rfl | hS
          · exact exists_asked_of_demandAt hnone
          · rw [hnone] at hS
            cases hS
        · refine ⟨needed, ?_, ?_⟩
          · rw [crossAll_asked hcross]
            exact OrdMap.get?_insert_self ..
          · rcases hS with rfl | hS
            · exact subset_demandAt hd
            · obtain rfl := Option.some.inj (hS.symm.trans hd)
              exact fun _ h => h
      obtain ⟨T, hT, hST⟩ := hvisited
      obtain ⟨U, hU, hTU⟩ := hrest.asked hT
      exact ⟨v.arrival.exit, U, hU, fun x hx => hTU x (hST x hx)⟩

end Walk

namespace PlanGraph

variable {g h : PlanGraph} {active : QuerySet} {options : PlannerOptions} {q : QueryId}
  {n : WaypointId} {S : SlotSet}

/-- In an analysis, the demand walk of a query asks attributes of a waypoint. -/
def DemandAsked (g : PlanGraph) (active : QuerySet) (options : PlannerOptions) (q : QueryId)
    (n : WaypointId) (S : SlotSet) : Prop :=
  ∃ root k s, g.Turn active options q root k ∧ Walk.Goes q (Walk.start k root) s ∧ s.Asks q n S

/-- A finished walk has, at every waypoint with an exit that emits to those above it,
compared what was asked there with what is emitted. -/
theorem subset_produced_of_tracks {k : PlanGraph} (hk : k.WellFormed) {a : Arrival} {u : Walk}
    {P : Arrival → SlotSet → Prop} (htracks : Walk.Tracks k q a [] u)
    (hwithin : Walk.Within k q P u) {y : WaypointId} (hS : u.asked.get? ⟨n, y⟩ = some S)
    {v : Waypoint} (hv : u.graph.find? n = some v) (hexit : (v.flow q).hasExit = true)
    (hp : v.passesOn = true) (hs : v.supplies q = true) : S ⊆ (v.flow q).produced := by
  obtain ⟨kind, x, hx⟩ := Waypoint.hasExit_iff.1 hexit
  obtain ⟨hcarries, e, he, rfl⟩ := hwithin.exits hv hx
  obtain ⟨w, hw, hview⟩ := htracks.find? hv
  have hgranted {e : Edge} (he : e ∈ k.inputs n) (hguards : v.guards e.kind q = true) :
      S ⊆ (v.flow q).produced := by
    have hgrants := (htracks.passes hS he hw).grants
    rw [Waypoint.grants_iff_of_unasked hview] at hgrants
    exact hgrants hguards
  rcases Waypoint.guards_of_carries hp hs hcarries with hguards | ⟨hsource, hguards⟩
  · exact hgranted he hguards
  · -- over the edge from the bottom sentinel
    have hlink := hk.sourced w (mem_of_find? hw)
      (by rw [← Waypoint.kind_unasked, hview, Waypoint.kind_unasked, hsource])
    rw [id_of_find? hw] at hlink
    exact hgranted (mem_inputs.2 ⟨mem_ids_iff.2 ⟨w, hw⟩, hlink, rfl⟩) hguards

/-- A waypoint emits nothing for a query unless it emits to those above it. -/
theorem produced_supplied_eq_empty (hg : g.WellFormed) {order : List WaypointId}
    (ho : g.topologicalOrder = .ok order) {v : Waypoint}
    (hv : (g.beginCycle.supplied active order).find? n = some v)
    (h : ¬(v.passesOn = true ∧ v.supplies q = true)) : (v.flow q).produced = ∅ := by
  rw [(settled_supplied hg ho active q).produced hv]
  split
  · rename_i hemits
    refine Waypoint.yield_eq_empty (Bool.eq_false_iff.2 fun hp => h ⟨hp, hemits.2.2⟩)
  · rfl

/-- **What was demanded of a waypoint is among what it emits exactly where it emits to
those above it**, or where nothing was demanded: in an analysis that verified the exits,
for every query and every waypoint that its walk asked. -/
theorem demand_produced_iff (hg : g.Reachable) (hverify : options.verifyExits = true)
    {report : AnalysisReport} (ha : (analyze active options).outcome g = (.ok report, h))
    (hasked : g.DemandAsked active options q n S) :
    ∃ v, h.find? n = some v ∧
      (S ⊆ (v.flow q).produced ↔ (v.passesOn = true ∧ v.supplies q = true) ∨ S = ∅) := by
  obtain ⟨root, k, s, hturn, hgoes, hs⟩ := hasked
  obtain ⟨order, ho, -, -, hview, honly⟩ := hturn.supplied hg.wellFormed
  have hk := hturn.wellFormed hg.wellFormed
  obtain ⟨r, k', hwalk, hh, -, haudit⟩ := hturn.walked hg.wellFormed ha
  obtain ⟨m, u, hrun, -, rfl, rfl⟩ := Walk.run_eq_ok_iff.1 hwalk
  obtain ⟨htracks, -⟩ := hrun.tracks hk.nodup (.start (hturn.root? hg.wellFormed)
    (fun _ _ hw _ _ => holdsExit_of_only hg.wellFormed honly hw) ⟨root, root⟩)
  have hwithin : Walk.Within k q (fun _ _ => True) u :=
    (Walk.Within.start rfl (holdsExit_of_only hg.wellFormed honly) trivial).goes hk.nodup
      ⟨fun _ _ => trivial, fun _ _ _ _ _ _ _ => trivial⟩ hrun.goes
  -- the waypoint was entered, and so the audit found an exit there
  obtain ⟨m', hrun'⟩ := hrun.of_goes hgoes
  obtain ⟨y, T, hT, hST⟩ := hs.asked hrun'
  have hentered : n ∈ u.entered := (htracks.entered n).2 ⟨y, T, hT⟩
  obtain ⟨w, hw, hexit⟩ := checkExits_eq_ok_iff.1 (haudit hverify) n hentered
  obtain ⟨v, hv, hvw⟩ := find?_of_only_eq hh.symm hw
  refine ⟨v, hv, ?_⟩
  rw [Waypoint.flow_eq_of_only hvw, ← Waypoint.passesOn_only v q, ← Waypoint.supplies_only v q,
    hvw, Waypoint.passesOn_only, Waypoint.supplies_only]
  constructor
  · intro hsub
    by_cases hemits : w.passesOn = true ∧ w.supplies q = true
    · exact .inl hemits
    · obtain ⟨w₁, hw₁, hview₁⟩ := exists_find?_of_view Waypoint.id_unasked
        (htracks.graph.trans hview) hw
      rw [← Waypoint.passesOn_unasked, ← Waypoint.supplies_unasked, ← hview₁,
        Waypoint.passesOn_unasked, Waypoint.supplies_unasked] at hemits
      have hempty := produced_supplied_eq_empty hg.wellFormed ho hw₁ hemits
      have hsame := Waypoint.produced_eq_of_unasked hview₁ q
      refine .inr (OrdSet.ext fun x => iff_of_false (fun hx => ?_) (OrdSet.not_mem_empty x))
      exact OrdSet.not_mem_empty x (hempty ▸ hsame ▸ hsub x hx)
  · rintro (⟨hp, hsupplies⟩ | rfl)
    · exact fun x hx => subset_produced_of_tracks hk htracks hwithin hT hw hexit hp hsupplies x
        (hST x hx)
    · exact OrdSet.empty_subset _

/-! ## A print in the middle of a line -/

/-- The line with a second print, which the scan feeds and which feeds the selection. -/
def tapped : PlanGraph where
  waypoints := line.waypoints ++ [.fresh ⟨5⟩ "tap" (.print ∅)]
  links := line.links ++
    [⟨⟨5⟩, .top, .terminating⟩, ⟨⟨2⟩, ⟨5⟩, .flowThrough⟩, ⟨⟨5⟩, ⟨3⟩, .flowThrough⟩]
  roots := ∅

theorem tapped_reachable : tapped.Reachable := by
  have tap : Waypoint.Made (.fresh ⟨5⟩ "tap" (.print ∅)) := .fresh _ _ rfl
  have h : Reachable ⟨tapped.waypoints, tapped.links.take 5, ∅⟩ :=
    .addWaypoint line_reachable tap rfl
  have e₁ : addEdge ⟨tapped.waypoints, tapped.links.take 5, ∅⟩ ⟨2⟩ ⟨5⟩ .flowThrough =
      .ok ⟨tapped.waypoints, tapped.links.take 6, ∅⟩ := rfl
  have e₂ : addEdge ⟨tapped.waypoints, tapped.links.take 6, ∅⟩ ⟨5⟩ ⟨3⟩ .flowThrough =
      .ok tapped := rfl
  exact .addEdge (.addEdge h e₁) e₂

/-- A query that filters on the column and prints it at both ends. -/
def tappedTwice : PlanGraph :=
  (tapped.along ⟨0⟩ (.filter (.singleton ⟨0⟩))).enrolAt ⟨5⟩ ⟨0⟩ (.print (.singleton ⟨0⟩) none)

theorem tappedTwice_reachable : tappedTwice.Reachable := (tapped_reachable.along _ _).enrolAt ..

/-- The analysis of the query succeeds, and the second print emits nothing. -/
theorem analyze_tappedTwice : ∃ report h v,
    (analyze (.singleton ⟨0⟩) ⟨64, true, true, 10⟩).outcome tappedTwice = (.ok report, h) ∧
      h.find? ⟨5⟩ = some v ∧ (v.flow ⟨0⟩).produced = ∅ := by
  obtain ⟨r, hr⟩ : ∃ r, r = (analyze (.singleton ⟨0⟩) ⟨64, true, true, 10⟩).outcome tappedTwice :=
    ⟨_, rfl⟩
  have ha : r.1 = .ok ⟨[⟨2⟩, ⟨5⟩, ⟨3⟩, ⟨4⟩], (∅ : OrdMap QueryId Nat).insert ⟨0⟩ 5, []⟩ := by
    rw [hr]
    decide +kernel
  have hproduced : (r.2.find? ⟨5⟩).map (fun v => (v.flow ⟨0⟩).produced) = some ∅ := by
    rw [hr]
    decide +kernel
  obtain ⟨v, hv, hempty⟩ := Option.map_eq_some_iff.1 hproduced
  rw [← hr]
  exact ⟨_, r.2, v, Attempt.eq_of_ok ha, hv, hempty⟩

/-- Its walk asks the second print for the column. -/
theorem demandAsked_tappedTwice :
    tappedTwice.DemandAsked (.singleton ⟨0⟩) ⟨64, true, true, 10⟩ ⟨0⟩ ⟨5⟩ (.singleton ⟨0⟩) := by
  obtain ⟨g, hg⟩ : ∃ g, g = tappedTwice := ⟨_, rfl⟩
  obtain ⟨k, hk⟩ : ∃ k, k = ((supplyPass [⟨2⟩, ⟨5⟩, ⟨3⟩, ⟨4⟩] (.singleton ⟨0⟩)).outcome
    g.beginCycle).2 := ⟨_, rfl⟩
  have ho : g.topologicalOrder = .ok [⟨2⟩, ⟨5⟩, ⟨3⟩, ⟨4⟩] := by
    rw [hg]
    decide +kernel
  have hr : g.activeRoots (.singleton ⟨0⟩) = .ok [(⟨0⟩, ⟨4⟩)] := by
    rw [hg]
    decide +kernel
  have hs : ((supplyPass [⟨2⟩, ⟨5⟩, ⟨3⟩, ⟨4⟩] (.singleton ⟨0⟩)).outcome g.beginCycle).1 =
      .ok () := by
    rw [hg]
    decide +kernel
  have hturn : g.Turn (.singleton ⟨0⟩) ⟨64, true, true, 10⟩ ⟨0⟩ ⟨4⟩ k :=
    ⟨_, [], [], k, [], ho, hr, Prod.ext hs hk.symm, rfl⟩
  -- the root is visited first, then the selection
  obtain ⟨s₁, hs₁⟩ : ∃ s, s = (Walk.visit ⟨0⟩ ⟨⟨⟨4⟩, ⟨4⟩⟩, ∅⟩ ⟨k, ∅, ∅, []⟩).2 := ⟨_, rfl⟩
  have hv₁ : (Walk.visit ⟨0⟩ ⟨⟨⟨4⟩, ⟨4⟩⟩, ∅⟩ ⟨k, ∅, ∅, []⟩).1 = .ok () := by
    rw [hk, hg]
    decide +kernel
  have hstack₁ : s₁.stack = [⟨⟨⟨3⟩, ⟨4⟩⟩, .singleton ⟨0⟩⟩] := by
    rw [hs₁, hk, hg]
    decide +kernel
  obtain ⟨s₂, hs₂⟩ : ∃ s, s =
    (Walk.visit ⟨0⟩ ⟨⟨⟨3⟩, ⟨4⟩⟩, .singleton ⟨0⟩⟩ { s₁ with stack := [] }).2 := ⟨_, rfl⟩
  have hv₂ : (Walk.visit ⟨0⟩ ⟨⟨⟨3⟩, ⟨4⟩⟩, .singleton ⟨0⟩⟩ { s₁ with stack := [] }).1 = .ok () := by
    rw [hs₁, hk, hg]
    decide +kernel
  have hstack₂ : s₂.stack =
      [⟨⟨⟨5⟩, ⟨4⟩⟩, .singleton ⟨0⟩⟩, ⟨⟨⟨2⟩, ⟨4⟩⟩, .singleton ⟨0⟩⟩] := by
    rw [hs₂, hs₁, hk, hg]
    decide +kernel
  have hcovers : (s₂.graph.find? ⟨5⟩).map (·.covers ⟨0⟩) = some true := by
    rw [hs₂, hs₁, hk, hg]
    decide +kernel
  obtain ⟨w, hw, hc⟩ := Option.map_eq_some_iff.1 hcovers
  have hgoes : Walk.Goes ⟨0⟩ (Walk.start k ⟨4⟩) s₂ :=
    .head ⟨_, _, rfl, Prod.ext hv₁ hs₁.symm⟩
      (.head ⟨_, _, hstack₁, Prod.ext hv₂ hs₂.symm⟩ .refl)
  rw [← hg]
  exact ⟨⟨4⟩, k, s₂, hturn, hgoes, _, _, w, hstack₂, rfl, hw, hc, .inl rfl⟩

/-- **A print does not refuse what it does not emit.** -/
theorem demand_not_produced_tapped :
    ∃ g report h v, g.Reachable ∧
      (analyze (.singleton ⟨0⟩) ⟨64, true, true, 10⟩).outcome g = (.ok report, h) ∧
      g.DemandAsked (.singleton ⟨0⟩) ⟨64, true, true, 10⟩ ⟨0⟩ ⟨5⟩ (.singleton ⟨0⟩) ∧
      h.find? ⟨5⟩ = some v ∧ ¬.singleton ⟨0⟩ ⊆ (v.flow ⟨0⟩).produced := by
  obtain ⟨report, h, v, ha, hv, hempty⟩ := analyze_tappedTwice
  refine ⟨tappedTwice, report, h, v, tappedTwice_reachable, ha, demandAsked_tappedTwice, hv, ?_⟩
  rw [hempty]
  exact fun hsub => OrdSet.not_mem_empty _ (hsub ⟨0⟩ (OrdSet.mem_singleton.2 rfl))

/-- What was asked of the second print, and the two things that decide it. -/
theorem demand_produced_iff_tapped :
    ∃ report h v, (analyze (.singleton ⟨0⟩) ⟨64, true, true, 10⟩).outcome tappedTwice =
        (.ok report, h) ∧ h.find? ⟨5⟩ = some v ∧
      (OrdSet.singleton ⟨0⟩ ⊆ (v.flow ⟨0⟩).produced ↔
        (v.passesOn = true ∧ v.supplies ⟨0⟩ = true) ∨ OrdSet.singleton (⟨0⟩ : SlotId) = ∅) := by
  obtain ⟨report, h, -, ha, -⟩ := analyze_tappedTwice
  obtain ⟨v, hv, hiff⟩ := demand_produced_iff tappedTwice_reachable rfl ha demandAsked_tappedTwice
  exact ⟨report, h, v, ha, hv, hiff⟩

end PlanGraph

end SharedPlan
