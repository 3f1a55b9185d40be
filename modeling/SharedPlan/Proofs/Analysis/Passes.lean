import Mathlib.Data.List.Forall2
import SharedPlan.Analysis.Cycle
import SharedPlan.Proofs.Analysis.Lockstep
import SharedPlan.Proofs.Graph.Order

/-!
# SharedPlan.Proofs.Analysis.Passes

A whole analysis taken apart into its passes.

`analyze_eq_ok_iff` names what every pass of a successful analysis found.  The walks
of the queries do not meet: each succeeds from where the others left the graph
exactly when it succeeds from the supplied graph, and leaves there what it would have
left on its own (`demandWalks_forall₂`, `exists_demandWalks`).
-/

namespace SharedPlan

/-! ## Lists of steps -/

theorem Attempt.bind_eq_ok_iff {σ α β : Type} {a : Attempt σ α} {f : α → Attempt σ β} {s t : σ}
    {y : β} :
    (a >>= f).outcome s = (.ok y, t) ↔
      ∃ x s', a.outcome s = (.ok x, s') ∧ (f x).outcome s' = (.ok y, t) := by
  rw [Attempt.outcome_bind]
  rcases a.outcome s with ⟨_ | x, s'⟩
  · simp
  · simp

/-- An outcome that succeeded, with the state it left. -/
theorem Attempt.eq_of_ok {σ α : Type} {r : Except PlanError α × σ} {a : α} (h : r.1 = .ok a) :
    r = (.ok a, r.2) :=
  Prod.ext h rfl

/-- A list of steps succeeds when every step does. -/
theorem mapM_eq_ok_iff {α β : Type} {f : α → Except PlanError β} {l : List α} {r : List β} :
    l.mapM f = .ok r ↔ List.Forall₂ (fun a b => f a = .ok b) l r := by
  induction l generalizing r with
  | nil => simp [pure, Except.pure, eq_comm]
  | cons a rest ih =>
      rw [List.mapM_cons, List.forall₂_cons_left_iff]
      cases ha : f a with
      | error e => simp [bind, Except.bind]
      | ok b =>
          simp only [bind, Except.bind, Except.ok.injEq, ← ih]
          cases rest.mapM f with
          | error e => simp
          | ok bs => simp [pure, Except.pure, eq_comm]

/-- A step after another succeeds when both do. -/
theorem bind_eq_ok_iff {α β : Type} {a : Except PlanError α} {f : α → Except PlanError β} {b : β} :
    (a >>= f) = .ok b ↔ ∃ x, a = .ok x ∧ f x = .ok b := by
  cases a <;> simp [bind, Except.bind]

theorem bind_pure_eq_ok_iff {α β : Type} {a : Except PlanError α} {f : α → β} {b : β} :
    (do let x ← a; return f x) = .ok b ↔ ∃ x, a = .ok x ∧ f x = b := by
  simp only [bind_eq_ok_iff, pure, Except.pure, Except.ok.injEq]

/-- Every item of the one list has its counterpart in the other. -/
theorem exists_of_forall₂ {α β : Type} {R : α → β → Prop} {l : List α} {r : List β}
    (h : List.Forall₂ R l r) {a : α} (ha : a ∈ l) : ∃ b ∈ r, R a b := by
  induction h with
  | nil => exact absurd ha List.not_mem_nil
  | cons hab _ ih =>
      rcases List.mem_cons.1 ha with rfl | ha
      · exact ⟨_, List.mem_cons_self, hab⟩
      · obtain ⟨b, hb, hR⟩ := ih ha
        exact ⟨b, List.mem_cons_of_mem _ hb, hR⟩

namespace PlanGraph

/-! ## The passes -/

/-- **An analysis that succeeds**, pass by pass. -/
theorem analyze_eq_ok_iff {g h : PlanGraph} {active : QuerySet} {options : PlannerOptions}
    {report : AnalysisReport} :
    (analyze active options).outcome g = (.ok report, h) ↔
      ∃ order roots g₁ walks strays,
        g.topologicalOrder = .ok order ∧ g.activeRoots active = .ok roots ∧
        (supplyPass order active).outcome g.beginCycle = (.ok (), g₁) ∧
        (demandWalks options.maxWalkSteps.toNat roots).outcome g₁ = (.ok walks, h) ∧
        h.audit options walks = .ok strays ∧
        report = ⟨order, .ofList (walks.map fun r => (r.1, r.2.steps)), strays⟩ := by
  simp only [analyze, Attempt.bind_eq_ok_iff, Attempt.outcome_get, Attempt.outcome_ofExcept,
    Attempt.outcome_modify, Attempt.outcome_pure, Prod.mk.injEq, Except.ok.injEq]
  constructor
  · rintro ⟨_, _, ⟨rfl, rfl⟩, order, _, ⟨ho, rfl⟩, _, _, ⟨rfl, rfl⟩, roots, _, ⟨hr, rfl⟩,
      _, _, ⟨-, rfl⟩, _, g₁, hs, walks, h', hw, _, _, ⟨rfl, rfl⟩, strays, _, ⟨ha, rfl⟩, rfl, rfl⟩
    exact ⟨order, roots, g₁, walks, strays, ho, hr, hs, hw, ha, rfl⟩
  · rintro ⟨order, roots, g₁, walks, strays, ho, hr, hs, hw, ha, rfl⟩
    exact ⟨_, _, ⟨rfl, rfl⟩, order, _, ⟨ho, rfl⟩, _, _, ⟨rfl, rfl⟩, roots, _, ⟨hr, rfl⟩,
      (), _, ⟨trivial, rfl⟩, _, g₁, hs, walks, _, hw, _, _, ⟨rfl, rfl⟩, strays, _, ⟨ha, rfl⟩, rfl,
      rfl⟩

/-- The order that is reported is the topological order of the graph. -/
theorem order_of_analyze {g h : PlanGraph} {active : QuerySet} {options : PlannerOptions}
    {report : AnalysisReport} (ha : (analyze active options).outcome g = (.ok report, h)) :
    g.topologicalOrder = .ok report.order := by
  obtain ⟨order, -, -, -, -, ho, -, -, -, -, rfl⟩ := analyze_eq_ok_iff.1 ha
  exact ho

/-! ## Roots -/

theorem rootOf_eq_ok_iff {g : PlanGraph} {q : QueryId} {p : QueryId × WaypointId} :
    g.rootOf q = .ok p ↔ p.1 = q ∧ g.root? q = some p.2 := by
  obtain ⟨r, root⟩ := p
  rw [rootOf]
  cases g.root? q with
  | none => simp
  | some root' => simp [eq_comm]

/-- The roots that are found belong to the active queries, one to each, in order. -/
theorem activeRoots_eq_ok_iff {g : PlanGraph} {active : QuerySet}
    {roots : List (QueryId × WaypointId)} :
    g.activeRoots active = .ok roots ↔
      roots.map (·.1) = active.toList ∧ ∀ p ∈ roots, g.root? p.1 = some p.2 := by
  rw [activeRoots, mapM_eq_ok_iff]
  induction active.toList generalizing roots with
  | nil =>
      rw [List.forall₂_nil_left_iff, List.map_eq_nil_iff]
      exact ⟨fun h => ⟨h, by simp [h]⟩, fun h => h.1⟩
  | cons q rest ih =>
      rw [List.forall₂_cons_left_iff]
      constructor
      · rintro ⟨p, ps, hp, hps, rfl⟩
        obtain ⟨rfl, hroot⟩ := rootOf_eq_ok_iff.1 hp
        obtain ⟨hmap, hroots⟩ := ih.1 hps
        exact ⟨by rw [List.map_cons, hmap], List.forall_mem_cons.2 ⟨hroot, hroots⟩⟩
      · rintro ⟨hmap, hroots⟩
        cases roots with
        | nil => cases hmap
        | cons p ps =>
            obtain ⟨rfl, hrest⟩ := List.cons.inj hmap
            obtain ⟨hp, hps⟩ := List.forall_mem_cons.1 hroots
            exact ⟨p, ps, rootOf_eq_ok_iff.2 ⟨rfl, hp⟩, ih.2 ⟨hrest, hps⟩, rfl⟩

theorem exists_activeRoots {g : PlanGraph} {active : QuerySet}
    (h : ∀ q ∈ active.toList, ∃ root, g.root? q = some root) :
    ∃ roots, g.activeRoots active = .ok roots := by
  simp only [activeRoots, mapM_eq_ok_iff]
  generalize active.toList = l at h
  induction l with
  | nil => exact ⟨[], .nil⟩
  | cons q rest ih =>
      obtain ⟨⟨root, hroot⟩, hrest⟩ := List.forall_mem_cons.1 h
      obtain ⟨roots, hroots⟩ := ih hrest
      exact ⟨(q, root) :: roots, .cons (rootOf_eq_ok_iff.2 ⟨rfl, hroot⟩) hroots⟩

/-! ## The walks -/

/-- A walk changes nothing that belongs to another query. -/
theorem only_demandWalk {g h : PlanGraph} {q r : QueryId} {root : WaypointId} {limit : Nat}
    {report : WalkReport} (hg : g.ids.Nodup)
    (hw : (demandWalk q root limit).outcome g = (.ok report, h)) (hr : q ≠ r) :
    h.only r = g.only r := by
  obtain ⟨n, u, hrun, -, -, rfl⟩ := Walk.run_eq_ok_iff.1 hw
  exact hrun.only_eq hg hr

theorem unasked_demandWalk {g h : PlanGraph} {q : QueryId} {root : WaypointId} {limit : Nat}
    {report : WalkReport} (hg : g.ids.Nodup)
    (hw : (demandWalk q root limit).outcome g = (.ok report, h)) :
    h.mapWaypoints Waypoint.unasked = g.mapWaypoints Waypoint.unasked := by
  obtain ⟨n, u, hrun, -, -, rfl⟩ := Walk.run_eq_ok_iff.1 hw
  exact hrun.unasked_eq hg

theorem demandWalks_cons {limit : Nat} {p : QueryId × WaypointId}
    {rest : List (QueryId × WaypointId)} {g h : PlanGraph} {walks : List (QueryId × WalkReport)} :
    (demandWalks limit (p :: rest)).outcome g = (.ok walks, h) ↔
      ∃ report g' walks', (demandWalk p.1 p.2 limit).outcome g = (.ok report, g') ∧
        (demandWalks limit rest).outcome g' = (.ok walks', h) ∧
        walks = (p.1, report) :: walks' := by
  rw [demandWalks, List.mapM_cons, Attempt.bind_eq_ok_iff]
  simp only [Attempt.bind_eq_ok_iff, Attempt.outcome_pure, Prod.mk.injEq, Except.ok.injEq]
  constructor
  · rintro ⟨_, _, ⟨report, g', hw, rfl, rfl⟩, walks', _, hrest, rfl, rfl⟩
    exact ⟨report, g', walks', hw, hrest, rfl⟩
  · rintro ⟨report, g', walks', hw, hrest, rfl⟩
    exact ⟨_, g', ⟨report, _, hw, rfl, rfl⟩, walks', _, hrest, rfl, rfl⟩

/-- The reports of the walks are those of the queries that walked, in order. -/
theorem fst_demandWalks {limit : Nat} {roots : List (QueryId × WaypointId)} {g h : PlanGraph}
    {walks : List (QueryId × WalkReport)}
    (hw : (demandWalks limit roots).outcome g = (.ok walks, h)) :
    walks.map (·.1) = roots.map (·.1) := by
  induction roots generalizing g walks with
  | nil =>
      obtain rfl := Except.ok.inj (Prod.mk.inj hw).1
      rfl
  | cons p rest ih =>
      obtain ⟨report, g', walks', -, hrest, rfl⟩ := demandWalks_cons.1 hw
      rw [List.map_cons, List.map_cons, ih hrest]

/-- **The walks do not meet.**  Each found from the graph that all start from what it
found after the others, and left there what belongs to its query; what belongs to
no query that walked is as it was. -/
theorem demandWalks_forall₂ {limit : Nat} {roots : List (QueryId × WaypointId)} {g h : PlanGraph}
    {walks : List (QueryId × WalkReport)} (hg : g.ids.Nodup) (hroots : (roots.map (·.1)).Nodup)
    (hw : (demandWalks limit roots).outcome g = (.ok walks, h)) :
    List.Forall₂ (fun p r => r.1 = p.1 ∧
        ∃ h', (demandWalk p.1 p.2 limit).outcome g = (.ok r.2, h') ∧ h'.only p.1 = h.only p.1)
      roots walks ∧
    (∀ q ∉ roots.map (·.1), h.only q = g.only q) ∧
    h.mapWaypoints Waypoint.unasked = g.mapWaypoints Waypoint.unasked := by
  induction roots generalizing g walks with
  | nil =>
      obtain ⟨hok, rfl⟩ := Prod.mk.inj hw
      obtain rfl := Except.ok.inj hok
      exact ⟨.nil, fun _ _ => rfl, rfl⟩
  | cons p rest ih =>
      obtain ⟨report, g', walks', hp, hrest, rfl⟩ := demandWalks_cons.1 hw
      have hasked := unasked_demandWalk hg hp
      have hg' : g'.ids.Nodup := ids_eq_of_view Waypoint.id_unasked hasked ▸ hg
      obtain ⟨hnot, hnodup⟩ := List.nodup_cons.1 hroots
      obtain ⟨hall, hother, hview⟩ := ih hg' hnodup hrest
      refine ⟨.cons ⟨rfl, g', hp, (hother p.1 hnot).symm⟩ ?_, ?_, hview.trans hasked⟩
      · have hne : ∀ r ∈ rest, p.1 ≠ r.1 := fun r hr e => hnot (List.mem_map.2 ⟨r, hr, e.symm⟩)
        refine ((List.forall₂_and_left _ _).2 ⟨hne, hall⟩).imp fun r w hone => ?_
        obtain ⟨hpr, hr, h', hw', heq⟩ := hone
        obtain ⟨h'', hw'', heq'⟩ := demandWalk_congr hg' (only_demandWalk hg hp hpr) hw'
        exact ⟨hr, h'', hw'', heq'.symm.trans heq⟩
      · intro q hq
        obtain ⟨hne, hq⟩ := not_or.1 (mt List.mem_cons.2 hq)
        exact (hother q hq).trans (only_demandWalk hg hp (Ne.symm hne))

/-- Walks that each succeed on their own succeed one after another. -/
theorem exists_demandWalks {limit : Nat} {roots : List (QueryId × WaypointId)} {g : PlanGraph}
    (hg : g.ids.Nodup) (hroots : (roots.map (·.1)).Nodup)
    (hw : ∀ p ∈ roots, ∃ report h, (demandWalk p.1 p.2 limit).outcome g = (.ok report, h)) :
    ∃ walks h, (demandWalks limit roots).outcome g = (.ok walks, h) := by
  induction roots generalizing g with
  | nil => exact ⟨[], g, rfl⟩
  | cons p rest ih =>
      obtain ⟨⟨report, g', hp⟩, hw⟩ := List.forall_mem_cons.1 hw
      have hg' : g'.ids.Nodup :=
        ids_eq_of_view Waypoint.id_unasked (unasked_demandWalk hg hp) ▸ hg
      obtain ⟨hnot, hnodup⟩ := List.nodup_cons.1 hroots
      have hrest : ∀ r ∈ rest, ∃ report h,
          (demandWalk r.1 r.2 limit).outcome g' = (.ok report, h) := by
        intro r hr
        obtain ⟨report, h, hr'⟩ := hw r hr
        have hne : p.1 ≠ r.1 := fun e => hnot (List.mem_map.2 ⟨r, hr, e.symm⟩)
        obtain ⟨h', hr'', -⟩ := demandWalk_congr hg (only_demandWalk hg hp hne).symm hr'
        exact ⟨report, h', hr''⟩
      obtain ⟨walks, h, hh⟩ := ih hg' hnodup hrest
      exact ⟨_, h, demandWalks_cons.2 ⟨report, g', walks, hp, hh, rfl⟩⟩

end PlanGraph

end SharedPlan
