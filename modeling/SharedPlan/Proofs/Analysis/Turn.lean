import SharedPlan.Proofs.Analysis.Failing
import SharedPlan.Proofs.Analysis.Spread

/-!
# SharedPlan.Proofs.Analysis.Turn

The demand walk of a query in its turn.

In an analysis the active queries walk one after another, each on the graph that the
walks before it left.  `PlanGraph.Turn` says that a query has its turn on a graph; for
that query the graph is still as the bottom-up pass left it (`Turn.supplied`).

An analysis that fails does so in one of its passes (`failsWith_of_analyze`).  One that ends
with a refused demand ends so in the turn of the query that the error names
(`turn_of_demandNotSatisfied`): no other pass refuses demands.
-/

namespace SharedPlan

namespace PlanGraph

variable {g h : PlanGraph} {active : QuerySet} {options : PlannerOptions} {q : QueryId}

/-! ## Turns -/

/-- In an analysis, a query with a root has its turn on a graph: the order, the roots and
the bottom-up pass are done with, and the queries before it have walked. -/
def Turn (g : PlanGraph) (active : QuerySet) (options : PlannerOptions) (q : QueryId)
    (root : WaypointId) (k : PlanGraph) : Prop :=
  ∃ order before after g₁ walks, g.topologicalOrder = .ok order ∧
    g.activeRoots active = .ok (before ++ (q, root) :: after) ∧
    (supplyPass order active).outcome g.beginCycle = (.ok (), g₁) ∧
    (demandWalks options.maxWalkSteps.toNat before).outcome g₁ = (.ok walks, k)

/-- **In its turn** a query finds what the bottom-up pass left for it. -/
theorem Turn.supplied (hg : g.WellFormed) {root : WaypointId} {k : PlanGraph}
    (h : g.Turn active options q root k) :
    ∃ order, g.topologicalOrder = .ok order ∧
      (∀ r ∈ active.toList, g.beginCycle.FedAlong active r order) ∧ q ∈ active.toList ∧
      k.mapWaypoints Waypoint.unasked =
        (g.beginCycle.supplied active order).mapWaypoints Waypoint.unasked ∧
      k.only q = (g.beginCycle.supplied active order).only q := by
  obtain ⟨order, before, after, g₁, walks, ho, hr, hs, hw⟩ := h
  obtain ⟨hfed, rfl⟩ := (supplyPass_beginCycle_iff hg ho).1 hs
  obtain ⟨hmap, -⟩ := activeRoots_eq_ok_iff.1 hr
  have hnodup : ((before.map (·.1)) ++ q :: after.map (·.1)).Nodup := by
    have := hmap ▸ active.nodup_toList
    simpa using this
  rw [List.nodup_append] at hnodup
  obtain ⟨hbefore, -, hdisjoint⟩ := hnodup
  have hg₁ := wellFormed_supplied (wellFormed_beginCycle hg) active order
  obtain ⟨-, hother, hview⟩ := demandWalks_forall₂ hg₁.nodup hbefore hw
  refine ⟨order, ho, hfed, ?_, hview, ?_⟩
  · rw [← hmap]
    exact List.mem_map_of_mem (List.mem_append_right before List.mem_cons_self)
  · exact hother q fun hq => hdisjoint q hq q List.mem_cons_self rfl

theorem Turn.wellFormed (hg : g.WellFormed) {root : WaypointId} {k : PlanGraph}
    (h : g.Turn active options q root k) : k.WellFormed := by
  obtain ⟨order, -, -, -, hview, -⟩ := h.supplied hg
  exact (wellFormed_supplied (wellFormed_beginCycle hg) active order).of_view Waypoint.id_unasked
    Waypoint.kind_unasked (fun _ => Waypoint.sound_unasked) hview.symm

/-- The walk starts from the root of its query. -/
theorem Turn.root? (hg : g.WellFormed) {root : WaypointId} {k : PlanGraph}
    (h : g.Turn active options q root k) : k.root? q = some root := by
  obtain ⟨order, -, -, -, hview, -⟩ := h.supplied hg
  obtain ⟨-, before, after, -, -, -, hr, -⟩ := h
  have hroots : k.roots = g.beginCycle.roots := (roots_eq_of_view hview).trans
    (roots_eq_of_view (unsupplied_supplied (wellFormed_beginCycle hg).nodup active order))
  rw [PlanGraph.root?, hroots]
  exact (activeRoots_eq_ok_iff.1 hr).2 (q, root) (List.mem_append_right before List.mem_cons_self)

/-- A graph that agrees with the supplied graph on a query has recorded no exit of it. -/
theorem holdsExit_of_only (hg : g.WellFormed) {order : List WaypointId} {k : PlanGraph}
    (honly : k.only q = (g.beginCycle.supplied active order).only q) {n x : WaypointId}
    {w : Waypoint} {kind : EdgeKind} (hw : k.find? n = some w) :
    w.holdsExit kind ⟨q, x⟩ = false := by
  obtain ⟨v, hv, hvw⟩ := find?_of_only_eq honly hw
  rw [← Waypoint.holdsExit_only, ← hvw, Waypoint.holdsExit_only]
  exact holdsExit_supplied hg hv kind _

/-- Walks one after another, taken apart between two of them. -/
theorem demandWalks_append {limit : Nat} {before after : List (QueryId × WaypointId)}
    {walks : List (QueryId × WalkReport)} :
    (demandWalks limit (before ++ after)).outcome g = (.ok walks, h) ↔
      ∃ first k second, (demandWalks limit before).outcome g = (.ok first, k) ∧
        (demandWalks limit after).outcome k = (.ok second, h) ∧ walks = first ++ second := by
  induction before generalizing g walks with
  | nil =>
      constructor
      · exact fun hw => ⟨[], g, walks, rfl, hw, rfl⟩
      · rintro ⟨first, k, second, hfirst, hsecond, rfl⟩
        obtain ⟨hnil, rfl⟩ := Prod.mk.inj hfirst
        obtain rfl := Except.ok.inj hnil
        exact hsecond
  | cons p rest ih =>
      rw [List.cons_append, demandWalks_cons]
      constructor
      · rintro ⟨report, g', walks', hp, hrest, rfl⟩
        obtain ⟨first, k, second, hfirst, hsecond, rfl⟩ := ih.1 hrest
        exact ⟨_, k, second, demandWalks_cons.2 ⟨report, g', first, hp, hfirst, rfl⟩, hsecond, rfl⟩
      · rintro ⟨first, k, second, hfirst, hsecond, rfl⟩
        obtain ⟨report, g', first', hp, hrest, rfl⟩ := demandWalks_cons.1 hfirst
        exact ⟨report, g', _, hp, ih.2 ⟨first', k, second, hrest, hsecond, rfl⟩, rfl⟩

/-- **In an analysis that succeeds** a query walks in its turn to the end, passes the audit,
and what belongs to it stays as its walk left it. -/
theorem Turn.walked (hg : g.WellFormed) {root : WaypointId} {k : PlanGraph}
    (hturn : g.Turn active options q root k) {report : AnalysisReport}
    (ha : (analyze active options).outcome g = (.ok report, h)) :
    ∃ r k', (demandWalk q root options.maxWalkSteps.toNat).outcome k = (.ok r, k') ∧
      h.only q = k'.only q ∧
      h.mapWaypoints Waypoint.unasked = k.mapWaypoints Waypoint.unasked ∧
      (options.verifyExits = true → k'.checkExits q r.entered = .ok ()) := by
  have hids : k.ids.Nodup := (hturn.wellFormed hg).nodup
  obtain ⟨order, before, after, g₁, first, ho, hr, hs, hfirst⟩ := hturn
  obtain ⟨order', roots, g₁', walks, strays, ho', hr', hs', hw, haudit, -⟩ :=
    analyze_eq_ok_iff.1 ha
  obtain rfl := Except.ok.inj (ho.symm.trans ho')
  obtain rfl := Except.ok.inj (hr.symm.trans hr')
  obtain rfl := (Prod.mk.inj (hs.symm.trans hs')).2
  obtain ⟨first', k'', second, hfirst', hsecond, rfl⟩ := demandWalks_append.1 hw
  obtain rfl := (Prod.mk.inj (hfirst.symm.trans hfirst')).2
  have hnodup : (((q, root) :: after).map (·.1)).Nodup := by
    have := (activeRoots_eq_ok_iff.1 hr).1 ▸ active.nodup_toList
    rw [List.map_append, List.nodup_append] at this
    exact this.2.1
  obtain ⟨-, -, hview⟩ := demandWalks_forall₂ hids hnodup hsecond
  obtain ⟨r, k', rest, hwalk, hrest, rfl⟩ := demandWalks_cons.1 hsecond
  have hids' : k'.ids.Nodup :=
    ids_eq_of_view Waypoint.id_unasked (unasked_demandWalk hids hwalk) ▸ hids
  obtain ⟨hnot, hafter⟩ := List.nodup_cons.1 hnodup
  obtain ⟨-, hother, -⟩ := demandWalks_forall₂ hids' hafter hrest
  refine ⟨r, k', hwalk, hother q hnot, hview, fun hverify => ?_⟩
  have hchecked := (audit_eq_ok_iff.1 haudit).1 hverify (q, r)
    (List.mem_append_right _ List.mem_cons_self)
  exact checkExits_congr (hother q hnot) hchecked

/-- Walks fail in the turn of one of the queries. -/
theorem demandWalks_eq_error {limit : Nat} {roots : List (QueryId × WaypointId)}
    {e : PlanError} (hw : (demandWalks limit roots).outcome g = (.error e, h)) :
    ∃ before p after walks k, roots = before ++ p :: after ∧
      (demandWalks limit before).outcome g = (.ok walks, k) ∧
      (demandWalk p.1 p.2 limit).outcome k = (.error e, h) := by
  induction roots generalizing g with
  | nil => cases hw
  | cons p rest ih =>
      rw [demandWalks, List.mapM_cons, Attempt.bind_eq_error_iff] at hw
      rcases hw with hfail | ⟨r, g', hok, hw⟩
      · rcases Attempt.bind_eq_error_iff.1 hfail with hfail | ⟨_, _, -, hpure⟩
        · exact ⟨[], p, rest, [], g, rfl, rfl, hfail⟩
        · cases hpure
      · obtain ⟨report, g'', hp, hpure⟩ := Attempt.bind_eq_ok_iff.1 hok
        obtain ⟨hr, rfl⟩ := Prod.mk.inj hpure
        rcases Attempt.bind_eq_error_iff.1 hw with hfail | ⟨_, _, -, hpure⟩
        · obtain ⟨before, p', after, walks, k, rfl, hbefore, hwalk⟩ := ih hfail
          exact ⟨p :: before, p', after, _, k, rfl,
            demandWalks_cons.2 ⟨report, g'', walks, hp, hbefore, rfl⟩, hwalk⟩
        · cases hpure

/-! ## Failing analyses -/

/-- How an analysis of a graph ends with an error: at the order, at the roots, in the bottom-up
pass, in the turn of a query or at the audit, and what it leaves then. -/
inductive FailsWith (g : PlanGraph) (active : QuerySet) (options : PlannerOptions) (e : PlanError)
    (h : PlanGraph) : Prop
  | order : g.topologicalOrder = .error e → FailsWith g active options e h
  | roots : g.activeRoots active = .error e → FailsWith g active options e h
  | supply {order : List WaypointId} : g.topologicalOrder = .ok order →
      (supplyPass order active).outcome g.beginCycle = (.error e, h) →
      FailsWith g active options e h
  | walk {q : QueryId} {root : WaypointId} {k : PlanGraph} : g.Turn active options q root k →
      (demandWalk q root options.maxWalkSteps.toNat).outcome k = (.error e, h) →
      FailsWith g active options e h
  | audit {order : List WaypointId} {roots : List (QueryId × WaypointId)} {g₁ : PlanGraph}
      {walks : List (QueryId × WalkReport)} :
      g.topologicalOrder = .ok order → g.activeRoots active = .ok roots →
      (supplyPass order active).outcome g.beginCycle = (.ok (), g₁) →
      (demandWalks options.maxWalkSteps.toNat roots).outcome g₁ = (.ok walks, h) →
      h.audit options walks = .error e → FailsWith g active options e h

/-- **An analysis that fails**, pass by pass. -/
theorem failsWith_of_analyze {e : PlanError}
    (ha : (analyze active options).outcome g = (.error e, h)) : g.FailsWith active options e h := by
  rw [analyze_outcome] at ha
  cases ho : g.topologicalOrder with
  | error e' =>
      rw [ho] at ha
      obtain rfl := Except.error.inj (Prod.mk.inj ha).1
      exact .order ho
  | ok order =>
      cases hr : g.activeRoots active with
      | error e' =>
          simp only [ho, hr, Prod.mk.injEq, Except.error.injEq] at ha
          obtain ⟨rfl, -⟩ := ha
          exact .roots hr
      | ok roots =>
          simp only [ho, hr] at ha
          rcases Attempt.bind_eq_error_iff.1 ha with hbegin | ⟨_, g₀, hbegin, ha⟩
          · cases hbegin
          obtain ⟨-, rfl⟩ := Prod.mk.inj hbegin
          rcases Attempt.bind_eq_error_iff.1 ha with hs | ⟨_, g₁, hs, ha⟩
          · exact .supply ho hs
          rcases Attempt.bind_eq_error_iff.1 ha with hw | ⟨walks, k, hw, ha⟩
          · obtain ⟨before, ⟨q, root⟩, after, walks, k, rfl, hbefore, hwalk⟩ :=
              demandWalks_eq_error hw
            exact .walk ⟨order, before, after, g₁, walks, ho, hr, hs, hbefore⟩ hwalk
          rcases Attempt.bind_eq_error_iff.1 ha with hget | ⟨_, k', hget, ha⟩
          · cases hget
          obtain ⟨hk, rfl⟩ := Prod.mk.inj hget
          obtain rfl := Except.ok.inj hk
          rcases Attempt.bind_eq_error_iff.1 ha with haudit | ⟨_, _, -, hpure⟩
          · obtain ⟨hfail, rfl⟩ := Prod.mk.inj haudit
            exact .audit ho hr hs hw hfail
          · cases hpure

/-- **A refused demand ends an analysis in the turn of its query.**  No other pass refuses
demands. -/
theorem turn_of_demandNotSatisfied {name : String} {missing : SlotSet}
    (ha : (analyze active options).outcome g = (.error (.demandNotSatisfied name q missing), h)) :
    ∃ root k, g.Turn active options q root k ∧
      (demandWalk q root options.maxWalkSteps.toNat).outcome k =
        (.error (.demandNotSatisfied name q missing), h) := by
  have refutes {α : Type} {r : Except PlanError α}
      (hr : FailsOnly (fun e => e ≠ .demandNotSatisfied name q missing) r)
      (he : r = .error (.demandNotSatisfied name q missing)) : False :=
    hr _ he rfl
  cases failsWith_of_analyze ha with
  | order ho => exact (refutes (failsOnly_topologicalOrder (by simp)) ho).elim
  | roots hr => exact (refutes (failsOnly_activeRoots (by simp)) hr).elim
  | @supply order _ hs =>
      have hpass : (supplyPass order active).FailsOnly
          (fun e => e ≠ .demandNotSatisfied name q missing) fun _ => True :=
        failsOnly_supplyPass (K := fun _ => True) (fun _ _ => trivial) (fun _ _ => trivial)
          (by simp) (by simp [PlanError.unknownId]) (fun _ _ _ => trivial) fun _ _ => trivial
      exact (refutes (hpass.error _ trivial) (congrArg Prod.fst hs)).elim
  | walk hturn hwalk =>
      obtain rfl := Walk.query_of_demandNotSatisfied hwalk
      exact ⟨_, _, hturn, hwalk⟩
  | audit _ _ _ _ haudit =>
      exact (refutes (failsOnly_audit (by simp) (by simp [PlanError.unknownId])) haudit).elim

end PlanGraph

end SharedPlan
